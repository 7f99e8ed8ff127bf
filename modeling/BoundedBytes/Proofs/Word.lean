import BoundedBytes.Word
import Mathlib.Tactic.ByContra

namespace BoundedBytes.Word

variable {lower upper size a b : Word}

-- The guard that both containers put before new bounds, in the order of words.
theorem guard_eq_false_iff :
    (!upper.above lower || upper.above size) = false ↔ lower < upper ∧ upper ≤ size := by
  rw [above_eq, above_eq, Bool.or_eq_false_iff, Bool.not_eq_false', decide_eq_true_iff,
    decide_eq_false_iff_not, UInt16.lt_iff_toNat_lt, UInt16.le_iff_toNat_le, Nat.not_lt]

theorem add?_eq_none_iff : add? a b = none ↔ 65535 < a.toNat + b.toNat := by
  constructor
  · intro fault
    by_contra fits
    obtain ⟨sum, added, _⟩ := exists_add? (a := a) (b := b) (by omega)
    cases fault.symm.trans added
  · intro out
    cases added : add? a b with
    | none => rfl
    | some sum =>
      have value := add?_eq_some_iff.mp added
      have bound := sum.toNat_lt
      omega

theorem sub?_eq_none_iff : sub? a b = none ↔ a.toNat < b.toNat := by
  constructor
  · intro fault
    by_contra fits
    obtain ⟨difference, taken, _⟩ := exists_sub? (a := a) (b := b) (by omega)
    cases fault.symm.trans taken
  · intro out
    cases taken : sub? a b with
    | none => rfl
    | some difference =>
      have value := sub?_eq_some_iff.mp taken
      omega

-- In order, the wrapping difference is the exact one.
theorem sub?_of_le (order : b ≤ a) : sub? a b = some (a - b) := by
  rw [sub?_eq_some_iff, UInt16.toNat_sub_of_le a b order]
  exact Nat.sub_add_cancel (UInt16.le_iff_toNat_le.mp order)

-- Two words are equally far from two bases.
def SameOffset (base base' a b : Word) : Prop :=
  (a.toNat : Int) - base.toNat = b.toNat - base'.toNat

end BoundedBytes.Word
