import BoundedBytes.Proofs.Queue.Move
import BoundedBytes.Proofs.Stack.Move
import Mathlib.Order.Defs.Unbundled

namespace BoundedBytes

namespace Word

theorem subWithBorrow_fst (a b : Word) : (subWithBorrow a b).1 = a - b := by
  rw [← UInt16.toNat_inj, toNat_subWithBorrow, UInt16.toNat_sub]

-- A borrow stands for what the difference is too large by.
theorem subWithBorrow_exact (a b : Word) :
    a.toNat + 65536 * (subWithBorrow a b).2.toNat = b.toNat + (subWithBorrow a b).1.toNat := by
  have boundA := a.toNat_lt
  have boundB := b.toNat_lt
  rw [toNat_subWithBorrow, borrow_eq]
  by_cases short : a.toNat < b.toNat
  · rw [decide_eq_true short, Bool.toNat_true]
    omega
  · rw [decide_eq_false short, Bool.toNat_false]
    omega

theorem above_iff (a b : Word) : above a b = true ↔ b.toNat < a.toNat := by
  rw [above_eq, decide_eq_true_iff]

theorem atLeast_iff (a b : Word) : atLeast a b = true ↔ b.toNat ≤ a.toNat := by
  rw [atLeast_eq, decide_eq_true_iff]

theorem atLeast_eq_not_above (a b : Word) : atLeast a b = !above b a := rfl

theorem above_strict : IsStrictTotalOrder Word fun a b => above a b = true where
  trichotomous a b notAbove notBelow := by
    rw [above_iff] at notAbove notBelow
    exact UInt16.toNat_inj.mp (by omega)
  irrefl a := by
    rw [above_iff]
    exact Nat.lt_irrefl _
  trans a b c first second := by
    rw [above_iff] at first second ⊢
    exact Nat.lt_trans second first

theorem toInt_toInt16 (a : Word) :
    a.toInt16.toInt = if a.toNat < 32768 then (a.toNat : Int) else a.toNat - 65536 := by
  have bound := a.toNat_lt
  show a.toBitVec.toInt = _
  rw [BitVec.toInt_eq_toNat_cond, UInt16.toNat_toBitVec]
  split <;> split <;> omega

-- A sign bit would change the order of two words just where only one has it.
theorem above_eq_signed_iff (a b : Word) :
    above a b = decide (b.toInt16 < a.toInt16) ↔ (a.toNat < 32768 ↔ b.toNat < 32768) := by
  have boundA := a.toNat_lt
  have boundB := b.toNat_lt
  rw [above_eq, decide_eq_decide, Int16.lt_iff_toInt_lt, toInt_toInt16, toInt_toInt16]
  split <;> split <;> omega

end Word

-- Bounds are accepted where they hold a slot and lie in the array, and refused
-- everywhere else.
structure Guarded (size : Word) (s : σ) (init : Word → Word → Checked (Answer σ Unit)) : Prop where
  accepted : ∀ lower upper, (∃ next, init lower upper = some (.ok (), next)) ↔
    lower.toNat < upper.toNat ∧ upper.toNat ≤ size.toNat
  refused : ∀ lower upper, init lower upper = some (.error .invalidRange, s) ↔
    ¬(lower.toNat < upper.toNat ∧ upper.toNat ≤ size.toNat)

theorem Guarded.of_order {σ : Type} {size : Word} {s : σ}
    {init : Word → Word → Checked (Answer σ Unit)}
    (right : ∀ {lower upper}, lower < upper → upper ≤ size →
      ∃ next, init lower upper = some (.ok (), next))
    (wrong : ∀ {lower upper}, ¬(lower < upper ∧ upper ≤ size) →
      init lower upper = some (.error .invalidRange, s)) : Guarded size s init where
  accepted lower upper := by
    rw [← UInt16.lt_iff_toNat_lt, ← UInt16.le_iff_toNat_le]
    constructor
    · rintro ⟨next, made⟩
      by_contra outside
      cases (wrong outside).symm.trans made
    · rintro ⟨order, inside⟩
      exact right order inside
  refused lower upper := by
    rw [← UInt16.lt_iff_toNat_lt, ← UInt16.le_iff_toNat_le]
    constructor
    · rintro made ⟨order, inside⟩
      obtain ⟨next, accepted⟩ := right order inside
      cases accepted.symm.trans made
    · exact wrong

theorem Stack.guarded (s : Stack size) : Guarded size s fun bottom sentinel => s.init sentinel bottom :=
  .of_order (fun order inside => ⟨_, init_exact order inside⟩) init_refused

theorem Queue.guarded (q : Queue size) : Guarded size q q.init := by
  refine .of_order ?_ init_refused
  intro start stop order inside
  obtain ⟨last, _, behind⟩ := exists_last order
  exact ⟨_, init_exact order inside behind⟩

-- The two tests by borrows decide the order of words as numbers, whatever their
-- highest bits are. So do the guards that both containers make of them.
theorem borrows_decide_order :
    (∀ a b : Word, (Word.subWithBorrow a b).1 = a - b ∧
      a.toNat + 65536 * (Word.subWithBorrow a b).2.toNat =
        b.toNat + (Word.subWithBorrow a b).1.toNat) ∧
    (∀ a b : Word, a.above b = (Word.subWithBorrow b a).2 ∧ (a.above b = true ↔ b.toNat < a.toNat)) ∧
    (∀ a b : Word, a.atLeast b = !(Word.subWithBorrow a b).2 ∧
      (a.atLeast b = true ↔ b.toNat ≤ a.toNat) ∧ a.atLeast b = !b.above a) ∧
    IsStrictTotalOrder Word (fun a b => a.above b = true) ∧
    (∀ a b : Word, a.above b = decide (b.toInt16 < a.toInt16) ↔
      (a.toNat < 32768 ↔ b.toNat < 32768)) ∧
    (∀ (size : Word) (s : Stack size), Guarded size s fun bottom sentinel => s.init sentinel bottom) ∧
    ∀ (size : Word) (q : Queue size), Guarded size q q.init := by
  refine ⟨?_, ?_, ?_, Word.above_strict, Word.above_eq_signed_iff, fun _ => Stack.guarded,
    fun _ => Queue.guarded⟩
  · intro a b
    exact ⟨Word.subWithBorrow_fst a b, Word.subWithBorrow_exact a b⟩
  · intro a b
    exact ⟨rfl, Word.above_iff a b⟩
  · intro a b
    exact ⟨rfl, Word.atLeast_iff a b, Word.atLeast_eq_not_above a b⟩

end BoundedBytes
