import BoundedBytes.Container

namespace BoundedBytes.Bulk

variable {σ : Type} [Container σ]

-- What is left after inserting bytes in order up to the first refusal.
structure Inserted (σ : Type) where
  refusal : Option Error
  -- the bytes that were not accepted
  rest : List UInt8
  container : σ

-- What was handed over, in order, up to the first refusal.
structure Removed (σ : Type) where
  refusal : Option Error
  bytes : List UInt8
  container : σ

def insertAll (s : σ) (values : List UInt8) : Checked (Inserted σ) :=
  match values with
  | [] => some ⟨none, [], s⟩
  | value :: rest =>
    match Container.insert s value with
    | none => none
    | some (.error e, next) => some ⟨some e, value :: rest, next⟩
    | some (.ok _, next) => insertAll next rest

-- Bytes are collected latest first and turned round once, at the end.
def removeOnto (taken : List UInt8) (s : σ) : Nat → Checked (Removed σ)
  | 0 => some ⟨none, taken.reverse, s⟩
  | count + 1 =>
    match Container.remove s with
    | none => none
    | some (.error e, next) => some ⟨some e, taken.reverse, next⟩
    | some (.ok value, next) => removeOnto (value :: taken) next count

def removeUpTo (s : σ) (count : Nat) : Checked (Removed σ) := removeOnto [] s count

def cycleOnto (taken : List UInt8) (s : σ) : List UInt8 → Checked (Removed σ)
  | [] => some ⟨none, taken.reverse, s⟩
  | value :: rest =>
    match Container.insert s value with
    | none => none
    | some (.error e, next) => some ⟨some e, taken.reverse, next⟩
    | some (.ok _, held) =>
      match Container.remove held with
      | none => none
      | some (.error e, next) => some ⟨some e, taken.reverse, next⟩
      | some (.ok handed, next) => cycleOnto (handed :: taken) next rest

-- For each byte in turn, inserts it and then removes one. A refused insertion
-- is not followed by a removal.
def cycle (s : σ) (values : List UInt8) : Checked (Removed σ) := cycleOnto [] s values

theorem removeOnto_eq (taken : List UInt8) (s : σ) (count : Nat) :
    removeOnto taken s count =
      (removeUpTo s count).map fun r => { r with bytes := taken.reverse ++ r.bytes } := by
  suffices general : ∀ more, removeOnto (more ++ taken) s count =
      (removeOnto more s count).map fun r => { r with bytes := taken.reverse ++ r.bytes } from
    general []
  induction count generalizing s with
  | zero => simp [removeOnto]
  | succ count ih =>
    intro more
    rw [removeOnto, removeOnto]
    split
    · rfl
    · simp
    · exact ih _ (_ :: more)

theorem cycleOnto_eq (taken : List UInt8) (s : σ) (values : List UInt8) :
    cycleOnto taken s values =
      (cycle s values).map fun r => { r with bytes := taken.reverse ++ r.bytes } := by
  suffices general : ∀ more, cycleOnto (more ++ taken) s values =
      (cycleOnto more s values).map fun r => { r with bytes := taken.reverse ++ r.bytes } from
    general []
  induction values generalizing s with
  | nil => simp [cycleOnto]
  | cons value values ih =>
    intro more
    rw [cycleOnto, cycleOnto]
    split
    · rfl
    · simp
    · split
      · rfl
      · simp
      · exact ih _ (_ :: more)

end BoundedBytes.Bulk
