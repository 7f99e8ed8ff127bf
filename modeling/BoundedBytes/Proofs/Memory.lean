import BoundedBytes.Memory
import Mathlib.Data.List.Basic

namespace BoundedBytes.Memory

variable {size : Word} {memory : Memory size} {one two slots : List Nat} {slot : Nat}

theorem read_eq_none_iff {address : Word} :
    memory.read address = none ↔ size.toNat ≤ address.toNat := Vector.getElem?_eq_none_iff

theorem write_eq_none_iff {address : Word} {value : UInt8} :
    memory.write address value = none ↔ size.toNat ≤ address.toNat := by
  unfold write
  split
  · rename_i inside
    simp only [reduceCtorEq, false_iff]
    exact Nat.not_le_of_lt inside
  · rename_i outside
    simp only [true_iff]
    exact Nat.le_of_not_lt outside

theorem setIfInBounds_eq (inside : slot < size.toNat) {value : UInt8} :
    memory.setIfInBounds slot value = memory.set slot value inside := by
  apply Vector.ext
  intro i bound
  rw [Vector.getElem_setIfInBounds, Vector.getElem_set]

theorem ext_slots {next : Memory size} (same : ∀ slot : Nat, next[slot]? = memory[slot]?) :
    next = memory := by
  apply Vector.ext
  intro slot inside
  have alike := same slot
  rwa [Vector.getElem?_eq_getElem inside, Vector.getElem?_eq_getElem inside, Option.some.injEq] at alike

-- The bytes in some slots, in the order of the slots.
def held (memory : Memory size) (slots : List Nat) : List UInt8 := slots.filterMap (memory[·]?)

theorem held_nil : memory.held [] = [] := rfl

theorem held_cons (inside : slot < size.toNat) :
    memory.held (slot :: slots) = memory[slot] :: memory.held slots :=
  List.filterMap_cons_some (Vector.getElem?_eq_getElem inside)

theorem held_append : memory.held (one ++ two) = memory.held one ++ memory.held two :=
  List.filterMap_append

theorem held_set (inside : slot < size.toNat) (value : UInt8) (apart : slot ∉ slots) :
    Memory.held (memory.set slot value inside) slots = memory.held slots := by
  refine List.filterMap_congr ?_
  intro other member
  have different : slot ≠ other := fun same => apart (same ▸ member)
  rw [Vector.getElem?_set_ne _ different]

theorem length_held (inside : ∀ slot ∈ slots, slot < size.toNat) :
    (memory.held slots).length = slots.length := by
  induction slots with
  | nil => rfl
  | cons slot slots ih =>
    rw [held_cons (inside slot (List.mem_cons_self ..)), List.length_cons, List.length_cons,
      ih fun other member => inside other (List.mem_cons_of_mem _ member)]

end BoundedBytes.Memory
