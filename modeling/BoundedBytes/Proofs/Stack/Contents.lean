import BoundedBytes.Proofs.Memory
import BoundedBytes.Stack.Basic

namespace BoundedBytes.Stack

variable {size : Word} {memory : Memory size} {c : Cursors} {top : Word}

namespace Cursors

theorem liveSlots_push (within : c.Within size) (moved : top.toNat + 1 = c.top.toNat) :
    liveSlots { c with top } = top.toNat :: c.liveSlots := by
  have below := UInt16.le_iff_toNat_le.mp within.below
  unfold liveSlots
  rw [show c.sentinel.toNat - top.toNat = c.sentinel.toNat - c.top.toNat + 1 by omega,
    List.range'_succ, moved]

theorem liveSlots_pop (held : c.top < c.sentinel) (moved : top.toNat = c.top.toNat + 1) :
    c.liveSlots = c.top.toNat :: liveSlots { c with top } := by
  have above := UInt16.lt_iff_toNat_lt.mp held
  unfold liveSlots
  rw [show c.sentinel.toNat - c.top.toNat = c.sentinel.toNat - top.toNat + 1 by omega,
    List.range'_succ, moved]

theorem mem_liveSlots (within : c.Within size) {slot : Nat} :
    slot ∈ c.liveSlots ↔ c.top.toNat ≤ slot ∧ slot < c.sentinel.toNat := by
  have below := UInt16.le_iff_toNat_le.mp within.below
  rw [liveSlots, List.mem_range'_1, Nat.add_sub_cancel' below]

theorem length_liveSlots (c : Cursors) :
    c.liveSlots.length = c.sentinel.toNat - c.top.toNat := List.length_range'

theorem room_eq (within : c.Within size) :
    ∃ slots, c.room = some slots ∧ slots.toNat = c.sentinel.toNat - c.bottom.toNat := by
  have room := UInt16.lt_iff_toNat_lt.mp within.room
  obtain ⟨slots, taken, value⟩ := Word.exists_sub? (a := c.sentinel) (b := c.bottom) (by omega)
  exact ⟨slots, taken, by omega⟩

theorem used_eq (within : c.Within size) :
    ∃ used, c.used = some used ∧ used.toNat = c.sentinel.toNat - c.top.toNat := by
  have below := UInt16.le_iff_toNat_le.mp within.below
  obtain ⟨used, taken, value⟩ := Word.exists_sub? (a := c.sentinel) (b := c.top) below
  exact ⟨used, taken, by omega⟩

end Cursors

theorem bytes_eq (memory : Memory size) (c : Cursors) :
    bytes ⟨memory, some c⟩ = memory.held c.liveSlots := rfl

theorem bytes_of_met (met : c.top = c.sentinel) : bytes ⟨memory, some c⟩ = [] := by
  rw [bytes_eq, Cursors.liveSlots, met, Nat.sub_self]
  rfl

theorem length_bytes (within : c.Within size) :
    (bytes ⟨memory, some c⟩).length = c.sentinel.toNat - c.top.toNat := by
  have inside := UInt16.le_iff_toNat_le.mp within.inside
  rw [bytes_eq, Memory.length_held, Cursors.length_liveSlots]
  intro slot member
  exact Nat.lt_of_lt_of_le ((Cursors.mem_liveSlots within).mp member).2 inside

-- The write of a push falls on no byte of the stack and puts its own before
-- all of them.
theorem bytes_push (within : c.Within size) (moved : top.toNat + 1 = c.top.toNat)
    (inside : top.toNat < size.toNat) (value : UInt8) :
    bytes ⟨memory.set top.toNat value inside, some { c with top }⟩ =
      value :: bytes ⟨memory, some c⟩ := by
  have apart : top.toNat ∉ c.liveSlots := by
    intro member
    have lower := ((Cursors.mem_liveSlots within).mp member).1
    omega
  rw [bytes_eq, bytes_eq, Cursors.liveSlots_push within moved, Memory.held_cons inside,
    Memory.held_set inside value apart, Vector.getElem_set_self]

theorem bytes_pop (held : c.top < c.sentinel) (moved : top.toNat = c.top.toNat + 1)
    (inside : c.top.toNat < size.toNat) :
    bytes ⟨memory, some c⟩ = memory[c.top.toNat] :: bytes ⟨memory, some { c with top }⟩ := by
  rw [bytes_eq, bytes_eq, Cursors.liveSlots_pop held moved, Memory.held_cons inside]

theorem bytes_of_byte (held : c.top < c.sentinel) (inside : c.top.toNat < size.toNat) :
    ∃ rest, bytes ⟨memory, some c⟩ = memory[c.top.toNat] :: rest := by
  have lower := UInt16.lt_iff_toNat_lt.mp held
  have bound := c.sentinel.toNat_lt
  obtain ⟨top, _, moved⟩ := Word.exists_add? (a := c.top) (b := 1) (by simp; omega)
  exact ⟨_, bytes_pop held moved inside⟩

theorem capacity_eq (within : c.Within size) :
    capacity ⟨memory, some c⟩ = some (c.sentinel.toNat - c.bottom.toNat) := by
  obtain ⟨slots, taken, value⟩ := Cursors.room_eq within
  simp [capacity, taken, value]

theorem length_eq (within : c.Within size) :
    length ⟨memory, some c⟩ = some (c.sentinel.toNat - c.top.toNat) := by
  obtain ⟨used, counted, value⟩ := Cursors.used_eq within
  simp [length, counted, value]

theorem top_eq_bottom_iff (within : c.Within size) :
    c.top = c.bottom ↔ c.sentinel.toNat - c.top.toNat = c.sentinel.toNat - c.bottom.toNat := by
  have above := UInt16.le_iff_toNat_le.mp within.above
  have below := UInt16.le_iff_toNat_le.mp within.below
  rw [← UInt16.toNat_inj]
  omega

theorem isFull_eq (within : c.Within size) :
    isFull ⟨memory, some c⟩ =
      (c.sentinel.toNat - c.top.toNat == c.sentinel.toNat - c.bottom.toNat) := by
  rw [Bool.eq_iff_iff, beq_iff_eq, ← top_eq_bottom_iff within]
  exact beq_iff_eq

theorem occupancy_eq (within : c.Within size) :
    Container.occupancy (⟨memory, some c⟩ : Stack size) =
      some ⟨c.sentinel.toNat - c.bottom.toNat, c.sentinel.toNat - c.top.toNat,
        c.sentinel.toNat - c.top.toNat == 0,
        c.sentinel.toNat - c.top.toNat == c.sentinel.toNat - c.bottom.toNat⟩ := by
  simp [Container.occupancy, isEmpty, capacity_eq within, length_eq within, isFull_eq within]

end BoundedBytes.Stack
