import BoundedBytes.Proofs.Queue.Ring

namespace BoundedBytes.Queue

variable {size : Word} {memory : Memory size} {n : Counting} {c : Cursors}

theorem bytes_eq (memory : Memory size) (c : Cursors) :
    bytes ⟨memory, some c⟩ = memory.held c.unreadSlots := rfl

theorem unread_inside (turn : n.Lockstep c) (inside : c.stop ≤ size) :
    ∀ slot ∈ c.unreadSlots, slot < size.toNat := by
  intro slot member
  obtain ⟨number, _, _, same⟩ := turn.mem_unreadSlots.mp member
  have high := Counting.place_lt number turn.nonempty
  have stop := turn.stop
  have fits := UInt16.le_iff_toNat_le.mp inside
  omega

theorem length_bytes (turn : n.Lockstep c) (inside : c.stop ≤ size) :
    (bytes ⟨memory, some c⟩).length = n.inserted - n.removed := by
  rw [bytes_eq, Memory.length_held (unread_inside turn inside), turn.length_unreadSlots]

theorem bytes_of_met (turn : n.Lockstep c) (met : c.head = c.tail) :
    bytes ⟨memory, some c⟩ = [] := by
  rw [bytes_eq, turn.unreadSlots_eq, turn.head_eq_tail_iff.mp met, Nat.sub_self]
  rfl

-- The write of an insertion falls on no unread byte and puts its own behind
-- all of them.
theorem bytes_insert (turn : n.Lockstep c) (room : c.lastRead ≠ c.tail) {tail : Word}
    (moved : tail.toNat = c.following c.tail.toNat) (inside : c.tail.toNat < size.toNat)
    (value : UInt8) :
    bytes ⟨memory.set c.tail.toNat value inside, some { c with tail }⟩ =
      bytes ⟨memory, some c⟩ ++ [value] := by
  rw [bytes_eq, bytes_eq, turn.unreadSlots_insert room moved, Memory.held_append,
    Memory.held_set inside value turn.tail_notMem, Memory.held_cons inside, Memory.held_nil,
    Vector.getElem_set_self]

theorem bytes_remove (turn : n.Lockstep c) (held : c.head ≠ c.tail) {head : Word}
    (moved : head.toNat = c.following c.head.toNat) (inside : c.head.toNat < size.toNat) :
    bytes ⟨memory, some c⟩ =
      memory[c.head.toNat] :: bytes ⟨memory, some { c with lastRead := c.head, head }⟩ := by
  rw [bytes_eq, bytes_eq, turn.unreadSlots_remove held moved, Memory.held_cons inside]

theorem capacity_eq (turn : n.Lockstep c) :
    capacity ⟨memory, some c⟩ = some (n.slots - 1) := by
  have nonempty := turn.nonempty
  obtain ⟨slots, sized, ring⟩ := turn.ringSize_eq
  obtain ⟨most, taken, value⟩ := Word.exists_sub? (a := slots) (b := 1) (by simp; omega)
  have one : (1 : Word).toNat = 1 := rfl
  have least : most.toNat = n.slots - 1 := by omega
  simp [capacity, sized, taken, least]

theorem length_eq (turn : n.Lockstep c) :
    length ⟨memory, some c⟩ = some (n.inserted - n.removed) := by
  obtain ⟨used, counted, value⟩ := turn.used_eq
  simp [length, counted, value]

theorem isFull_eq (turn : n.Lockstep c) :
    isFull ⟨memory, some c⟩ = (n.inserted - n.removed == n.slots - 1) := by
  rw [Bool.eq_iff_iff, beq_iff_eq, ← turn.lastRead_eq_tail_iff]
  exact beq_iff_eq

theorem occupancy_eq (turn : n.Lockstep c) :
    Container.occupancy (⟨memory, some c⟩ : Queue size) =
      some ⟨n.slots - 1, n.inserted - n.removed, n.inserted - n.removed == 0,
        n.inserted - n.removed == n.slots - 1⟩ := by
  simp [Container.occupancy, isEmpty, capacity_eq turn, length_eq turn, isFull_eq turn]

end BoundedBytes.Queue
