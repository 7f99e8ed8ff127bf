import BoundedBytes.Proofs.Memory
import BoundedBytes.Queue.Basic

namespace BoundedBytes.Queue

-- A ring that keeps two unbounded counts in place of moving cursors: how many
-- bytes went in and came out since it was last empty by decree.
structure Counting where
  start : Nat
  slots : Nat
  inserted : Nat
  removed : Nat
deriving DecidableEq

namespace Counting

-- Only accepted calls count. A reset starts both counts anew.
def tally (n : Counting) : Call → Reply → Counting
  | .enqueue _, .ok _ => { n with inserted := n.inserted + 1 }
  | .dequeue, .ok _ => { n with removed := n.removed + 1 }
  | .reset, _ => { n with inserted := 0, removed := 0 }
  | _, _ => n

structure Matches (n : Counting) (c : Cursors) : Prop where
  start : c.start.toNat = n.start
  stop : c.stop.toNat = n.start + n.slots
  tail : c.tail.toNat = n.start + n.inserted % n.slots
  head : c.head.toNat = n.start + n.removed % n.slots
  lastRead : c.lastRead.toNat = n.start + (n.removed + n.slots - 1) % n.slots

variable {n : Counting} {c : Cursors} {size : Word} {earlier later count : Nat}

-- Bytes are numbered from zero in the order in which they go in. This is the
-- slot that the byte of a number goes through.
def place (n : Counting) (number : Nat) : Nat := n.start + number % n.slots

-- Cursors in step with counts that a ring can stand at: no more bytes came out
-- than went in, and one slot stays free. The counts are not bounded.
structure Lockstep (n : Counting) (c : Cursors) : Prop extends Matches n c where
  order : n.removed ≤ n.inserted
  free : n.inserted < n.removed + n.slots

theorem place_lt (number : Nat) (nonempty : 0 < n.slots) : n.place number < n.start + n.slots :=
  Nat.add_lt_add_left (Nat.mod_lt number nonempty) n.start

theorem le_place (n : Counting) (number : Nat) : n.start ≤ n.place number := Nat.le_add_right ..

theorem place_ne (ahead : earlier < later) (near : later < earlier + n.slots) :
    n.place earlier ≠ n.place later := by
  intro same
  have remainders : later % n.slots = earlier % n.slots := by
    unfold place at same
    omega
  have multiple := Nat.sub_mod_eq_zero_of_mod_eq remainders
  rw [Nat.mod_eq_of_lt (by omega)] at multiple
  omega

theorem place_add_slots (n : Counting) (number : Nat) : n.place (number + n.slots) = n.place number := by
  rw [place, Nat.add_mod_right, place]

theorem Lockstep.nonempty (turn : n.Lockstep c) : 0 < n.slots := by
  have order := turn.order
  have free := turn.free
  omega

theorem Lockstep.head_eq (turn : n.Lockstep c) : c.head.toNat = n.place n.removed := turn.head

theorem Lockstep.tail_eq (turn : n.Lockstep c) : c.tail.toNat = n.place n.inserted := turn.tail

theorem Lockstep.lastRead_eq (turn : n.Lockstep c) :
    c.lastRead.toNat = n.place (n.removed + n.slots - 1) := turn.lastRead

theorem Lockstep.following_place (turn : n.Lockstep c) (number : Nat) :
    c.following (n.place number) = n.place (number + 1) := by
  have below := Nat.mod_lt number turn.nonempty
  have split := Nat.div_add_mod number n.slots
  unfold Cursors.following place
  rw [turn.start, turn.stop]
  by_cases final : number % n.slots + 1 = n.slots
  · have wrapped : (number + 1) % n.slots = 0 := by
      rw [← split, Nat.add_assoc, final, ← Nat.mul_succ, Nat.mul_mod_right]
    rw [if_pos (by omega), wrapped, Nat.add_zero]
  · have inner : (number + 1) % n.slots = number % n.slots + 1 := by
      rw [← split, Nat.add_assoc, Nat.mul_add_mod, Nat.mod_eq_of_lt (by omega), split]
    rw [if_neg (by omega), inner, Nat.add_assoc]

theorem Lockstep.walk_place (turn : n.Lockstep c) (number count : Nat) :
    c.walk (n.place number) count = (List.range' number count).map n.place := by
  induction count generalizing number with
  | zero => rfl
  | succ count ih =>
    rw [Cursors.walk, turn.following_place, ih, List.range'_succ, List.map_cons]

theorem Lockstep.unreadSlots_eq (turn : n.Lockstep c) :
    c.unreadSlots = (List.range' n.removed (n.inserted - n.removed)).map n.place := by
  have order := turn.order
  have free := turn.free
  have turned : c.stop.toNat - c.start.toNat =
      (n.inserted - n.removed) + (n.slots - (n.inserted - n.removed) - 1 + 1) := by
    rw [turn.start, turn.stop]
    omega
  have before : ∀ slot ∈ (List.range' n.removed (n.inserted - n.removed)).map n.place,
      (slot != n.place n.inserted) = true := by
    intro slot member
    obtain ⟨number, inside, rfl⟩ := List.mem_map.mp member
    have bounds := List.mem_range'_1.mp inside
    exact bne_iff_ne.mpr (place_ne (by omega) (by omega))
  unfold Cursors.unreadSlots
  rw [turn.head_eq, turn.tail_eq, turn.walk_place, turned, ← List.range'_append_1,
    List.map_append, List.takeWhile_append_of_pos before, Nat.add_sub_cancel' order,
    List.range'_succ, List.map_cons, List.takeWhile_cons_of_neg (by simp), List.append_nil]

theorem Lockstep.mem_unreadSlots (turn : n.Lockstep c) {slot : Nat} :
    slot ∈ c.unreadSlots ↔ ∃ number, n.removed ≤ number ∧ number < n.inserted ∧
      n.place number = slot := by
  have order := turn.order
  rw [turn.unreadSlots_eq, List.mem_map]
  constructor
  · rintro ⟨number, inside, same⟩
    have bounds := List.mem_range'_1.mp inside
    exact ⟨number, bounds.1, by omega, same⟩
  · rintro ⟨number, lower, upper, same⟩
    exact ⟨number, List.mem_range'_1.mpr ⟨lower, by omega⟩, same⟩

-- The free slot is not the slot of an unread byte: it is one turn ahead of the
-- byte read last.
theorem Lockstep.lastRead_notMem (turn : n.Lockstep c) : c.lastRead.toNat ∉ c.unreadSlots := by
  have free := turn.free
  intro member
  obtain ⟨number, lower, upper, same⟩ := turn.mem_unreadSlots.mp member
  rw [turn.lastRead_eq] at same
  exact place_ne (by omega) (by omega) same

theorem Lockstep.tail_notMem (turn : n.Lockstep c) : c.tail.toNat ∉ c.unreadSlots := by
  have free := turn.free
  intro member
  obtain ⟨number, lower, upper, same⟩ := turn.mem_unreadSlots.mp member
  rw [turn.tail_eq] at same
  exact place_ne upper (by omega) same

theorem Lockstep.head_eq_tail_iff (turn : n.Lockstep c) :
    c.head = c.tail ↔ n.inserted = n.removed := by
  have order := turn.order
  have free := turn.free
  rw [← UInt16.toNat_inj, turn.head_eq, turn.tail_eq]
  constructor
  · intro same
    by_contra apart
    exact place_ne (by omega) (by omega) same
  · intro same
    rw [same]

theorem Lockstep.lastRead_eq_tail_iff (turn : n.Lockstep c) :
    c.lastRead = c.tail ↔ n.inserted - n.removed = n.slots - 1 := by
  have order := turn.order
  have free := turn.free
  rw [← UInt16.toNat_inj, turn.lastRead_eq, turn.tail_eq]
  constructor
  · intro same
    by_contra apart
    exact place_ne (by omega) (by omega) same.symm
  · intro same
    rw [show n.inserted = n.removed + n.slots - 1 by omega]

theorem Lockstep.length_unreadSlots (turn : n.Lockstep c) :
    c.unreadSlots.length = n.inserted - n.removed := by
  rw [turn.unreadSlots_eq, List.length_map, List.length_range']

theorem place_add (number : Nat) (near : count < n.slots) :
    n.place (number + count) = n.place number + count ∨
      n.place (number + count) + n.slots = n.place number + count := by
  unfold place
  rw [Nat.add_mod_eq_ite, Nat.mod_eq_of_lt near]
  split
  · right; omega
  · left; omega

theorem Lockstep.ringSize_eq (turn : n.Lockstep c) :
    ∃ slots, c.ringSize = some slots ∧ slots.toNat = n.slots := by
  have start := turn.start
  have stop := turn.stop
  obtain ⟨slots, taken, value⟩ := Word.exists_sub? (a := c.stop) (b := c.start) (by omega)
  exact ⟨slots, taken, by omega⟩

theorem Lockstep.used_eq (turn : n.Lockstep c) :
    ∃ used, c.used = some used ∧ used.toNat = n.inserted - n.removed := by
  have head := turn.head_eq
  have tail := turn.tail_eq
  have order := turn.order
  have free := turn.free
  have near : n.inserted - n.removed < n.slots := by omega
  have apart := place_add n.removed near
  rw [Nat.add_sub_cancel' order] at apart
  have headLow := le_place n n.removed
  have headHigh := place_lt n.removed turn.nonempty
  unfold Cursors.used
  rw [Word.atLeast_eq]
  by_cases ahead : c.head.toNat ≤ c.tail.toNat
  · obtain ⟨used, taken, value⟩ := Word.exists_sub? ahead
    rw [if_pos (decide_eq_true ahead)]
    exact ⟨used, taken, by omega⟩
  · obtain ⟨slots, sized, ring⟩ := turn.ringSize_eq
    obtain ⟨gap, between, width⟩ := Word.exists_sub? (a := c.head) (b := c.tail) (by omega)
    obtain ⟨used, taken, value⟩ := Word.exists_sub? (a := slots) (b := gap) (by omega)
    refine ⟨used, ?_, by omega⟩
    rw [if_neg (by simpa using ahead), sized, between]
    exact taken

def fresh (start stop : Word) : Counting := ⟨start.toNat, stop.toNat - start.toNat, 0, 0⟩

theorem fresh_lockstep {start stop last : Word} (order : start < stop)
    (behind : last.toNat + 1 = stop.toNat) :
    (fresh start stop).Lockstep ⟨start, stop, start, last, start⟩ := by
  have room := UInt16.lt_iff_toNat_lt.mp order
  refine { start := rfl, stop := ?_, tail := ?_, head := ?_, lastRead := ?_, order := ?_, free := ?_ }
  all_goals simp only [fresh, Nat.zero_mod, Nat.zero_add, Nat.add_zero, Nat.le_refl]
  · omega
  · rw [Nat.mod_eq_of_lt (by omega)]
    omega
  · omega

theorem Lockstep.insert (turn : n.Lockstep c) (room : c.lastRead ≠ c.tail) {tail : Word}
    (moved : tail.toNat = c.following c.tail.toNat) :
    Lockstep { n with inserted := n.inserted + 1 } { c with tail } := by
  have order := turn.order
  have free := turn.free
  have short : n.inserted - n.removed ≠ n.slots - 1 := mt turn.lastRead_eq_tail_iff.mpr room
  refine { turn with tail := ?_, order := ?_, free := ?_ }
  · rw [moved, turn.tail_eq, turn.following_place]
    rfl
  · exact Nat.le_succ_of_le order
  · show n.inserted + 1 < n.removed + n.slots
    omega

-- The slot just read is one turn behind the slot in front of the new head, hence
-- the same.
theorem Lockstep.remove (turn : n.Lockstep c) (held : c.head ≠ c.tail) {head : Word}
    (moved : head.toNat = c.following c.head.toNat) :
    Lockstep { n with removed := n.removed + 1 } { c with lastRead := c.head, head } := by
  have order := turn.order
  have free := turn.free
  have waiting : n.inserted ≠ n.removed := mt turn.head_eq_tail_iff.mpr held
  refine { turn with head := ?_, lastRead := ?_, order := ?_, free := ?_ }
  · rw [moved, turn.head_eq, turn.following_place]
    rfl
  · rw [turn.head_eq, ← place_add_slots]
    show n.start + (n.removed + n.slots) % n.slots = n.start + (n.removed + 1 + n.slots - 1) % n.slots
    rw [show n.removed + 1 + n.slots - 1 = n.removed + n.slots by omega]
  · show n.removed + 1 ≤ n.inserted
    omega
  · show n.inserted < n.removed + 1 + n.slots
    omega

theorem Lockstep.clear (turn : n.Lockstep c) {last : Word} (behind : last.toNat + 1 = c.stop.toNat) :
    Lockstep { n with inserted := 0, removed := 0 }
      { c with head := c.start, tail := c.start, lastRead := last } := by
  have start := turn.start
  have stop := turn.stop
  have nonempty := turn.nonempty
  have order : c.start < c.stop := by
    rw [UInt16.lt_iff_toNat_lt]
    omega
  have same : fresh c.start c.stop = { n with inserted := 0, removed := 0 } := by
    rw [fresh, start, stop, Nat.add_sub_cancel_left]
  exact same ▸ fresh_lockstep order behind

theorem Lockstep.unreadSlots_insert (turn : n.Lockstep c) (room : c.lastRead ≠ c.tail) {tail : Word}
    (moved : tail.toNat = c.following c.tail.toNat) :
    Cursors.unreadSlots { c with tail } = c.unreadSlots ++ [c.tail.toNat] := by
  have order := turn.order
  rw [(turn.insert room moved).unreadSlots_eq, turn.unreadSlots_eq, turn.tail_eq,
    Nat.sub_add_comm order, List.range'_concat, List.map_append, Nat.one_mul,
    Nat.add_sub_cancel' order]
  rfl

theorem Lockstep.unreadSlots_remove (turn : n.Lockstep c) (held : c.head ≠ c.tail) {head : Word}
    (moved : head.toNat = c.following c.head.toNat) :
    c.unreadSlots =
      c.head.toNat :: Cursors.unreadSlots { c with lastRead := c.head, head } := by
  have order := turn.order
  have waiting : n.inserted ≠ n.removed := mt turn.head_eq_tail_iff.mpr held
  rw [(turn.remove held moved).unreadSlots_eq, turn.unreadSlots_eq, turn.head_eq,
    show n.inserted - n.removed = n.inserted - (n.removed + 1) + 1 by omega, List.range'_succ,
    List.map_cons]
  rfl

theorem Lockstep.within (turn : n.Lockstep c) (inside : c.stop ≤ size) : c.Within size := by
  have start := turn.start
  have stop := turn.stop
  have inRing : ∀ {cursor : Word} {number : Nat}, cursor.toNat = n.place number →
      c.start ≤ cursor ∧ cursor < c.stop := by
    intro cursor number found
    have low := le_place n number
    have high := place_lt number turn.nonempty
    rw [UInt16.le_iff_toNat_le, UInt16.lt_iff_toNat_lt]
    omega
  have nonempty := turn.nonempty
  refine ⟨?_, inside, inRing turn.head_eq, inRing turn.lastRead_eq, inRing turn.tail_eq, ?_⟩
  · rw [UInt16.lt_iff_toNat_lt]
    omega
  · rw [turn.lastRead_eq, turn.following_place, turn.head_eq, Nat.sub_add_cancel (by omega),
      place_add_slots]

end Counting

-- Usable cursors are in step with some counts: as many bytes came out as the
-- head has moved, and the unread ones went in besides.
theorem Cursors.Within.lockstep {size : Word} {c : Cursors} (within : c.Within size) :
    ∃ n : Counting, n.Lockstep c := by
  have room := UInt16.lt_iff_toNat_lt.mp within.room
  have headLow := UInt16.le_iff_toNat_le.mp within.head.1
  have headHigh := UInt16.lt_iff_toNat_lt.mp within.head.2
  have lastLow := UInt16.le_iff_toNat_le.mp within.lastRead.1
  have lastHigh := UInt16.lt_iff_toNat_lt.mp within.lastRead.2
  have tailLow := UInt16.le_iff_toNat_le.mp within.tail.1
  have tailHigh := UInt16.lt_iff_toNat_lt.mp within.tail.2
  have slotOf : ∀ {cursor : Word}, c.start ≤ cursor ∧ cursor < c.stop → cursor.toNat =
      c.start.toNat + (cursor.toNat - c.start.toNat) % (c.stop.toNat - c.start.toNat) := by
    intro cursor inside
    have low := UInt16.le_iff_toNat_le.mp inside.1
    have high := UInt16.lt_iff_toNat_lt.mp inside.2
    rw [Nat.mod_eq_of_lt (by omega)]
    omega
  have behind : c.lastRead.toNat = c.start.toNat +
      (c.head.toNat - c.start.toNat + (c.stop.toNat - c.start.toNat) - 1) %
        (c.stop.toNat - c.start.toNat) := by
    have step := within.behind
    unfold Cursors.following at step
    split at step
    · rw [← step, Nat.sub_self, Nat.zero_add, Nat.mod_eq_of_lt (by omega)]
      omega
    · rw [← step, show c.lastRead.toNat + 1 - c.start.toNat + (c.stop.toNat - c.start.toNat) - 1 =
        c.lastRead.toNat - c.start.toNat + (c.stop.toNat - c.start.toNat) by omega,
        Nat.add_mod_right]
      exact slotOf within.lastRead
  -- Where the tail is behind the head, it has gone round once more.
  let turns := if c.head.toNat ≤ c.tail.toNat then 0 else c.stop.toNat - c.start.toNat
  refine ⟨⟨c.start.toNat, c.stop.toNat - c.start.toNat,
    c.tail.toNat - c.start.toNat + turns, c.head.toNat - c.start.toNat⟩, ?_⟩
  refine { start := rfl, stop := ?_, tail := ?_, head := slotOf within.head, lastRead := behind,
           order := ?_, free := ?_ }
  all_goals simp only [turns]
  · omega
  · split
    · exact slotOf within.tail
    · rw [Nat.add_mod_right]
      exact slotOf within.tail
  · split <;> omega
  · split <;> omega

-- The free slot of usable cursors is stepped from to the head and is no slot of
-- an unread byte.
theorem Cursors.Within.free {size : Word} {c : Cursors} (within : c.Within size) :
    c.next c.lastRead = some c.head ∧ c.lastRead.toNat ∉ c.unreadSlots := by
  obtain ⟨n, turn⟩ := within.lockstep
  obtain ⟨head, moved, position⟩ := Cursors.next_of_mem within.lastRead.2
  rw [within.behind, UInt16.toNat_inj] at position
  exact ⟨position ▸ moved, turn.lastRead_notMem⟩

end BoundedBytes.Queue
