import BoundedBytes.Proofs.Layout
import BoundedBytes.Proofs.Queue.Coded
import BoundedBytes.Proofs.Stack.Coded

namespace BoundedBytes

namespace Stack

def layout (size : Word) : Layout (Stack size) where
  byte s i := s.contents[i]?
  region s := s.cursors.map fun c => (c.bottom, c.sentinel)
  live s := s.cursors.elim [] Cursors.liveSlots

def Call.demand (size : Word) : Call → Demand
  | .init sentinel bottom => .bound bottom sentinel
  | .initWhole => .bound 0 size
  | .push value => .insert value
  | .pop => .remove
  | .peek => .look
  | .reset => .clear

variable {size : Word} {s next : Stack size} {call : Call} {reply : Reply} {memory : Memory size}
  {c : Cursors} {top : Word}

-- The slot of a push is just below the live ones and not below the bottom.
theorem effect_pushed (within : c.Within size) (room : c.bottom < c.top)
    (moved : top.toNat + 1 = c.top.toNat) (inside : top.toNat < size.toNat) (value : UInt8) :
    (layout size).Effect ⟨memory, some c⟩
      ⟨memory.set top.toNat value inside, some { c with top }⟩ (.insert value) false := by
  have low := UInt16.lt_iff_toNat_lt.mp room
  have high := UInt16.le_iff_toNat_le.mp within.below
  have free : top.toNat ∉ c.liveSlots := by
    intro member
    have above := ((Cursors.mem_liveSlots within).mp member).1
    omega
  refine .inserting rfl (show c.bottom.toNat ≤ top.toNat by omega)
    (show top.toNat < c.sentinel.toNat by omega) free
    (Memory.getElem?_write (Memory.write_eq memory inside value)) rfl ?_
  intro slot member
  show slot ∈ Cursors.liveSlots { c with top }
  rw [Cursors.liveSlots_push within moved]
  exact List.mem_cons_of_mem _ member

theorem Move.effect (valid : s.Valid) (move : Move s call reply next) :
    (layout size).Effect s next (call.demand size) reply.refused := by
  induction move with
  | bounded => exact .bounding (fun _ => rfl) rfl
  | misplaced | unset | full | empty | blind => exact .refusal ..
  | whole _ ih => exact ih valid
  | pushed _ _ room moved inside => exact effect_pushed valid.within room moved inside _
  | popped _ held moved => exact .removing (fun _ => rfl) rfl (Cursors.liveSlots_pop held moved)
  | seen => exact .looking
  | idle | cleared => exact .clearing (fun _ => rfl) rfl

theorem sound (size : Word) :
    (layout size).Sound (AnyCall.demand (Call.demand size)) AnyReply.refused anyStep Valid :=
  Layout.sound_of_standsFor (standsFor size) fun valid made =>
    Move.effect valid ((step_exact valid).mp made)

end Stack

namespace Queue

def layout (size : Word) : Layout (Queue size) where
  byte q i := q.contents[i]?
  region q := q.cursors.map fun c => (c.start, c.stop)
  live q := q.cursors.elim [] Cursors.unreadSlots

def Call.demand (size : Word) : Call → Demand
  | .init start stop => .bound start stop
  | .initWhole => .bound 0 size
  | .enqueue value => .insert value
  | .dequeue => .remove
  | .reset => .clear

variable {size : Word} {q next : Queue size} {call : Call} {reply : Reply} {memory : Memory size}
  {c : Cursors}

-- The slot of an insertion is the tail, which is in the ring and off the unread
-- bytes however those lie round the end of it.
theorem effect_inserted (within : c.Within size) (room : c.lastRead ≠ c.tail) {tail : Word}
    (moved : tail.toNat = c.following c.tail.toNat) (inside : c.tail.toNat < size.toNat)
    (value : UInt8) :
    (layout size).Effect ⟨memory, some c⟩
      ⟨memory.set c.tail.toNat value inside, some { c with tail }⟩ (.insert value) false := by
  obtain ⟨n, turn⟩ := within.lockstep
  have low := UInt16.le_iff_toNat_le.mp within.tail.1
  have high := UInt16.lt_iff_toNat_lt.mp within.tail.2
  refine .inserting rfl low high turn.tail_notMem
    (Memory.getElem?_write (Memory.write_eq memory inside value)) rfl ?_
  intro slot member
  show slot ∈ Cursors.unreadSlots { c with tail }
  rw [turn.unreadSlots_insert room moved]
  exact List.mem_append_left _ member

theorem Move.effect (valid : q.Valid) (move : Move q call reply next) :
    (layout size).Effect q next (call.demand size) reply.refused := by
  induction move with
  | bounded => exact .bounding (fun _ => rfl) rfl
  | misplaced | unset | full | empty => exact .refusal ..
  | whole _ ih => exact ih valid
  | inserted _ _ room moved inside => exact effect_inserted valid.within room moved inside _
  | removed _ held moved =>
    obtain ⟨n, turn⟩ := valid.within.lockstep
    exact .removing (fun _ => rfl) rfl (turn.unreadSlots_remove held moved)
  | idle | cleared => exact .clearing (fun _ => rfl) rfl

theorem sound (size : Word) :
    (layout size).Sound (AnyCall.demand (Call.demand size)) AnyReply.refused anyStep Valid :=
  Layout.sound_of_standsFor (standsFor size) fun valid made =>
    Move.effect valid ((step_exact valid).mp made)

end Queue

-- Wherever calls of both kinds have led a new container, it writes only free
-- slots between its bounds. What lies beyond them stays as it is, and so does a
-- live byte until it is handed over or discarded.
theorem run_confined (size : Word) :
    (∀ calls, ∃ replies last, run Stack.anyStep (Stack.new size) calls = some (replies, last) ∧
      (Stack.layout size).Confined (AnyCall.demand (Stack.Call.demand size)) AnyReply.refused
        Stack.anyStep last) ∧
    ∀ calls, ∃ replies last, run Queue.anyStep (Queue.new size) calls = some (replies, last) ∧
      (Queue.layout size).Confined (AnyCall.demand (Queue.Call.demand size)) AnyReply.refused
        Queue.anyStep last := by
  constructor
  · intro calls
    obtain ⟨replies, last, ran, valid⟩ := (Stack.standsFor size).run_valid (Stack.valid_new size) calls
    exact ⟨replies, last, ran, (Stack.sound size).confined valid⟩
  · intro calls
    obtain ⟨replies, last, ran, valid⟩ := (Queue.standsFor size).run_valid (Queue.valid_new size) calls
    exact ⟨replies, last, ran, (Queue.sound size).confined valid⟩

end BoundedBytes
