import BoundedBytes.Proofs.Bulk
import BoundedBytes.Proofs.Queue.Interleaving
import BoundedBytes.Proofs.Queue.Refinement

namespace BoundedBytes.Queue

def discipline : Bulk.Discipline := ⟨fun value bytes => bytes ++ [value], .full, .empty⟩

-- Where a cursor is after so many steps round its ring.
def Cursors.around (c : Cursors) (cursor : Word) (count : Nat) : Nat :=
  c.start.toNat + (cursor.toNat - c.start.toNat + count) % (c.stop.toNat - c.start.toNat)

-- Cursors of one ring, those that move so many slots further round it.
structure Cursors.Turned (count : Nat) (c d : Cursors) : Prop where
  start : d.start = c.start
  stop : d.stop = c.stop
  head : d.head.toNat = c.around c.head count
  lastRead : d.lastRead.toNat = c.around c.lastRead count
  tail : d.tail.toNat = c.around c.tail count

variable {size start stop : Word} {q next : Queue size} {n : Counting} {c d : Cursors}
  {most count : Nat} {bytes : List UInt8} {value byte : UInt8}

theorem placeAll_eq (values bytes : List UInt8) : discipline.placeAll values bytes = bytes ++ values := by
  induction values generalizing bytes with
  | nil => exact (List.append_nil bytes).symm
  | cons value values ih =>
    rw [Bulk.Discipline.placeAll, List.foldl_cons]
    exact (ih (bytes ++ [value])).trans (List.append_assoc ..)

-- A queue that stands for a bounded list, told without the slot that it leaves
-- free.
structure Holds (most : Nat) (bytes : List UInt8) (q : Queue size) : Prop where
  valid : q.Valid
  fifo : q.fifo = some ⟨most + 1, bytes⟩

theorem Holds.move (holds : Holds most bytes q) (call : Call) :
    ∃ reply next, Move q call reply next ∧
      Fifo.step size.toNat (some ⟨most + 1, bytes⟩) call = (reply, next.fifo) := by
  obtain ⟨reply, next, move⟩ := exists_move holds.valid call
  exact ⟨reply, next, move, holds.fifo ▸ move.fifo holds.valid⟩

theorem Holds.insert (value : UInt8) (holds : Holds most bytes q) (room : bytes.length < most) :
    ∃ next, q.enqueue value = some (.ok (), next) ∧ Holds most (bytes ++ [value]) next := by
  obtain ⟨reply, next, move, listed⟩ := holds.move (.enqueue value)
  have accepted : Fifo.step size.toNat (some ⟨most + 1, bytes⟩) (.enqueue value) =
      (.ok none, some ⟨most + 1, bytes ++ [value]⟩) := if_pos room
  obtain ⟨rfl, fifo⟩ := Prod.mk.inj (listed.symm.trans accepted)
  exact ⟨next, Answer.of_silent (step_of_move holds.valid move), move.valid holds.valid, fifo⟩

theorem Holds.full (value : UInt8) (holds : Holds most bytes q) (room : most ≤ bytes.length) :
    q.enqueue value = some (.error .full, q) := by
  obtain ⟨reply, next, move, listed⟩ := holds.move (.enqueue value)
  have refused : Fifo.step size.toNat (some ⟨most + 1, bytes⟩) (.enqueue value) =
      (.error .full, some ⟨most + 1, bytes⟩) := if_neg (Nat.not_lt_of_le room)
  obtain ⟨rfl, _⟩ := Prod.mk.inj (listed.symm.trans refused)
  cases move.unchanged rfl
  exact Answer.of_silent (step_of_move holds.valid move)

theorem Holds.remove (holds : Holds most (byte :: bytes) q) :
    ∃ next, q.dequeue = some (.ok byte, next) ∧ Holds most bytes next := by
  obtain ⟨reply, next, move, listed⟩ := holds.move .dequeue
  obtain ⟨rfl, fifo⟩ := Prod.mk.inj listed
  exact ⟨next, Answer.of_handing (step_of_move holds.valid move), move.valid holds.valid, fifo.symm⟩

theorem Holds.empty (holds : Holds most [] q) : q.dequeue = some (.error .empty, q) := by
  obtain ⟨reply, next, move, listed⟩ := holds.move .dequeue
  obtain ⟨rfl, _⟩ := Prod.mk.inj listed
  cases move.unchanged rfl
  exact Answer.of_withholding (step_of_move holds.valid move)

theorem keeps_discipline (size : Word) : discipline.Keeps (@Holds size) where
  length _ _ := List.length_append
  insert := Holds.insert
  full := Holds.full
  remove := Holds.remove
  empty := Holds.empty

theorem Valid.holds (valid : q.Valid) (present : q.cursors = some c) :
    Holds (c.stop.toNat - c.start.toNat - 1) q.bytes q := by
  have room := UInt16.lt_iff_toNat_lt.mp (valid c present).room
  refine ⟨valid, ?_⟩
  rw [fifo, present, Option.map_some, Nat.sub_add_cancel (by omega)]

theorem Valid.sizes (valid : q.Valid) (present : q.cursors = some c) :
    q.capacity = some (c.stop.toNat - c.start.toNat - 1) ∧ q.length = some q.bytes.length ∧
      q.bytes.length ≤ c.stop.toNat - c.start.toNat - 1 ∧
      q.isFull = (q.bytes.length == c.stop.toNat - c.start.toNat - 1) := by
  rcases q with ⟨memory, cursors⟩
  cases present
  obtain ⟨n, turn⟩ := valid.within.lockstep
  have free := turn.free
  rw [capacity_eq turn, length_eq turn, isFull_eq turn, length_bytes turn valid.within.inside,
    turn.start, turn.stop, Nat.add_sub_cancel_left]
  exact ⟨rfl, rfl, by omega, rfl⟩

theorem Holds.turnover (holds : Holds most bytes q) (values : List UInt8) :
    ∃ filled drained, Bulk.Fills .full (most - bytes.length) q values filled ∧
      Bulk.Drains .empty filled (bytes ++ values.take (most - bytes.length)) drained ∧
      ∀ others, ∃ again, Bulk.Fills .full most drained others again := by
  obtain ⟨filled, drained, fills, drains, again⟩ := (keeps_discipline size).turnover holds values
  rw [placeAll_eq] at drains
  exact ⟨filled, drained, fills, drains, again⟩

-- One byte goes in and one comes out, also where the first fills the ring.
theorem Counted.round (counted : Counted start stop n q) (inside : stop ≤ size)
    (room : n.inserted - n.removed ≠ n.slots - 1) (value : UInt8) :
    ∃ held byte next, q.enqueue value = some (.ok (), held) ∧
      held.dequeue = some (.ok byte, next) ∧
      Counted start stop { n with inserted := n.inserted + 1, removed := n.removed + 1 } next ∧
      q.bytes ++ [value] = byte :: next.bytes := by
  have valid := counted.valid inside
  have order := (counted.shows inside).order
  obtain ⟨held, filling⟩ := counted.exists_enqueued inside room value
  obtain ⟨_, filled, _, more⟩ := filling.enqueued counted rfl
  obtain ⟨byte, next, draining⟩ :=
    filled.exists_dequeued inside (show n.inserted + 1 ≠ n.removed by omega)
  obtain ⟨_, same, drained, _, rest⟩ := draining.dequeued filled rfl
  cases same
  have accepted := Answer.of_silent (step_of_move valid filling)
  have handed := Answer.of_handing (step_of_move (filling.valid valid) draining)
  exact ⟨held, byte, next, accepted, handed, drained, more.symm.trans rest⟩

-- The invariant of the loop: both counts run on side by side, and what was
-- there and was given is what was taken and what is there.
structure Cycled (start stop : Word) (n : Counting) (q : Queue size) (given taken : List UInt8)
    (last : Queue size) : Prop where
  counted : Counted start stop
    { n with inserted := n.inserted + given.length, removed := n.removed + given.length } last
  bytes : q.bytes ++ given = taken ++ last.bytes
  length : taken.length = given.length

theorem Cycled.round {given taken : List UInt8} (cycled : Cycled start stop n q given taken next)
    (inside : stop ≤ size) (room : n.inserted - n.removed ≠ n.slots - 1) (value : UInt8) :
    ∃ held byte last, next.enqueue value = some (.ok (), held) ∧
      held.dequeue = some (.ok byte, last) ∧
      Cycled start stop n q (given ++ [value]) (taken ++ [byte]) last := by
  obtain ⟨held, byte, last, accepted, handed, counted, moved⟩ := cycled.counted.round inside
    (show n.inserted + given.length - (n.removed + given.length) ≠ n.slots - 1 by omega) value
  refine ⟨held, byte, last, accepted, handed, ?_, ?_, ?_⟩
  · rw [List.length_append]
    exact counted
  · rw [← List.append_assoc, cycled.bytes, List.append_assoc, moved, List.append_assoc]
    rfl
  · rw [List.length_append, List.length_append, cycled.length]
    rfl

theorem Counted.rounds (counted : Counted start stop n q) (inside : stop ≤ size)
    (room : n.inserted - n.removed ≠ n.slots - 1) (values : List UInt8) :
    ∃ bytes last, Bulk.Rounds q values bytes last ∧ Cycled start stop n q values bytes last :=
  Bulk.rounds_of_round (Cycled start stop n q) (fun value cycled => cycled.round inside room value)
    ⟨counted, List.append_nil _, rfl⟩ values

theorem Counting.Lockstep.turned (turn : n.Lockstep c)
    (matched : Counting.Matches { n with inserted := n.inserted + count, removed := n.removed + count } d) :
    c.Turned count d := by
  have nonempty := turn.nonempty
  have slots : c.stop.toNat - c.start.toNat = n.slots := by
    rw [turn.start, turn.stop, Nat.add_sub_cancel_left]
  have moved : ∀ {cursor cursor' : Word} {number : Nat}, cursor.toNat = n.place number →
      cursor'.toNat = n.place (number + count) → cursor'.toNat = c.around cursor count := by
    intro cursor cursor' number here there
    rw [there, Cursors.around, here, slots, turn.start, Counting.place, Counting.place,
      Nat.add_sub_cancel_left, Nat.mod_add_mod]
  refine ⟨?_, ?_, moved turn.head_eq matched.head, moved turn.lastRead_eq ?_,
    moved turn.tail_eq matched.tail⟩
  · exact UInt16.toNat_inj.mp (matched.start.trans turn.start.symm)
  · exact UInt16.toNat_inj.mp (matched.stop.trans turn.stop.symm)
  · rw [show n.removed + n.slots - 1 + count = n.removed + count + n.slots - 1 by omega]
    exact matched.lastRead

-- Round by round the waiting bytes are a window of the same length on all that
-- was ever there, and the cursors go round the ring.
theorem Valid.rounds (valid : q.Valid) (present : q.cursors = some c) (room : q.isFull = false)
    (values : List UInt8) :
    ∃ last d, Bulk.Rounds q values ((q.bytes ++ values).take values.length) last ∧
      last.bytes = (q.bytes ++ values).drop values.length ∧ last.length = some q.bytes.length ∧
      last.cursors = some d ∧ c.Turned values.length d := by
  have within := valid c present
  obtain ⟨n, turn⟩ := within.lockstep
  have counted : Counted c.start c.stop n q := ⟨c, present, rfl, rfl, turn⟩
  rw [counted.isFull_eq, beq_eq_false_iff_ne] at room
  obtain ⟨bytes, last, rounds, cycled⟩ := counted.rounds within.inside room values
  obtain ⟨d, placed, _, _, further⟩ := cycled.counted
  have taken : (q.bytes ++ values).take values.length = bytes := by
    rw [cycled.bytes]
    exact List.take_left' cycled.length
  have left : (q.bytes ++ values).drop values.length = last.bytes := by
    rw [cycled.bytes]
    exact List.drop_left' cycled.length
  refine ⟨last, d, taken ▸ rounds, left.symm, ?_, placed, turn.turned further.toMatches⟩
  rw [((cycled.counted.valid within.inside).sizes placed).2.1, ← left, List.length_drop,
    List.length_append, Nat.add_sub_cancel]

end BoundedBytes.Queue
