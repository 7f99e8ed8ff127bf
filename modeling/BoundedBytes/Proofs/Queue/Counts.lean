import BoundedBytes.Proofs.Queue.Contents
import BoundedBytes.Proofs.Queue.Move
import BoundedBytes.Proofs.Run

namespace BoundedBytes.Queue

variable {size start stop : Word} {q next : Queue size} {n : Counting} {call : Call} {reply : Reply}

def Counted (start stop : Word) (n : Counting) (q : Queue size) : Prop :=
  ∃ c, q.cursors = some c ∧ c.start = start ∧ c.stop = stop ∧ n.Lockstep c

theorem Counted.valid (counted : Counted start stop n q) (inside : stop ≤ size) : q.Valid := by
  rcases counted with ⟨c, present, _, rfl, turn⟩
  intro other equal
  cases present.symm.trans equal
  exact turn.within inside

theorem Move.counted (kept : call.keepsBounds = true)
    (counted : Counted start stop n q) (move : Move q call reply next) :
    Counted start stop (n.tally call reply) next := by
  rcases counted with ⟨c, present, rfl, rfl, turn⟩
  cases move with
  | bounded | misplaced | whole => cases kept
  | unset | idle => cases present
  | full | empty =>
    cases present
    exact ⟨c, rfl, rfl, rfl, turn⟩
  | inserted memory value room moved _ =>
    cases present
    exact ⟨_, rfl, rfl, rfl, turn.insert room moved⟩
  | removed memory held moved _ =>
    cases present
    exact ⟨_, rfl, rfl, rfl, turn.remove held moved⟩
  | cleared behind =>
    cases present
    exact ⟨_, rfl, rfl, rfl, turn.clear behind⟩

theorem run_counted (inside : stop ≤ size) (counted : Counted start stop n q) {calls : List Call}
    (kept : ∀ call ∈ calls, call.keepsBounds = true) :
    ∃ replies last, run step q calls = some (replies, last) ∧
      Counted start stop (account Counting.tally n calls replies) last := by
  refine run_accounted Counting.tally (Counted start stop) ?_ counted
  intro n q call member counted
  have valid := counted.valid inside
  obtain ⟨reply, next, move⟩ := exists_move valid call
  exact ⟨reply, next, step_of_move valid move, move.counted (kept call member) counted⟩

theorem counted_of_init (accepted : q.init start stop = some (.ok (), next)) :
    stop ≤ size ∧ Counted start stop (.fresh start stop) next := by
  obtain ⟨order, inside, last, behind, rfl⟩ := init_accepted accepted
  exact ⟨inside, _, rfl, rfl, rfl, Counting.fresh_lockstep order behind⟩

theorem enqueue_full_iff {memory : Memory size} {c : Cursors} (turn : n.Lockstep c)
    (inside : c.stop ≤ size) (value : UInt8) :
    (∃ after, enqueue ⟨memory, some c⟩ value = some (.error .full, after)) ↔
      n.inserted - n.removed = n.slots - 1 := by
  rw [← turn.lastRead_eq_tail_iff]
  constructor
  · rintro ⟨after, refused⟩
    by_contra room
    obtain ⟨_, _, _, made⟩ := @enqueue_of_room size memory _ (turn.within inside) room value
    cases made.symm.trans refused
  · intro met
    exact ⟨_, if_pos met⟩

theorem enqueue_accepted_iff {memory : Memory size} {c : Cursors} (turn : n.Lockstep c)
    (inside : c.stop ≤ size) (value : UInt8) :
    (∃ after, enqueue ⟨memory, some c⟩ value = some (.ok (), after)) ↔
      n.inserted - n.removed < n.slots - 1 := by
  have free := turn.free
  constructor
  · rintro ⟨after, accepted⟩
    by_contra crowded
    obtain ⟨_, refused⟩ := (enqueue_full_iff turn inside value).mpr (by omega)
    cases refused.symm.trans accepted
  · intro room
    have apart : c.lastRead ≠ c.tail := mt turn.lastRead_eq_tail_iff.mp (Nat.ne_of_lt room)
    obtain ⟨_, _, _, made⟩ := @enqueue_of_room size memory _ (turn.within inside) apart value
    exact ⟨_, made⟩

theorem dequeue_empty_iff {memory : Memory size} {c : Cursors} (turn : n.Lockstep c)
    (inside : c.stop ≤ size) :
    (∃ after, dequeue ⟨memory, some c⟩ = some (.error .empty, after)) ↔
      n.inserted - n.removed = 0 := by
  have order := turn.order
  rw [Nat.sub_eq_zero_iff_le, ← (show c.head = c.tail ↔ n.inserted ≤ n.removed by
    rw [turn.head_eq_tail_iff]; omega)]
  constructor
  · rintro ⟨after, refused⟩
    by_contra held
    obtain ⟨_, _, _, made⟩ := @dequeue_of_byte size memory _ (turn.within inside) held
    cases made.symm.trans refused
  · intro met
    exact ⟨_, if_pos met⟩

theorem dequeue_accepted_iff {memory : Memory size} {c : Cursors} (turn : n.Lockstep c)
    (inside : c.stop ≤ size) :
    (∃ value after, dequeue ⟨memory, some c⟩ = some (.ok value, after)) ↔
      0 < n.inserted - n.removed := by
  constructor
  · rintro ⟨value, after, accepted⟩
    by_contra idle
    obtain ⟨_, refused⟩ := (dequeue_empty_iff turn inside).mpr (Nat.eq_zero_of_not_pos idle)
    cases refused.symm.trans accepted
  · intro waiting
    have apart : c.head ≠ c.tail := mt turn.head_eq_tail_iff.mp (by omega)
    obtain ⟨_, _, _, made⟩ := @dequeue_of_byte size memory _ (turn.within inside) apart
    exact ⟨_, _, made⟩

-- What a queue shows of its counts: where each cursor stands, how many bytes
-- wait, and which of the next calls it accepts or refuses.
structure Shows (start stop : Word) (n : Counting) (q : Queue size) : Prop where
  cursors : ∃ c, q.cursors = some c ∧ c.start = start ∧ c.stop = stop ∧ n.Matches c
  order : n.removed ≤ n.inserted
  free : n.inserted - n.removed ≤ n.slots - 1
  length : q.length = some (n.inserted - n.removed)
  room : ∀ value, (∃ after, q.enqueue value = some (.ok (), after)) ↔
    n.inserted - n.removed < n.slots - 1
  full : ∀ value, (∃ after, q.enqueue value = some (.error .full, after)) ↔
    n.inserted - n.removed = n.slots - 1
  waiting : (∃ value after, q.dequeue = some (.ok value, after)) ↔ 0 < n.inserted - n.removed
  empty : (∃ after, q.dequeue = some (.error .empty, after)) ↔ n.inserted - n.removed = 0

theorem Counted.shows (counted : Counted start stop n q) (inside : stop ≤ size) :
    Shows start stop n q := by
  rcases counted with ⟨c, present, rfl, rfl, turn⟩
  rcases q with ⟨memory, cursors⟩
  cases present
  have free := turn.free
  exact {
    cursors := ⟨c, rfl, rfl, rfl, turn.toMatches⟩
    order := turn.order
    free := by omega
    length := length_eq turn
    room := enqueue_accepted_iff turn inside
    full := enqueue_full_iff turn inside
    waiting := dequeue_accepted_iff turn inside
    empty := dequeue_empty_iff turn inside }

-- From any accepted `init` on, the cursors follow two unbounded counts through
-- every insertion, removal and reset, and the counts decide what is accepted.
theorem run_in_step {ready : Queue size} (accepted : q.init start stop = some (.ok (), ready))
    {calls : List Call} (kept : ∀ call ∈ calls, call.keepsBounds = true) :
    ∃ replies last, run step ready calls = some (replies, last) ∧
      Shows start stop (account Counting.tally (.fresh start stop) calls replies) last := by
  obtain ⟨inside, counted⟩ := counted_of_init accepted
  obtain ⟨replies, last, ran, ended⟩ := run_counted inside counted kept
  exact ⟨replies, last, ran, ended.shows inside⟩

-- A ring of two slots off the start of its array, which one byte fills. The tail
-- goes round it.
theorem run_in_step_past_wrap :
    ∃ ready : Queue 3, (new 3).init 1 3 = some (.ok (), ready) ∧
      run step ready [.enqueue 7, .enqueue 8, .dequeue, .enqueue 9] =
        some ([.ok none, .error .full, .ok (some 7), .ok none],
          ⟨#v[0, 7, 9], some ⟨1, 3, 2, 1, 1⟩⟩) ∧
      Shows 1 3 ⟨1, 2, 2, 1⟩ (⟨#v[0, 7, 9], some ⟨1, 3, 2, 1, 1⟩⟩ : Queue 3) := by
  let ready : Queue 3 := ⟨#v[0, 0, 0], some ⟨1, 3, 1, 2, 1⟩⟩
  have accepted : (new 3).init 1 3 = some (.ok (), ready) := rfl
  have known : run step ready [.enqueue 7, .enqueue 8, .dequeue, .enqueue 9] =
      some ([.ok none, .error .full, .ok (some 7), .ok none],
        ⟨#v[0, 7, 9], some ⟨1, 3, 2, 1, 1⟩⟩) := rfl
  have kept : ∀ call ∈ ([.enqueue 7, .enqueue 8, .dequeue, .enqueue 9] : List Call),
      call.keepsBounds = true := by decide
  obtain ⟨replies, last, ran, shows⟩ := run_in_step accepted kept
  cases known.symm.trans ran
  exact ⟨ready, accepted, known, shows⟩

end BoundedBytes.Queue
