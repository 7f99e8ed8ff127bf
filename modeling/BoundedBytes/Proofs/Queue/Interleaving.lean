import BoundedBytes.Proofs.Queue.Coded
import BoundedBytes.Proofs.Queue.Placement

namespace BoundedBytes.Queue

-- One producer and one consumer in some order: the values are inserted in
-- their order and so many removals fall anywhere between.
inductive Interleaving : List UInt8 → Nat → List Call → Prop where
  | done : Interleaving [] 0 []
  | insert : Interleaving values removals calls →
      Interleaving (value :: values) removals (.enqueue value :: calls)
  | remove : Interleaving values removals calls →
      Interleaving values (removals + 1) (.dequeue :: calls)

def Accepted (replies : List Reply) : Prop := ∀ reply ∈ replies, reply.refused = false

-- The bytes that a run handed over, in order.
def handed (replies : List Reply) : List UInt8 :=
  replies.filterMap fun
    | .ok byte => byte
    | .error _ => none

-- The array after values have gone in, each at the tail that the counts have by
-- then.
def Counting.lay (n : Counting) (memory : Memory size) : List UInt8 → Memory size
  | [] => memory
  | value :: rest =>
    lay { n with inserted := n.inserted + 1 } (memory.setIfInBounds (n.place n.inserted) value) rest

variable {size start stop : Word} {q q' next last : Queue size} {n : Counting} {c d : Cursors}
  {values : List UInt8} {value : UInt8} {count : Nat} {calls : List Call} {reply : Reply}
  {replies replies' : List Reply}

-- Counts leave nothing open about the cursors of a ring.
theorem Counting.Matches.unique (matched : n.Matches c) (matched' : n.Matches d) : c = d := by
  apply Cursors.eq_of_fields
  intro field
  rw [← UInt16.toNat_inj, matched.field_eq, matched'.field_eq]

-- Where a byte goes does not depend on how many have come out.
theorem Counting.lay_removed (n : Counting) (removed : Nat) (memory : Memory size)
    (values : List UInt8) : lay { n with removed } memory values = n.lay memory values := by
  induction values generalizing n memory with
  | nil => rfl
  | cons value rest ih => exact ih { n with inserted := n.inserted + 1 } _

theorem Counted.cursors_eq (counted : Counted start stop n q) (counted' : Counted start stop n q') :
    q.cursors = q'.cursors := by
  obtain ⟨c, present, _, _, turn⟩ := counted
  obtain ⟨d, present', _, _, turn'⟩ := counted'
  rw [present, present', turn.toMatches.unique turn'.toMatches]

-- What an accepted insertion does, told by the counts.
theorem Move.enqueued (counted : Counted start stop n q) (move : Move q (.enqueue value) reply next)
    (accepted : reply.refused = false) :
    reply = .ok none ∧ Counted start stop { n with inserted := n.inserted + 1 } next ∧
      next.contents = q.contents.setIfInBounds (n.place n.inserted) value ∧
      next.bytes = q.bytes ++ [value] := by
  have moved := move.counted rfl counted
  obtain ⟨c, present, _, _, turn⟩ := counted
  cases move with
  | unset | full => cases accepted
  | inserted memory value room followed inside =>
    cases present
    refine ⟨rfl, moved, ?_, bytes_insert turn room followed inside value⟩
    rw [← turn.tail_eq, Memory.setIfInBounds_eq inside]

theorem Move.dequeued (counted : Counted start stop n q) (move : Move q .dequeue reply next)
    (accepted : reply.refused = false) :
    ∃ byte, reply = .ok (some byte) ∧
      Counted start stop { n with removed := n.removed + 1 } next ∧
      next.contents = q.contents ∧ q.bytes = byte :: next.bytes := by
  have moved := move.counted rfl counted
  obtain ⟨c, present, _, _, turn⟩ := counted
  cases move with
  | unset | empty => cases accepted
  | removed memory held followed inside =>
    cases present
    exact ⟨_, rfl, moved, rfl, bytes_remove turn held followed inside⟩

-- What accepted insertions and removals come to. The order in which the calls
-- were made is not in it.
structure Settled (start stop : Word) (n : Counting) (q : Queue size) (values : List UInt8)
    (count : Nat) (replies : List Reply) (last : Queue size) : Prop where
  counted : Counted start stop
    { n with inserted := n.inserted + values.length, removed := n.removed + count } last
  contents : last.contents = n.lay q.contents values
  length : (handed replies).length = count
  bytes : q.bytes ++ values = handed replies ++ last.bytes

theorem Settled.insert (move : Move q (.enqueue value) reply next)
    (accepted : reply.refused = false) (counted : Counted start stop n q)
    (settled : Settled start stop { n with inserted := n.inserted + 1 } next values count replies
      last) :
    Settled start stop n q (value :: values) count (reply :: replies) last := by
  obtain ⟨rfl, _, contents, bytes⟩ := move.enqueued counted accepted
  refine ⟨?_, ?_, settled.length, ?_⟩
  · rw [List.length_cons, Nat.add_comm values.length, ← Nat.add_assoc]
    exact settled.counted
  · rw [settled.contents, contents]
    rfl
  · have conserved := settled.bytes
    rw [bytes, List.append_assoc] at conserved
    exact conserved

theorem Settled.remove (move : Move q .dequeue reply next) (accepted : reply.refused = false)
    (counted : Counted start stop n q)
    (settled : Settled start stop { n with removed := n.removed + 1 } next values count replies
      last) :
    Settled start stop n q values (count + 1) (reply :: replies) last := by
  obtain ⟨byte, rfl, _, contents, bytes⟩ := move.dequeued counted accepted
  refine ⟨?_, ?_, ?_, ?_⟩
  · rw [Nat.add_comm count, ← Nat.add_assoc]
    exact settled.counted
  · rw [settled.contents, contents, Counting.lay_removed]
  · exact congrArg Nat.succ settled.length
  · rw [bytes]
    exact congrArg (byte :: ·) settled.bytes

-- The induction is on the interleaving; the counts move with the queue.
theorem Interleaving.settled (mixed : Interleaving values count calls) (inside : stop ≤ size)
    (counted : Counted start stop n q) (ran : run step q calls = some (replies, last))
    (accepted : Accepted replies) : Settled start stop n q values count replies last := by
  induction mixed generalizing q n replies with
  | done =>
    cases ran
    exact ⟨counted, rfl, rfl, List.append_nil _⟩
  | insert _ ih =>
    obtain ⟨reply, next, later, made, continued, rfl⟩ := run_cons_split ran
    obtain ⟨first, rest⟩ := List.forall_mem_cons.mp accepted
    have move := (step_exact (counted.valid inside)).mp made
    exact .insert move first counted (ih (move.enqueued counted first).2.1 continued rest)
  | remove _ ih =>
    obtain ⟨reply, next, later, made, continued, rfl⟩ := run_cons_split ran
    obtain ⟨first, rest⟩ := List.forall_mem_cons.mp accepted
    have move := (step_exact (counted.valid inside)).mp made
    obtain ⟨_, _, taken, _⟩ := move.dequeued counted first
    exact .remove move first counted (ih taken continued rest)

theorem Settled.agree {last' : Queue size} (settled : Settled start stop n q values count replies last)
    (settled' : Settled start stop n q values count replies' last') :
    handed replies' = handed replies ∧ last' = last := by
  have cursors := settled'.counted.cursors_eq settled.counted
  have contents := settled'.contents.trans settled.contents.symm
  have bytes := settled'.bytes.symm.trans settled.bytes
  have lengths := settled'.length.trans settled.length.symm
  refine ⟨List.append_inj_left bytes lengths, ?_⟩
  cases last
  cases last'
  cases contents
  cases cursors
  rfl

theorem Counted.exists_enqueued (counted : Counted start stop n q) (inside : stop ≤ size)
    (room : n.inserted - n.removed ≠ n.slots - 1) (value : UInt8) :
    ∃ next, Move q (.enqueue value) (.ok none) next := by
  obtain ⟨reply, next, move⟩ := exists_move (counted.valid inside) (.enqueue value)
  obtain ⟨c, present, _, _, turn⟩ := counted
  cases move with
  | unset => cases present
  | full met =>
    cases present
    exact absurd (turn.lastRead_eq_tail_iff.mp met) room
  | inserted memory _ room followed inside => exact ⟨_, .inserted memory _ room followed inside⟩

theorem Counted.exists_dequeued (counted : Counted start stop n q) (inside : stop ≤ size)
    (waiting : n.inserted ≠ n.removed) : ∃ byte next, Move q .dequeue (.ok (some byte)) next := by
  obtain ⟨reply, next, move⟩ := exists_move (counted.valid inside) .dequeue
  obtain ⟨c, present, _, _, turn⟩ := counted
  cases move with
  | unset => cases present
  | empty met =>
    cases present
    exact absurd (turn.head_eq_tail_iff.mp met) waiting
  | removed memory held followed inside => exact ⟨_, _, .removed memory held followed inside⟩

theorem Valid.counted (valid : q.Valid) (bounded : q.cursors ≠ none) :
    ∃ start stop n, stop ≤ size ∧ Counted start stop n q := by
  obtain ⟨c, present⟩ := Option.ne_none_iff_exists'.mp bounded
  obtain ⟨n, turn⟩ := (valid c present).lockstep
  exact ⟨c.start, c.stop, n, (valid c present).inside, c, present, rfl, rfl, turn⟩

theorem Counted.isEmpty_eq (counted : Counted start stop n q) (inside : stop ≤ size) :
    q.isEmpty = some (n.inserted - n.removed == 0) := by
  rw [isEmpty, (counted.shows inside).length]
  rfl

theorem Counted.isFull_eq (counted : Counted start stop n q) :
    q.isFull = (n.inserted - n.removed == n.slots - 1) := by
  obtain ⟨c, present, _, _, turn⟩ := counted
  cases q
  cases present
  exact Queue.isFull_eq turn

theorem exists_run (valid : q.Valid) (calls : List Call) :
    ∃ replies last, run step q calls = some (replies, last) ∧ last.Valid := by
  refine run_preserved Valid ?_ valid calls
  intro q call valid
  obtain ⟨reply, next, move⟩ := exists_move valid call
  exact ⟨reply, next, step_of_move valid move, move.valid valid⟩

-- With a byte in the queue and room for one, neither call can be refused in
-- either order.
theorem Counted.exchanged (counted : Counted start stop n q) (inside : stop ≤ size)
    (room : n.inserted - n.removed ≠ n.slots - 1) (waiting : n.inserted ≠ n.removed)
    (value : UInt8) :
    ∃ byte last, run step q [.enqueue value, .dequeue] = some ([.ok none, .ok (some byte)], last) ∧
      run step q [.dequeue, .enqueue value] = some ([.ok (some byte), .ok none], last) := by
  have valid := counted.valid inside
  have order := (counted.shows inside).order
  have free := (counted.shows inside).free
  obtain ⟨fuller, filling⟩ := counted.exists_enqueued inside room value
  have filled := (filling.enqueued counted rfl).2.1
  obtain ⟨byte, last, draining⟩ :=
    filled.exists_dequeued inside (show n.inserted + 1 ≠ n.removed by omega)
  have ran : run step q [.enqueue value, .dequeue] =
      some ([.ok none, .ok (some byte)], last) := by
    rw [run_cons (step_of_move valid filling), run_cons (step_of_move (filling.valid valid) draining)]
    rfl
  obtain ⟨byte', emptier, taking⟩ := counted.exists_dequeued inside waiting
  obtain ⟨_, _, taken, _⟩ := taking.dequeued counted rfl
  obtain ⟨last', putting⟩ := taken.exists_enqueued inside
    (show n.inserted - (n.removed + 1) ≠ n.slots - 1 by omega) value
  have ran' : run step q [.dequeue, .enqueue value] =
      some ([.ok (some byte'), .ok none], last') := by
    rw [run_cons (step_of_move valid taking), run_cons (step_of_move (taking.valid valid) putting)]
    rfl
  have settled := Interleaving.settled (.insert (.remove .done)) inside counted ran
    (by simp [Accepted, Reply.refused])
  have settled' := Interleaving.settled (.remove (.insert .done)) inside counted ran'
    (by simp [Accepted, Reply.refused])
  obtain ⟨same, rfl⟩ := settled.agree settled'
  cases same
  exact ⟨byte, last', ran, ran'⟩

-- Insertions and removals are independent of each other. Two runs that accept
-- the same of them, in whatever order, hand over the same bytes and leave the
-- same cursors and the same array.
theorem interleavings_agree (path : Reached anyStep (new size) q) (bounded : q.cursors ≠ none) :
    (∀ values count one two, Interleaving values count one → Interleaving values count two →
      ∃ replies last replies' last', run step q one = some (replies, last) ∧
        run step q two = some (replies', last') ∧
        (Accepted replies → Accepted replies' → (handed replies).length = count ∧
          handed replies' = handed replies ∧ last' = last)) ∧
    (q.isEmpty = some false → q.isFull = false → ∀ value, ∃ byte last,
      run step q [.enqueue value, .dequeue] = some ([.ok none, .ok (some byte)], last) ∧
        run step q [.dequeue, .enqueue value] = some ([.ok (some byte), .ok none], last)) := by
  have valid := (standsFor size).valid_of_reached (valid_new size) path
  obtain ⟨start, stop, n, inside, counted⟩ := valid.counted bounded
  constructor
  · intro values count one two mixed mixed'
    obtain ⟨replies, last, ran, _⟩ := exists_run valid one
    obtain ⟨replies', last', ran', _⟩ := exists_run valid two
    refine ⟨replies, last, replies', last', ran, ran', ?_⟩
    intro accepted accepted'
    have settled := mixed.settled inside counted ran accepted
    exact ⟨settled.length, settled.agree (mixed'.settled inside counted ran' accepted')⟩
  · intro occupied roomy value
    rw [counted.isEmpty_eq inside, Option.some.injEq, beq_eq_false_iff_ne] at occupied
    rw [counted.isFull_eq, beq_eq_false_iff_ne] at roomy
    exact counted.exchanged inside roomy (by omega) value

-- A ring that the first run fills and the second empties on the way. The tail
-- goes round it in both.
theorem interleavings_agree_past_wrap :
    ∃ q last final : Queue 4, q = ⟨#v[0, 5, 6, 0], some ⟨1, 4, 2, 1, 3⟩⟩ ∧
      last = ⟨#v[0, 8, 6, 7], some ⟨1, 4, 1, 3, 2⟩⟩ ∧ final = ⟨#v[0, 5, 6, 9], some ⟨1, 4, 3, 2, 1⟩⟩ ∧
      Reached anyStep (new 4) q ∧ q.cursors ≠ none ∧
      run step q [.enqueue 7, .dequeue, .enqueue 8, .dequeue] =
        some ([.ok none, .ok (some 6), .ok none, .ok (some 7)], last) ∧
      run step q [.dequeue, .enqueue 7, .dequeue, .enqueue 8] =
        some ([.ok (some 6), .ok none, .ok (some 7), .ok none], last) ∧
      Accepted [.ok none, .ok (some 6), .ok none, .ok (some 7)] ∧
      Accepted [.ok (some 6), .ok none, .ok (some 7), .ok none] ∧
      q.isEmpty = some false ∧ q.isFull = false ∧
      run step q [.enqueue 9, .dequeue] = some ([.ok none, .ok (some 6)], final) ∧
      run step q [.dequeue, .enqueue 9] = some ([.ok (some 6), .ok none], final) := by
  let q : Queue 4 := ⟨#v[0, 5, 6, 0], some ⟨1, 4, 2, 1, 3⟩⟩
  let last : Queue 4 := ⟨#v[0, 8, 6, 7], some ⟨1, 4, 1, 3, 2⟩⟩
  let final : Queue 4 := ⟨#v[0, 5, 6, 9], some ⟨1, 4, 3, 2, 1⟩⟩
  have reached : run anyStep (new 4) [.plain (.init 1 4), .plain (.enqueue 5), .plain .dequeue,
      .plain (.enqueue 6)] = some ([.plain (.ok none), .plain (.ok none), .plain (.ok (some 5)),
        .plain (.ok none)], q) := rfl
  have bounded : q.cursors ≠ none := nofun
  have filling : run step q [.enqueue 7, .dequeue, .enqueue 8, .dequeue] =
      some ([.ok none, .ok (some 6), .ok none, .ok (some 7)], last) := rfl
  obtain ⟨interleaved, exchanged⟩ := interleavings_agree (.run .start reached) bounded
  obtain ⟨replies, _, replies', _, ran, ran', agree⟩ := interleaved [7, 8] 2 _ _
    (.insert (.remove (.insert (.remove .done))))
    (.remove (.insert (.remove (.insert .done))))
  cases filling.symm.trans ran
  have emptying : replies' = [.ok (some 6), .ok none, .ok (some 7), .ok none] := by
    cases ran'
    rfl
  subst emptying
  have accepted : Accepted [.ok none, .ok (some 6), .ok none, .ok (some 7)] := by
    simp [Accepted, Reply.refused]
  have accepted' : Accepted [.ok (some 6), .ok none, .ok (some 7), .ok none] := by
    simp [Accepted, Reply.refused]
  obtain ⟨_, _, rfl⟩ := agree accepted accepted'
  obtain ⟨byte, after, putFirst, takenFirst⟩ := exchanged rfl rfl 9
  have known : run step q [.enqueue 9, .dequeue] = some ([.ok none, .ok (some 6)], final) := rfl
  cases known.symm.trans putFirst
  exact ⟨q, last, final, rfl, rfl, rfl, .run .start reached, bounded, filling, ran', accepted,
    accepted', rfl, rfl, known, takenFirst⟩

end BoundedBytes.Queue
