import BoundedBytes.Proofs.Queue.Ring
import BoundedBytes.Proofs.Word
import BoundedBytes.Queue.Basic

namespace BoundedBytes.Queue

variable {size : Word}

-- Calls that a queue without bounds refuses.
def Call.needsBounds : Call → Bool
  | .init .. | .initWhole | .reset => false
  | .enqueue _ | .dequeue => true

-- Everything that a call on a valid queue can do, with positions as numbers
-- and no fault left. `step_exact` ties it to the step.
inductive Move : Queue size → Call → Reply → Queue size → Prop where
  | bounded (order : start < stop) (inside : stop ≤ size) (behind : last.toNat + 1 = stop.toNat) :
      Move ⟨memory, old⟩ (.init start stop) (.ok none)
        ⟨memory, some ⟨start, stop, start, last, start⟩⟩
  | misplaced (wrong : ¬(start < stop ∧ stop ≤ size)) :
      Move q (.init start stop) (.error .invalidRange) q
  | whole (move : Move q (.init 0 size) reply next) : Move q .initWhole reply next
  | unset (call : Call) (needs : call.needsBounds = true) :
      Move ⟨memory, none⟩ call (.error .uninitialized) ⟨memory, none⟩
  | full (met : c.lastRead = c.tail) :
      Move ⟨memory, some c⟩ (.enqueue value) (.error .full) ⟨memory, some c⟩
  | inserted (memory : Memory size) (value : UInt8) (room : c.lastRead ≠ c.tail)
      (moved : tail.toNat = c.following c.tail.toNat) (inside : c.tail.toNat < size.toNat) :
      Move ⟨memory, some c⟩ (.enqueue value) (.ok none)
        ⟨memory.set c.tail.toNat value inside, some { c with tail }⟩
  | empty (met : c.head = c.tail) :
      Move ⟨memory, some c⟩ .dequeue (.error .empty) ⟨memory, some c⟩
  | removed (memory : Memory size) (held : c.head ≠ c.tail)
      (moved : head.toNat = c.following c.head.toNat) (inside : c.head.toNat < size.toNat) :
      Move ⟨memory, some c⟩ .dequeue (.ok (some memory[c.head.toNat]))
        ⟨memory, some { c with lastRead := c.head, head }⟩
  | idle : Move ⟨memory, none⟩ .reset (.ok none) ⟨memory, none⟩
  | cleared (behind : last.toNat + 1 = c.stop.toNat) :
      Move ⟨memory, some c⟩ .reset (.ok none)
        ⟨memory, some { c with head := c.start, tail := c.start, lastRead := last }⟩

variable {q next : Queue size} {call : Call} {reply : Reply} {memory : Memory size} {c : Cursors}
  {start stop last : Word}

theorem exists_last (order : start < stop) :
    ∃ last, Word.sub? stop 1 = some last ∧ last.toNat + 1 = stop.toNat := by
  have positive := UInt16.lt_iff_toNat_lt.mp order
  exact Word.exists_sub? (b := 1) (Nat.lt_of_le_of_lt (Nat.zero_le _) positive)

theorem Valid.within (valid : Valid ⟨memory, some c⟩) : c.Within size := valid c rfl

theorem Cursors.Within.valid (within : c.Within size) : Valid ⟨memory, some c⟩ := by
  intro other present
  cases present
  exact within

theorem init_exact {old : Option Cursors} (order : start < stop) (inside : stop ≤ size)
    (behind : last.toNat + 1 = stop.toNat) :
    init ⟨memory, old⟩ start stop =
      some (.ok (), ⟨memory, some ⟨start, stop, start, last, start⟩⟩) := by
  have taken : Word.sub? stop 1 = some last := Word.sub?_eq_some_iff.mpr behind
  simp [init, Word.guard_eq_false_iff.mpr ⟨order, inside⟩, taken]

theorem init_refused (wrong : ¬(start < stop ∧ stop ≤ size)) :
    init q start stop = some (.error .invalidRange, q) := by
  have refused := mt Word.guard_eq_false_iff.mp wrong
  simp [init, refused]

theorem init_accepted (accepted : q.init start stop = some (.ok (), next)) :
    start < stop ∧ stop ≤ size ∧ ∃ last : Word, last.toNat + 1 = stop.toNat ∧
      next = ⟨q.contents, some ⟨start, stop, start, last, start⟩⟩ := by
  by_cases right : start < stop ∧ stop ≤ size
  · obtain ⟨last, _, behind⟩ := exists_last right.1
    cases (init_exact right.1 right.2 behind).symm.trans accepted
    exact ⟨right.1, right.2, last, behind, rfl⟩
  · cases (init_refused right).symm.trans accepted

theorem step_of_move (valid : q.Valid) (move : Move q call reply next) :
    q.step call = some (reply, next) := by
  induction move with
  | bounded order inside behind =>
    simp [step, init_exact order inside behind, Answer.silent, Except.map]
  | misplaced wrong => simp [step, init_refused wrong, Answer.silent, Except.map]
  | whole move ih => exact ih valid
  | unset call needs =>
    cases call with
    | init | initWhole | reset => cases needs
    | enqueue value => rfl
    | dequeue => rfl
  | full met => simp [step, enqueue, met, Answer.silent, Except.map]
  | inserted memory value room moved inside =>
    obtain ⟨tail, found, _, made⟩ := @enqueue_of_room size memory _ valid.within room value
    cases UInt16.toNat_inj.mp (moved.trans found.symm)
    simp [step, made, Answer.silent, Except.map]
  | empty met => simp [step, dequeue, met, Answer.handing, Except.map]
  | removed memory held moved inside =>
    obtain ⟨head, found, _, made⟩ := @dequeue_of_byte size memory _ valid.within held
    cases UInt16.toNat_inj.mp (moved.trans found.symm)
    simp [step, made, Answer.handing, Except.map]
  | idle => rfl
  | cleared behind =>
    have taken := Word.sub?_eq_some_iff (b := 1).mpr behind
    simp [step, reset, taken]

theorem exists_bounding (q : Queue size) (start stop : Word) :
    ∃ reply next, Move q (.init start stop) reply next := by
  by_cases right : start < stop ∧ stop ≤ size
  · obtain ⟨last, _, behind⟩ := exists_last right.1
    exact ⟨_, _, .bounded right.1 right.2 behind⟩
  · exact ⟨_, _, .misplaced right⟩

theorem exists_move (valid : q.Valid) (call : Call) : ∃ reply next, Move q call reply next := by
  rcases q with ⟨memory, cursors⟩
  cases call with
  | init start stop => exact exists_bounding _ start stop
  | initWhole =>
    obtain ⟨reply, next, move⟩ := exists_bounding ⟨memory, cursors⟩ 0 size
    exact ⟨reply, next, .whole move⟩
  | enqueue value =>
    cases cursors with
    | none => exact ⟨_, _, .unset _ rfl⟩
    | some c =>
      by_cases met : c.lastRead = c.tail
      · exact ⟨_, _, .full met⟩
      · obtain ⟨tail, moved, inside, _⟩ := @enqueue_of_room size memory _ valid.within met value
        exact ⟨_, _, .inserted memory value met moved inside⟩
  | dequeue =>
    cases cursors with
    | none => exact ⟨_, _, .unset _ rfl⟩
    | some c =>
      by_cases met : c.head = c.tail
      · exact ⟨_, _, .empty met⟩
      · obtain ⟨head, moved, inside, _⟩ := @dequeue_of_byte size memory _ valid.within met
        exact ⟨_, _, .removed memory met moved inside⟩
  | reset =>
    cases cursors with
    | none => exact ⟨_, _, .idle⟩
    | some c =>
      obtain ⟨last, _, behind⟩ := exists_last valid.within.room
      exact ⟨_, _, .cleared behind⟩

theorem step_exact (valid : q.Valid) : q.step call = some (reply, next) ↔ Move q call reply next := by
  constructor
  · intro made
    obtain ⟨_, _, move⟩ := exists_move valid call
    cases (step_of_move valid move).symm.trans made
    exact move
  · exact step_of_move valid

theorem Move.valid (valid : q.Valid) (move : Move q call reply next) : next.Valid := by
  induction move with
  | bounded order inside behind =>
    exact ((Counting.fresh_lockstep order behind).within inside).valid
  | misplaced | unset | full | empty | idle => exact valid
  | whole _ ih => exact ih valid
  | inserted _ _ room moved _ =>
    obtain ⟨n, turn⟩ := valid.within.lockstep
    exact ((turn.insert room moved).within valid.within.inside).valid
  | removed _ held moved _ =>
    obtain ⟨n, turn⟩ := valid.within.lockstep
    exact ((turn.remove held moved).within valid.within.inside).valid
  | cleared behind =>
    obtain ⟨n, turn⟩ := valid.within.lockstep
    exact ((turn.clear behind).within valid.within.inside).valid

theorem Move.unchanged (move : Move q call reply next) (refused : reply.refused = true) :
    next = q := by
  induction move with
  | misplaced | unset | full | empty => rfl
  | whole _ ih => exact ih refused
  | bounded | inserted | removed | idle | cleared => cases refused

theorem Move.handed (move : Move q .dequeue reply next) (accepted : reply.refused = false) :
    ∃ value, reply = .ok (some value) := by
  cases move with
  | unset | empty => cases accepted
  | removed => exact ⟨_, rfl⟩

end BoundedBytes.Queue
