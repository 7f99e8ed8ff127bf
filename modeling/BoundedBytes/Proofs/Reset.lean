import BoundedBytes.Proofs.Queue.Coded
import BoundedBytes.Proofs.Stack.Coded

namespace BoundedBytes

namespace Queue

variable {size : Word} {q : Queue size} {c : Cursors}

-- In place of a reset, the call that sets the bounds there are.
def rebound (q : Queue size) : AnyCall → AnyCall
  | .plain .reset =>
    match q.cursors with
    | none => .plain .reset
    | some c => .plain (.init c.start c.stop)
  | call => call

-- Bounds that are there are accepted again, since they hold a slot and lie in
-- the array after every history.
theorem Valid.init_eq_reset (valid : q.Valid) (present : q.cursors = some c) :
    ∃ next, q.init c.start c.stop = some (.ok (), next) ∧ q.reset = some next := by
  rcases q with ⟨memory, cursors⟩
  cases present
  obtain ⟨last, found, behind⟩ := exists_last valid.within.room
  refine ⟨_, init_exact valid.within.room valid.within.inside behind, ?_⟩
  rw [reset, found]
  rfl

theorem reset_unset (unset : q.cursors = none) : q.reset = some q := by
  cases q
  cases unset
  rfl

theorem Valid.anyStep_rebound (valid : q.Valid) (call : AnyCall) :
    q.anyStep (q.rebound call) = q.anyStep call := by
  cases call with
  | coded => rfl
  | plain call =>
    cases call with
    | init | initWhole | enqueue | dequeue => rfl
    | reset =>
      cases present : q.cursors with
      | none => rw [rebound, present]
      | some c =>
        obtain ⟨next, accepted, cleared⟩ := valid.init_eq_reset present
        simp only [rebound, present, anyStep, either, step, accepted, cleared]
        rfl

end Queue

namespace Stack

variable {size : Word} {s : Stack size} {c : Cursors}

def rebound (s : Stack size) : AnyCall → AnyCall
  | .plain .reset =>
    match s.cursors with
    | none => .plain .reset
    | some c => .plain (.init c.sentinel c.bottom)
  | call => call

theorem Valid.init_eq_reset (valid : s.Valid) (present : s.cursors = some c) :
    s.init c.sentinel c.bottom = some (.ok (), s.reset) := by
  have within := valid c present
  rw [init_exact within.room within.inside, reset, present]
  rfl

theorem reset_unset (unset : s.cursors = none) : s.reset = s := by
  cases s
  cases unset
  rfl

theorem Valid.anyStep_rebound (valid : s.Valid) (call : AnyCall) :
    s.anyStep (s.rebound call) = s.anyStep call := by
  cases call with
  | coded => rfl
  | plain call =>
    cases call with
    | init | initWhole | push | pop | peek => rfl
    | reset =>
      cases present : s.cursors with
      | none => rw [rebound, present]
      | some c =>
        simp only [rebound, present, anyStep, either, step, valid.init_eq_reset present]
        rfl

end Stack

-- A reset is the setting of the bounds that are there once more, cursors and
-- array alike, and no run is changed by making that call instead.
theorem reset_rebounds (size : Word) :
    (∀ (q : Queue size) (c : Queue.Cursors), Reached Queue.anyStep (.new size) q →
      q.cursors = some c →
        ∃ next, q.init c.start c.stop = some (.ok (), next) ∧ q.reset = some next) ∧
    (∀ q : Queue size, q.cursors = none → q.reset = some q) ∧
    (∀ calls, ∃ answers last,
      run (traced Queue.anyStep) (.new size) calls = some (answers, last) ∧
        run (traced Queue.anyStep) (.new size)
          (replaced Queue.anyStep Queue.rebound (.new size) calls) = some (answers, last)) ∧
    (∀ (s : Stack size) (c : Stack.Cursors), Reached Stack.anyStep (.new size) s →
      s.cursors = some c → s.init c.sentinel c.bottom = some (.ok (), s.reset)) ∧
    (∀ s : Stack size, s.cursors = none → s.reset = s) ∧
    ∀ calls, ∃ answers last,
      run (traced Stack.anyStep) (.new size) calls = some (answers, last) ∧
        run (traced Stack.anyStep) (.new size)
          (replaced Stack.anyStep Stack.rebound (.new size) calls) = some (answers, last) := by
  refine ⟨?_, ?_, ?_, ?_, ?_, ?_⟩
  · intro q c path present
    exact ((Queue.standsFor size).valid_of_reached (Queue.valid_new size) path).init_eq_reset present
  · intro q unset
    exact Queue.reset_unset unset
  · refine run_replaced Queue.Valid ?_ ?_ (Queue.valid_new size)
    · intro q call valid
      obtain ⟨reply, next, made, carried, _⟩ := (Queue.standsFor size).exists_step valid call
      exact ⟨reply, next, made, carried⟩
    · intro q call valid
      exact valid.anyStep_rebound call
  · intro s c path present
    exact ((Stack.standsFor size).valid_of_reached (Stack.valid_new size) path).init_eq_reset present
  · intro s unset
    exact Stack.reset_unset unset
  · refine run_replaced Stack.Valid ?_ ?_ (Stack.valid_new size)
    · intro s call valid
      obtain ⟨reply, next, made, carried, _⟩ := (Stack.standsFor size).exists_step valid call
      exact ⟨reply, next, made, carried⟩
    · intro s call valid
      exact valid.anyStep_rebound call

-- A queue whose head and tail have moved and a stack with a byte on it, their
-- bounds off both ends of the array. A first reset finds no bounds to set again.
theorem reset_rebounds_used :
    (∃ q next : Queue 4, q = ⟨#v[0, 5, 0, 0], some ⟨1, 3, 2, 1, 2⟩⟩ ∧
      next = ⟨#v[0, 5, 0, 0], some ⟨1, 3, 1, 2, 1⟩⟩ ∧ Reached Queue.anyStep (.new 4) q ∧
      q.init 1 3 = some (.ok (), next) ∧ q.reset = some next) ∧
    (Queue.new 4).reset = some (.new 4) ∧
    (∃ answers last, answers.map Prod.fst = [.plain (.ok none), .plain (.ok none),
        .plain (.ok none), .plain (.ok none), .plain (.error .empty)] ∧
      run (traced Queue.anyStep) (.new 4) [.plain .reset, .plain (.init 1 3), .plain (.enqueue 5),
        .plain .reset, .plain .dequeue] = some (answers, last) ∧
      run (traced Queue.anyStep) (.new 4) [.plain .reset, .plain (.init 1 3), .plain (.enqueue 5),
        .plain (.init 1 3), .plain .dequeue] = some (answers, last)) ∧
    (∃ s : Stack 4, s = ⟨#v[0, 0, 5, 0], some ⟨3, 1, 2⟩⟩ ∧ Reached Stack.anyStep (.new 4) s ∧
      s.reset = ⟨#v[0, 0, 5, 0], some ⟨3, 1, 3⟩⟩ ∧ s.init 3 1 = some (.ok (), s.reset)) ∧
    (Stack.new 4).reset = .new 4 ∧
    ∃ answers last, answers.map Prod.fst = [.plain (.ok none), .plain (.ok none),
        .plain (.ok none), .plain (.ok none), .plain (.error .underflow)] ∧
      run (traced Stack.anyStep) (.new 4) [.plain .reset, .plain (.init 3 1), .plain (.push 5),
        .plain .reset, .plain .peek] = some (answers, last) ∧
      run (traced Stack.anyStep) (.new 4) [.plain .reset, .plain (.init 3 1), .plain (.push 5),
        .plain (.init 3 1), .plain .peek] = some (answers, last) := by
  let q : Queue 4 := ⟨#v[0, 5, 0, 0], some ⟨1, 3, 2, 1, 2⟩⟩
  let s : Stack 4 := ⟨#v[0, 0, 5, 0], some ⟨3, 1, 2⟩⟩
  have reachedQueue : run Queue.anyStep (.new 4) [.plain (.init 1 3), .plain (.enqueue 5),
      .plain .dequeue] = some ([.plain (.ok none), .plain (.ok none), .plain (.ok (some 5))], q) := rfl
  have reachedStack : run Stack.anyStep (.new 4) [.plain (.init 3 1), .plain (.push 5)] =
      some ([.plain (.ok none), .plain (.ok none)], s) := rfl
  obtain ⟨again, unset, alike, again', unset', alike'⟩ := reset_rebounds 4
  refine ⟨?_, unset _ rfl, ?_, ?_, unset' _ rfl, ?_⟩
  · obtain ⟨next, accepted, cleared⟩ := again q _ (.run .start reachedQueue) rfl
    cases cleared
    exact ⟨q, _, rfl, rfl, .run .start reachedQueue, accepted, rfl⟩
  · obtain ⟨answers, last, ran, ran'⟩ := alike [.plain .reset, .plain (.init 1 3),
      .plain (.enqueue 5), .plain .reset, .plain .dequeue]
    refine ⟨answers, last, ?_, ran, ran'⟩
    cases ran
    rfl
  · exact ⟨s, rfl, .run .start reachedStack, rfl,
      again' s ⟨3, 1, 2⟩ (.run .start reachedStack) rfl⟩
  · obtain ⟨answers, last, ran, ran'⟩ := alike' [.plain .reset, .plain (.init 3 1),
      .plain (.push 5), .plain .reset, .plain .peek]
    refine ⟨answers, last, ?_, ran, ran'⟩
    cases ran
    rfl

end BoundedBytes
