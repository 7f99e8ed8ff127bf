import BoundedBytes.Proofs.Word
import BoundedBytes.Stack.Basic

namespace BoundedBytes.Stack

variable {size : Word}

-- Calls that a stack without bounds refuses.
def Call.needsBounds : Call → Bool
  | .init .. | .initWhole | .reset => false
  | .push _ | .pop | .peek => true

-- Everything that a call on a valid stack can do, with positions as numbers
-- and no fault left. `step_exact` ties it to the step.
inductive Move : Stack size → Call → Reply → Stack size → Prop where
  | bounded (order : bottom < sentinel) (inside : sentinel ≤ size) :
      Move ⟨memory, old⟩ (.init sentinel bottom) (.ok none)
        ⟨memory, some ⟨sentinel, bottom, sentinel⟩⟩
  | misplaced (wrong : ¬(bottom < sentinel ∧ sentinel ≤ size)) :
      Move s (.init sentinel bottom) (.error .invalidRange) s
  | whole (move : Move s (.init size 0) reply next) : Move s .initWhole reply next
  | unset (call : Call) (needs : call.needsBounds = true) :
      Move ⟨memory, none⟩ call (.error .uninitialized) ⟨memory, none⟩
  | full (met : c.top = c.bottom) :
      Move ⟨memory, some c⟩ (.push value) (.error .overflow) ⟨memory, some c⟩
  | pushed (memory : Memory size) (value : UInt8) (room : c.bottom < c.top)
      (moved : top.toNat + 1 = c.top.toNat) (inside : top.toNat < size.toNat) :
      Move ⟨memory, some c⟩ (.push value) (.ok none)
        ⟨memory.set top.toNat value inside, some { c with top }⟩
  | empty (met : c.top = c.sentinel) :
      Move ⟨memory, some c⟩ .pop (.error .underflow) ⟨memory, some c⟩
  | popped (memory : Memory size) (held : c.top < c.sentinel)
      (moved : top.toNat = c.top.toNat + 1) (inside : c.top.toNat < size.toNat) :
      Move ⟨memory, some c⟩ .pop (.ok (some memory[c.top.toNat])) ⟨memory, some { c with top }⟩
  | blind (met : c.top = c.sentinel) :
      Move ⟨memory, some c⟩ .peek (.error .underflow) ⟨memory, some c⟩
  | seen (memory : Memory size) (held : c.top < c.sentinel) (inside : c.top.toNat < size.toNat) :
      Move ⟨memory, some c⟩ .peek (.ok (some memory[c.top.toNat])) ⟨memory, some c⟩
  | idle : Move ⟨memory, none⟩ .reset (.ok none) ⟨memory, none⟩
  | cleared : Move ⟨memory, some c⟩ .reset (.ok none) ⟨memory, some { c with top := c.sentinel }⟩

variable {s next : Stack size} {call : Call} {reply : Reply} {memory : Memory size} {c : Cursors}
  {sentinel bottom : Word}

theorem Valid.within (valid : Valid ⟨memory, some c⟩) : c.Within size := valid c rfl

theorem Cursors.Within.valid (within : c.Within size) : Valid ⟨memory, some c⟩ := by
  intro other present
  cases present
  exact within

theorem Cursors.within_fresh (order : bottom < sentinel) (inside : sentinel ≤ size) :
    Cursors.Within size ⟨sentinel, bottom, sentinel⟩ :=
  ⟨order, inside, UInt16.le_of_lt order, UInt16.le_refl _⟩

theorem Cursors.Within.withTop (within : c.Within size) {top : Word}
    (above : c.bottom.toNat ≤ top.toNat) (below : top.toNat ≤ c.sentinel.toNat) :
    Cursors.Within size { c with top } :=
  { within with
    above := UInt16.le_iff_toNat_le.mpr above
    below := UInt16.le_iff_toNat_le.mpr below }

theorem init_exact (order : bottom < sentinel) (inside : sentinel ≤ size) :
    s.init sentinel bottom =
      some (.ok (), { s with cursors := some ⟨sentinel, bottom, sentinel⟩ }) := by
  simp [init, Word.guard_eq_false_iff.mpr ⟨order, inside⟩]

theorem init_refused (wrong : ¬(bottom < sentinel ∧ sentinel ≤ size)) :
    s.init sentinel bottom = some (.error .invalidRange, s) := by
  have refused := mt Word.guard_eq_false_iff.mp wrong
  simp [init, refused]

theorem init_accepted (accepted : s.init sentinel bottom = some (.ok (), next)) :
    bottom < sentinel ∧ sentinel ≤ size ∧
      next = { s with cursors := some ⟨sentinel, bottom, sentinel⟩ } := by
  by_cases right : bottom < sentinel ∧ sentinel ≤ size
  · cases (init_exact right.1 right.2).symm.trans accepted
    exact ⟨right.1, right.2, rfl⟩
  · cases (init_refused right).symm.trans accepted

theorem peek_of_byte (within : c.Within size) (held : c.top < c.sentinel) :
    ∃ inside : c.top.toNat < size.toNat,
      peek ⟨memory, some c⟩ = some (.ok memory[c.top.toNat]) := by
  have lower := UInt16.lt_iff_toNat_lt.mp held
  have fits := UInt16.le_iff_toNat_le.mp within.inside
  have inside : c.top.toNat < size.toNat := by omega
  have apart : c.top ≠ c.sentinel := fun met => by rw [met] at lower; omega
  exact ⟨inside, by simp [peek, apart, Memory.read_eq _ inside]⟩

theorem step_of_move (valid : s.Valid) (move : Move s call reply next) :
    s.step call = some (reply, next) := by
  induction move with
  | bounded order inside => simp [step, init_exact order inside, Answer.silent, Except.map]
  | misplaced wrong => simp [step, init_refused wrong, Answer.silent, Except.map]
  | whole move ih => exact ih valid
  | unset call needs =>
    cases call with
    | init | initWhole | reset => cases needs
    | push value => rfl
    | pop => rfl
    | peek => rfl
  | full met => simp [step, push, met, Answer.silent, Except.map]
  | pushed memory value room moved inside =>
    obtain ⟨top, found, _, made⟩ := @push_of_room size memory _ valid.within room value
    cases UInt16.toNat_inj.mp (Nat.succ.inj (moved.trans found.symm))
    simp [step, made, Answer.silent, Except.map]
  | empty met => simp [step, pop, met, Answer.handing, Except.map]
  | popped memory held moved inside =>
    obtain ⟨top, found, _, made⟩ := @pop_of_byte size memory _ valid.within held
    cases UInt16.toNat_inj.mp (moved.trans found.symm)
    simp [step, made, Answer.handing, Except.map]
  | blind met => simp [step, peek, met, Except.map]
  | seen memory held inside =>
    obtain ⟨_, made⟩ := @peek_of_byte size memory _ valid.within held
    simp [step, made, Except.map]
  | idle => rfl
  | cleared => rfl

theorem exists_bounding (s : Stack size) (sentinel bottom : Word) :
    ∃ reply next, Move s (.init sentinel bottom) reply next := by
  by_cases right : bottom < sentinel ∧ sentinel ≤ size
  · exact ⟨_, _, .bounded right.1 right.2⟩
  · exact ⟨_, _, .misplaced right⟩

theorem exists_move (valid : s.Valid) (call : Call) : ∃ reply next, Move s call reply next := by
  rcases s with ⟨memory, cursors⟩
  cases call with
  | init sentinel bottom => exact exists_bounding _ sentinel bottom
  | initWhole =>
    obtain ⟨reply, next, move⟩ := exists_bounding ⟨memory, cursors⟩ size 0
    exact ⟨reply, next, .whole move⟩
  | push value =>
    cases cursors with
    | none => exact ⟨_, _, .unset _ rfl⟩
    | some c =>
      by_cases met : c.top = c.bottom
      · exact ⟨_, _, .full met⟩
      · have room := UInt16.lt_of_le_of_ne valid.within.above (Ne.symm met)
        obtain ⟨top, moved, inside, _⟩ := @push_of_room size memory _ valid.within room value
        exact ⟨_, _, .pushed memory value room moved inside⟩
  | pop =>
    cases cursors with
    | none => exact ⟨_, _, .unset _ rfl⟩
    | some c =>
      by_cases met : c.top = c.sentinel
      · exact ⟨_, _, .empty met⟩
      · have held := UInt16.lt_of_le_of_ne valid.within.below met
        obtain ⟨top, moved, inside, _⟩ := @pop_of_byte size memory _ valid.within held
        exact ⟨_, _, .popped memory held moved inside⟩
  | peek =>
    cases cursors with
    | none => exact ⟨_, _, .unset _ rfl⟩
    | some c =>
      by_cases met : c.top = c.sentinel
      · exact ⟨_, _, .blind met⟩
      · have held := UInt16.lt_of_le_of_ne valid.within.below met
        obtain ⟨inside, _⟩ := @peek_of_byte size memory _ valid.within held
        exact ⟨_, _, .seen memory held inside⟩
  | reset =>
    cases cursors with
    | none => exact ⟨_, _, .idle⟩
    | some c => exact ⟨_, _, .cleared⟩

theorem step_exact (valid : s.Valid) : s.step call = some (reply, next) ↔ Move s call reply next := by
  constructor
  · intro made
    obtain ⟨_, _, move⟩ := exists_move valid call
    cases (step_of_move valid move).symm.trans made
    exact move
  · exact step_of_move valid

theorem Move.valid (valid : s.Valid) (move : Move s call reply next) : next.Valid := by
  induction move with
  | bounded order inside => exact (Cursors.within_fresh order inside).valid
  | misplaced | unset | full | empty | blind | seen | idle => exact valid
  | whole _ ih => exact ih valid
  | pushed memory value room moved inside =>
    have low := UInt16.lt_iff_toNat_lt.mp room
    have high := UInt16.le_iff_toNat_le.mp valid.within.below
    exact (valid.within.withTop (by omega) (by omega)).valid
  | popped memory held moved inside =>
    have low := UInt16.le_iff_toNat_le.mp valid.within.above
    have high := UInt16.lt_iff_toNat_lt.mp held
    exact (valid.within.withTop (by omega) (by omega)).valid
  | cleared =>
    have low := UInt16.lt_iff_toNat_lt.mp valid.within.room
    exact (valid.within.withTop (Nat.le_of_lt low) (Nat.le_refl _)).valid

theorem Move.unchanged (move : Move s call reply next) (refused : reply.refused = true) :
    next = s := by
  induction move with
  | misplaced | unset | full | empty | blind => rfl
  | whole _ ih => exact ih refused
  | bounded | pushed | popped | seen | idle | cleared => cases refused

theorem Move.handed (move : Move s .pop reply next) (accepted : reply.refused = false) :
    ∃ value, reply = .ok (some value) := by
  cases move with
  | unset | empty => cases accepted
  | popped => exact ⟨_, rfl⟩

-- What an accepted push, pop or peek of a stack with bounds comes to.
theorem Move.pushing {value : UInt8} (present : s.cursors = some c)
    (move : Move s (.push value) reply next) (accepted : reply.refused = false) :
    ∃ top : Word, top.toNat + 1 = c.top.toNat ∧ c.bottom.toNat ≤ top.toNat ∧ reply = .ok none ∧
      next.cursors = some { c with top } ∧
      ∀ slot : Nat, next.contents[slot]? = if slot = top.toNat then some value else s.contents[slot]? := by
  cases move with
  | unset | full => cases accepted
  | pushed memory _ room moved inside =>
    cases present
    have low := UInt16.lt_iff_toNat_lt.mp room
    exact ⟨_, moved, by omega, rfl, rfl, Memory.getElem?_write (Memory.write_eq memory inside value)⟩

theorem Move.popping (present : s.cursors = some c) (move : Move s .pop reply next)
    (accepted : reply.refused = false) :
    ∃ (top : Word) (byte : UInt8), top.toNat = c.top.toNat + 1 ∧ reply = .ok (some byte) ∧
      s.contents[c.top.toNat]? = some byte ∧ next.cursors = some { c with top } ∧
      next.contents = s.contents := by
  cases move with
  | unset | empty => cases accepted
  | popped memory held moved inside =>
    cases present
    exact ⟨_, _, moved, rfl, Vector.getElem?_eq_getElem inside, rfl, rfl⟩

theorem Valid.exists_pushing (valid : s.Valid) (present : s.cursors = some c) (room : c.top ≠ c.bottom)
    (value : UInt8) : ∃ next, Move s (.push value) (.ok none) next := by
  obtain ⟨reply, next, move⟩ := exists_move valid (.push value)
  cases move with
  | unset => cases present
  | full met =>
    cases present
    exact absurd met room
  | pushed memory _ room moved inside => exact ⟨_, .pushed memory value room moved inside⟩

theorem Valid.exists_popping (valid : s.Valid) (present : s.cursors = some c)
    (held : c.top ≠ c.sentinel) : ∃ byte next, Move s .pop (.ok (some byte)) next := by
  obtain ⟨reply, next, move⟩ := exists_move valid .pop
  cases move with
  | unset => cases present
  | empty met =>
    cases present
    exact absurd met held
  | popped memory held moved inside => exact ⟨_, _, .popped memory held moved inside⟩

theorem Move.peeking (move : Move s .peek reply next) : next = s := by
  cases move with
  | unset | blind | seen => rfl

end BoundedBytes.Stack
