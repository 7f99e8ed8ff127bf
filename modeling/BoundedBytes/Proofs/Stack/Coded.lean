import BoundedBytes.Proofs.Coded
import BoundedBytes.Proofs.Run
import BoundedBytes.Proofs.Stack.Contents
import BoundedBytes.Proofs.Stack.Move
import BoundedBytes.Stack.Coded

namespace BoundedBytes.Stack

open BoundedBytes.Coded (Receipt StandsFor Told command_given fetch_given inspect_told)

variable {size : Word} {s next : Stack size}

-- The words that a stack has to show: its cursors, and how far apart its bounds
-- are.
def shown (s : Stack size) : Reading → Option Word
  | .cursor field => s.cursors.map (·.field field)
  | .size => s.cursors.map fun c => c.sentinel - c.bottom

theorem view_eq (valid : s.Valid) (reading : Reading) : s.view reading = some (s.shown reading) := by
  rcases s with ⟨memory, cursors⟩
  cases cursors with
  | none => cases reading <;> rfl
  | some c =>
    cases reading with
    | cursor field => rfl
    | size =>
      have room := Word.sub?_of_le (UInt16.le_of_lt valid.within.room)
      simp only [view, shown, Cursors.room, room, Option.map_some]

theorem Coded.step_missing {call : Coded.Call} (drives : call.reads = false)
    (skipped : call.plain? = none) :
    Coded.step s call = some (.ofReply call.slot (.error .nullReference), s) := by
  cases call with
  | init given sentinel bottom =>
    cases given with
    | true => cases skipped
    | false => rfl
  | push given value =>
    cases given with
    | true => cases skipped
    | false => rfl
  | pop given slot =>
    cases given with
    | false => cases slot <;> rfl
    | true =>
      cases slot with
      | none => rfl
      | some held => cases skipped
  | read => cases drives

theorem Coded.step_told (valid : s.Valid) (given : Bool) (reading : Reading) (slot : Option Word) :
    ∃ receipt, Coded.step s (.read given reading slot) = some (receipt, s) ∧
      Told given (s.shown reading) slot receipt := by
  obtain ⟨code, held, seen, told⟩ :=
    inspect_told s (view · reading) (view_eq valid reading) given slot
  refine ⟨⟨code, .ofWord? held⟩, ?_, told⟩
  exact congrArg (Option.map fun seen => (Receipt.mk seen.1 (.ofWord? seen.2), s)) seen

theorem Coded.step_read (valid : s.Valid) {call : Coded.Call} (reads : call.reads = true) :
    ∃ receipt, Coded.step s call = some (receipt, s) ∧ receipt.Dependable call.slot := by
  cases call with
  | init | push | pop => cases reads
  | read given reading slot =>
    obtain ⟨receipt, made, told⟩ := step_told valid given reading slot
    exact ⟨receipt, made, told.dependable⟩

theorem Coded.Call.eq_of_meant {call : Coded.Call} {plain : Stack.Call}
    (meant : call.plain? = some plain) :
    (∃ sentinel bottom, call = .init true sentinel bottom ∧ plain = .init sentinel bottom) ∨
    (∃ value, call = .push true value ∧ plain = .push value) ∨
    ∃ held, call = .pop true (some held) ∧ plain = .pop := by
  cases call with
  | init given sentinel bottom =>
    cases given with
    | false => cases meant
    | true => exact .inl ⟨sentinel, bottom, rfl, (Option.some.inj meant).symm⟩
  | push given value =>
    cases given with
    | false => cases meant
    | true => exact .inr (.inl ⟨value, rfl, (Option.some.inj meant).symm⟩)
  | pop given slot =>
    cases given with
    | false => cases slot <;> cases meant
    | true =>
      cases slot with
      | none => cases meant
      | some held => exact .inr (.inr ⟨held, rfl, (Option.some.inj meant).symm⟩)
  | read given _ slot => cases given <;> cases meant

theorem Coded.step_meant {call : Coded.Call} {plain : Stack.Call} (meant : call.plain? = some plain) :
    Coded.step s call =
      (s.step plain).map fun (reply, next) => (Receipt.ofReply call.slot reply, next) := by
  rcases Coded.Call.eq_of_meant meant with
    ⟨sentinel, bottom, rfl, rfl⟩ | ⟨value, rfl, rfl⟩ | ⟨held, rfl, rfl⟩
  · exact command_given .missing
  · exact command_given .missing
  · exact fetch_given held

theorem Coded.Call.eq_pop_of_slot {call : Coded.Call} {plain : Stack.Call}
    (meant : call.plain? = some plain) (takes : call.slot ≠ .missing) : plain = .pop := by
  rcases Coded.Call.eq_of_meant meant with ⟨_, _, rfl, _⟩ | ⟨_, rfl, _⟩ | ⟨_, _, rfl⟩
  · exact absurd rfl takes
  · exact absurd rfl takes
  · rfl

theorem standsFor (size : Word) :
    StandsFor (σ := Stack size) Valid step Coded.step where
  answered call valid := by
    obtain ⟨reply, next, move⟩ := exists_move valid call
    exact ⟨reply, next, step_of_move valid move, move.valid valid, move.unchanged⟩
  meant := Coded.step_meant
  missing := Coded.step_missing
  reading valid := Coded.step_read valid
  handing valid meant takes made accepted := by
    cases Coded.Call.eq_pop_of_slot meant takes
    exact ((step_exact valid).mp made).handed accepted

end BoundedBytes.Stack
