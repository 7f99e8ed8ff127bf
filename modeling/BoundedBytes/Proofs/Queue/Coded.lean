import BoundedBytes.Proofs.Coded
import BoundedBytes.Proofs.Queue.Move
import BoundedBytes.Proofs.Run
import BoundedBytes.Queue.Coded

namespace BoundedBytes.Queue

open BoundedBytes.Coded (Receipt StandsFor Told command_given fetch_given inspect_told)

variable {size : Word} {q next : Queue size}

theorem Coded.step_missing {call : Coded.Call} (drives : call.reads = false)
    (skipped : call.plain? = none) :
    Coded.step q call = some (.ofReply call.slot (.error .nullReference), q) := by
  cases call with
  | init given start stop =>
    cases given with
    | true => cases skipped
    | false => rfl
  | enqueue given value =>
    cases given with
    | true => cases skipped
    | false => rfl
  | dequeue given slot =>
    cases given with
    | false => cases slot <;> rfl
    | true =>
      cases slot with
      | none => rfl
      | some held => cases skipped
  | read => cases drives

theorem Coded.step_told (q : Queue size) (given : Bool) (field : Cursors.Field) (slot : Option Word) :
    ∃ receipt, Coded.step q (.read given field slot) = some (receipt, q) ∧
      Told given (q.view field) slot receipt := by
  obtain ⟨code, held, seen, told⟩ := inspect_told q (fun q => some (q.view field)) rfl given slot
  refine ⟨⟨code, .ofWord? held⟩, ?_, told⟩
  exact congrArg (Option.map fun seen => (Receipt.mk seen.1 (.ofWord? seen.2), q)) seen

theorem Coded.step_read {call : Coded.Call} (reads : call.reads = true) :
    ∃ receipt, Coded.step q call = some (receipt, q) ∧ receipt.Dependable call.slot := by
  cases call with
  | init | enqueue | dequeue => cases reads
  | read given field slot =>
    obtain ⟨receipt, made, told⟩ := step_told q given field slot
    exact ⟨receipt, made, told.dependable⟩

theorem Coded.Call.eq_of_meant {call : Coded.Call} {plain : Queue.Call}
    (meant : call.plain? = some plain) :
    (∃ start stop, call = .init true start stop ∧ plain = .init start stop) ∨
    (∃ value, call = .enqueue true value ∧ plain = .enqueue value) ∨
    ∃ held, call = .dequeue true (some held) ∧ plain = .dequeue := by
  cases call with
  | init given start stop =>
    cases given with
    | false => cases meant
    | true => exact .inl ⟨start, stop, rfl, (Option.some.inj meant).symm⟩
  | enqueue given value =>
    cases given with
    | false => cases meant
    | true => exact .inr (.inl ⟨value, rfl, (Option.some.inj meant).symm⟩)
  | dequeue given slot =>
    cases given with
    | false => cases slot <;> cases meant
    | true =>
      cases slot with
      | none => cases meant
      | some held => exact .inr (.inr ⟨held, rfl, (Option.some.inj meant).symm⟩)
  | read given _ slot => cases given <;> cases meant

theorem Coded.step_meant {call : Coded.Call} {plain : Queue.Call} (meant : call.plain? = some plain) :
    Coded.step q call =
      (q.step plain).map fun (reply, next) => (Receipt.ofReply call.slot reply, next) := by
  rcases Coded.Call.eq_of_meant meant with
    ⟨start, stop, rfl, rfl⟩ | ⟨value, rfl, rfl⟩ | ⟨held, rfl, rfl⟩
  · exact command_given .missing
  · exact command_given .missing
  · exact fetch_given held

theorem Coded.Call.eq_dequeue_of_slot {call : Coded.Call} {plain : Queue.Call}
    (meant : call.plain? = some plain) (takes : call.slot ≠ .missing) : plain = .dequeue := by
  rcases Coded.Call.eq_of_meant meant with ⟨_, _, rfl, _⟩ | ⟨_, rfl, _⟩ | ⟨_, _, rfl⟩
  · exact absurd rfl takes
  · exact absurd rfl takes
  · rfl

theorem standsFor (size : Word) :
    StandsFor (σ := Queue size) Valid step Coded.step where
  answered call valid := by
    obtain ⟨reply, next, move⟩ := exists_move valid call
    exact ⟨reply, next, step_of_move valid move, move.valid valid, move.unchanged⟩
  meant := Coded.step_meant
  missing := Coded.step_missing
  reading _ := Coded.step_read
  handing valid meant takes made accepted := by
    cases Coded.Call.eq_dequeue_of_slot meant takes
    exact ((step_exact valid).mp made).handed accepted

end BoundedBytes.Queue
