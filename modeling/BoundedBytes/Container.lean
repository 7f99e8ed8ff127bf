import BoundedBytes.Checked
import BoundedBytes.Error

namespace BoundedBytes

-- What a call answers and the container it leaves behind. A refused call
-- answers with an error and still leaves a container.
abbrev Answer (σ : Type) (α : Type) := Outcome α × σ

-- One shape for the answers to all calls: a call that hands over a byte
-- replies with it, and any other accepted call replies with nothing.
abbrev Reply := Outcome (Option UInt8)

def Reply.refused : Reply → Bool
  | .ok _ => false
  | .error _ => true

def Answer.silent (answer : Answer σ Unit) : Reply × σ :=
  (answer.1.map fun _ => none, answer.2)

def Answer.handing (answer : Answer σ UInt8) : Reply × σ :=
  (answer.1.map some, answer.2)

theorem Answer.of_silent {answer : Checked (Answer σ Unit)} {reply : Reply} {next : σ}
    (told : answer.map silent = some (reply, next)) :
    answer = some (reply.map fun _ => (), next) := by
  obtain ⟨⟨outcome, _⟩, same, equal⟩ := Option.map_eq_some_iff.mp told
  cases equal
  cases outcome <;> exact same

theorem Answer.of_handing {answer : Checked (Answer σ UInt8)} {byte : UInt8} {next : σ}
    (told : answer.map handing = some (.ok (some byte), next)) : answer = some (.ok byte, next) := by
  obtain ⟨⟨outcome, _⟩, same, equal⟩ := Option.map_eq_some_iff.mp told
  cases outcome <;> cases equal
  exact same

theorem Answer.of_withholding {answer : Checked (Answer σ UInt8)} {e : Error} {next : σ}
    (told : answer.map handing = some (.error e, next)) : answer = some (.error e, next) := by
  obtain ⟨⟨outcome, _⟩, same, equal⟩ := Option.map_eq_some_iff.mp told
  cases outcome <;> cases equal
  exact same

-- How much a container can hold and holds, as far as it can be seen.
structure Occupancy where
  capacity : Nat
  length : Nat
  empty : Bool
  full : Bool
deriving DecidableEq, Repr

-- Containers of bytes, whichever end they hand bytes over from.
class Container (σ : Type) where
  insert : σ → UInt8 → Checked (Answer σ Unit)
  remove : σ → Checked (Answer σ UInt8)
  occupancy : σ → Checked Occupancy

-- A step followed by a look at how full it left the container.
def observed [Container σ] (step : Step σ κ ρ) : Step σ κ (ρ × Occupancy) := fun s call =>
  match step s call with
  | none => none
  | some (reply, next) =>
    match Container.occupancy next with
    | none => none
    | some occupancy => some ((reply, occupancy), next)

end BoundedBytes
