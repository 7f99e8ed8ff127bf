import BoundedBytes.Container
import BoundedBytes.Word

namespace BoundedBytes

namespace Coded

-- Containers driven by numbers, for callers that have neither options nor
-- outcomes. A container or an output slot may be missing, and every call
-- returns one byte: zero for success or else the code of an error.
def ok : UInt8 := 0

-- The code that stands for an outcome. What was handed over is not in it.
def codeOf : Outcome α → UInt8
  | .ok _ => ok
  | .error e => e.code

-- The outcome that a code stands for; nothing for codes that stand for none.
def outcome? (code : UInt8) : Option (Outcome Unit) :=
  if code = ok then some (.ok ()) else (Error.ofCode? code).map .error

-- What a caller hands over to receive an answer in.
inductive Slot where
  | missing
  | byte (held : UInt8)
  | word (held : Word)
deriving DecidableEq

def Slot.ofByte? : Option UInt8 → Slot
  | none => .missing
  | some held => .byte held

def Slot.ofWord? : Option Word → Slot
  | none => .missing
  | some held => .word held

structure Receipt where
  code : UInt8
  slot : Slot
deriving DecidableEq

def Receipt.refused (receipt : Receipt) : Bool := receipt.code != ok

def command (container : Option σ) (call : σ → Checked (Answer σ Unit)) :
    Checked (UInt8 × Option σ) :=
  match container with
  | none => some (Error.nullReference.code, none)
  | some s => (call s).map fun (outcome, next) => (codeOf outcome, some next)

-- A call that hands over a byte. A missing slot is noticed before the
-- container is touched, so that no byte is lost to it.
def fetch (container : Option σ) (slot : Option UInt8) (call : σ → Checked (Answer σ UInt8)) :
    Checked (UInt8 × Option UInt8 × Option σ) :=
  match container, slot with
  | some s, some held => (call s).map fun
    | (.ok value, next) => (ok, some value, some next)
    | (.error e, next) => (e.code, some held, some next)
  | _, _ => some (Error.nullReference.code, slot, container)

-- A call that reads a word of a container and leaves the container alone. Here
-- a missing slot is noticed last: an unset container is reported before it.
def inspect (container : Option σ) (slot : Option Word) (view : σ → Checked (Option Word)) :
    Checked (UInt8 × Option Word) :=
  match container with
  | none => some (Error.nullReference.code, slot)
  | some s => (view s).map fun
    | none => (Error.uninitialized.code, slot)
    | some word =>
      match slot with
      | none => (Error.nullReference.code, none)
      | some _ => (ok, some word)

@[simp] theorem codeOf_eq_ok_iff (outcome : Outcome α) : codeOf outcome = ok ↔ ∃ a, outcome = .ok a := by
  cases outcome with
  | ok a => simp [codeOf]
  | error e => simp [codeOf, show e.code ≠ ok from e.code_ne_zero]

theorem outcome?_codeOf (outcome : Outcome α) :
    outcome? (codeOf outcome) = some (outcome.map fun _ => ()) := by
  cases outcome with
  | ok a => rfl
  | error e =>
    have nonzero : e.code ≠ ok := e.code_ne_zero
    simp [codeOf, outcome?, nonzero, Except.map]

-- Calls by numbers: the slot that comes with each, whether it only reads, and
-- the plain call it stands for. There is none where the container or a slot that
-- the call needs is missing, nor for a reading.
class Numbered (χ : Type) (κ : outParam Type) where
  slot : χ → Slot
  reads : χ → Bool
  plain? : χ → Option κ

end Coded

open Coded (Numbered Receipt Slot)

-- A call of either kind, by numbers or not, and what it is answered with.
inductive AnyCall (κ χ : Type) where
  | plain (call : κ)
  | coded (call : χ)
deriving DecidableEq

inductive AnyReply where
  | plain (reply : Reply)
  | coded (receipt : Receipt)

namespace AnyCall

variable {κ χ : Type} [Numbered χ κ]

def slot : AnyCall κ χ → Slot
  | .plain _ => .missing
  | .coded call => Numbered.slot call

-- The plain call that a call of either kind comes to, if it comes to any.
def meant : AnyCall κ χ → Option κ
  | .plain call => some call
  | .coded call => Numbered.plain? call

end AnyCall

namespace AnyReply

def refused : AnyReply → Bool
  | .plain reply => reply.refused
  | .coded receipt => receipt.refused

def slot : AnyReply → Slot
  | .plain _ => .missing
  | .coded receipt => receipt.slot

end AnyReply

-- A container that is driven in both ways.
def either {σ κ χ : Type} (plain : Step σ κ Reply) (coded : Step σ χ Receipt) :
    Step σ (AnyCall κ χ) AnyReply := fun s call =>
  match call with
  | .plain call => (plain s call).map fun (reply, next) => (.plain reply, next)
  | .coded call => (coded s call).map fun (receipt, next) => (.coded receipt, next)

end BoundedBytes
