import BoundedBytes.Coded
import BoundedBytes.Stack.Basic

namespace BoundedBytes.Stack

inductive Reading where
  | cursor (field : Cursors.Field)
  | size
deriving DecidableEq

variable {size : Word}

def view (s : Stack size) (reading : Reading) : Checked (Option Word) :=
  match s.cursors with
  | none => some none
  | some c =>
    match reading with
    | .cursor field => some (some (c.field field))
    | .size => c.room.map some

namespace Coded
open BoundedBytes.Coded

def init (stack : Option (Stack size)) (sentinel bottom : Word) :
    Checked (UInt8 × Option (Stack size)) :=
  command stack fun s => s.init sentinel bottom

def push (stack : Option (Stack size)) (value : UInt8) : Checked (UInt8 × Option (Stack size)) :=
  command stack fun s => s.push value

def pop (stack : Option (Stack size)) (slot : Option UInt8) :
    Checked (UInt8 × Option UInt8 × Option (Stack size)) :=
  fetch stack slot Stack.pop

def read (stack : Option (Stack size)) (reading : Reading) (slot : Option Word) :
    Checked (UInt8 × Option Word) :=
  inspect stack slot fun s => s.view reading

-- A coded call on a stack at hand. Where it is not `given`, the call is made
-- without a container and the stack at hand stays as it is.
inductive Call where
  | init (given : Bool) (sentinel bottom : Word)
  | push (given : Bool) (value : UInt8)
  | pop (given : Bool) (slot : Option UInt8)
  | read (given : Bool) (reading : Reading) (slot : Option Word)
deriving DecidableEq

namespace Call

def given : Call → Bool
  | .init given .. | .push given _ | .pop given _ | .read given .. => given

def slot : Call → Slot
  | .init .. | .push .. => .missing
  | .pop _ slot => .ofByte? slot
  | .read _ _ slot => .ofWord? slot

def reads : Call → Bool
  | .read .. => true
  | .init .. | .push .. | .pop .. => false

def plain? : Call → Option Stack.Call
  | .init true sentinel bottom => some (.init sentinel bottom)
  | .push true value => some (.push value)
  | .pop true (some _) => some .pop
  | _ => none

instance : Numbered Call Stack.Call := ⟨slot, reads, plain?⟩

end Call

def step (s : Stack size) (call : Call) : Checked (Receipt × Stack size) :=
  let stack := if call.given then some s else none
  match call with
  | .init _ sentinel bottom =>
    (Coded.init stack sentinel bottom).map fun (code, next) => (⟨code, .missing⟩, next.getD s)
  | .push _ value =>
    (Coded.push stack value).map fun (code, next) => (⟨code, .missing⟩, next.getD s)
  | .pop _ slot =>
    (Coded.pop stack slot).map fun (code, slot, next) => (⟨code, .ofByte? slot⟩, next.getD s)
  | .read _ reading slot =>
    (Coded.read stack reading slot).map fun (code, slot) => (⟨code, .ofWord? slot⟩, s)

end Coded

abbrev AnyCall := BoundedBytes.AnyCall Call Coded.Call

def anyStep : Stack size → AnyCall → Checked (AnyReply × Stack size) := either step Coded.step

end BoundedBytes.Stack
