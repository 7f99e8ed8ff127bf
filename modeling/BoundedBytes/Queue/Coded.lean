import BoundedBytes.Coded
import BoundedBytes.Queue.Basic

namespace BoundedBytes.Queue

variable {size : Word}

def view (q : Queue size) (field : Cursors.Field) : Option Word := q.cursors.map (·.field field)

namespace Coded
open BoundedBytes.Coded

def init (queue : Option (Queue size)) (start stop : Word) :
    Checked (UInt8 × Option (Queue size)) :=
  command queue fun q => q.init start stop

def enqueue (queue : Option (Queue size)) (value : UInt8) :
    Checked (UInt8 × Option (Queue size)) :=
  command queue fun q => q.enqueue value

def dequeue (queue : Option (Queue size)) (slot : Option UInt8) :
    Checked (UInt8 × Option UInt8 × Option (Queue size)) :=
  fetch queue slot Queue.dequeue

def read (queue : Option (Queue size)) (field : Cursors.Field) (slot : Option Word) :
    Checked (UInt8 × Option Word) :=
  inspect queue slot fun q => some (q.view field)

-- A coded call on a queue at hand. Where it is not `given`, the call is made
-- without a container and the queue at hand stays as it is.
inductive Call where
  | init (given : Bool) (start stop : Word)
  | enqueue (given : Bool) (value : UInt8)
  | dequeue (given : Bool) (slot : Option UInt8)
  | read (given : Bool) (field : Cursors.Field) (slot : Option Word)
deriving DecidableEq

namespace Call

def given : Call → Bool
  | .init given .. | .enqueue given _ | .dequeue given _ | .read given .. => given

def slot : Call → Slot
  | .init .. | .enqueue .. => .missing
  | .dequeue _ slot => .ofByte? slot
  | .read _ _ slot => .ofWord? slot

def reads : Call → Bool
  | .read .. => true
  | .init .. | .enqueue .. | .dequeue .. => false

def plain? : Call → Option Queue.Call
  | .init true start stop => some (.init start stop)
  | .enqueue true value => some (.enqueue value)
  | .dequeue true (some _) => some .dequeue
  | _ => none

instance : Numbered Call Queue.Call := ⟨slot, reads, plain?⟩

end Call

def step (q : Queue size) (call : Call) : Checked (Receipt × Queue size) :=
  let queue := if call.given then some q else none
  match call with
  | .init _ start stop =>
    (Coded.init queue start stop).map fun (code, next) => (⟨code, .missing⟩, next.getD q)
  | .enqueue _ value =>
    (Coded.enqueue queue value).map fun (code, next) => (⟨code, .missing⟩, next.getD q)
  | .dequeue _ slot =>
    (Coded.dequeue queue slot).map fun (code, slot, next) => (⟨code, .ofByte? slot⟩, next.getD q)
  | .read _ field slot =>
    (Coded.read queue field slot).map fun (code, slot) => (⟨code, .ofWord? slot⟩, q)

end Coded

abbrev AnyCall := BoundedBytes.AnyCall Call Coded.Call

def anyStep : Queue size → AnyCall → Checked (AnyReply × Queue size) := either step Coded.step

end BoundedBytes.Queue
