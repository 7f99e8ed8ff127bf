import BoundedBytes.Demo.Arithmetic
import BoundedBytes.Queue.Coded
import BoundedBytes.Stack.Coded

namespace BoundedBytes.Demo
open Trial

-- One container of each kind and the two slots that all calls share.
structure CodedSubject where
  stack : Stack 32
  queue : Queue 32
  value : UInt8
  address : Word

namespace CodedSubject

def stackCommand (call : Option (Stack 32) → Checked (UInt8 × Option (Stack 32)))
    (subject : CodedSubject) : Checked (UInt8 × CodedSubject) :=
  (call (some subject.stack)).map fun (code, stack) =>
    (code, { subject with stack := stack.getD subject.stack })

def queueCommand (call : Option (Queue 32) → Checked (UInt8 × Option (Queue 32)))
    (subject : CodedSubject) : Checked (UInt8 × CodedSubject) :=
  (call (some subject.queue)).map fun (code, queue) =>
    (code, { subject with queue := queue.getD subject.queue })

def pop (subject : CodedSubject) : Checked (UInt8 × CodedSubject) :=
  (Stack.Coded.pop (some subject.stack) (some subject.value)).map fun (code, slot, stack) =>
    (code, { subject with
      stack := stack.getD subject.stack, value := slot.getD subject.value })

def dequeue (subject : CodedSubject) : Checked (UInt8 × CodedSubject) :=
  (Queue.Coded.dequeue (some subject.queue) (some subject.value)).map fun (code, slot, queue) =>
    (code, { subject with
      queue := queue.getD subject.queue, value := slot.getD subject.value })

def readSize (subject : CodedSubject) : Checked (UInt8 × CodedSubject) :=
  (Stack.Coded.read (some subject.stack) .size (some subject.address)).map fun (code, slot) =>
    (code, { subject with address := slot.getD subject.address })

def readLastRead (subject : CodedSubject) : Checked (UInt8 × CodedSubject) :=
  (Queue.Coded.read (some subject.queue) .lastRead (some subject.address)).map fun (code, slot) =>
    (code, { subject with address := slot.getD subject.address })

end CodedSubject

-- Both containers driven by numbers, with containers and slots left out.
def codedTrial : Trial CodedSubject Unit := do
  let missingStack : Option (Stack 32) := none
  let missingQueue : Option (Queue 32) := none
  let null := Error.nullReference.code
  expect (← inspect fun _ => (Stack.Coded.init missingStack 32 0).map (·.1)) null "null stack init"
  expect (← inspect fun _ => (Stack.Coded.push missingStack 1).map (·.1)) null "null stack push"
  expect (← inspect fun s => (Stack.Coded.pop missingStack (some s.value)).map (·.1)) null
    "null stack pop"
  expect (← attempt (·.stackCommand (Stack.Coded.init · 32 0))) Coded.ok "stack init"
  expect (← attempt CodedSubject.readSize) Coded.ok "stack size"
  expect (← inspect fun s => some s.address) 32 "stack size should be 32"
  expect (← attempt (·.stackCommand (Stack.Coded.push · 5))) Coded.ok "stack push"
  expect (← attempt (·.stackCommand fun stack =>
    (Stack.Coded.pop stack none).map fun (code, _, next) => (code, next))) null "pop without a slot"
  expect (← attempt CodedSubject.pop) Coded.ok "stack pop"
  expect (← inspect fun s => some s.value) 5 "popped value should be 5"
  expect (← attempt CodedSubject.pop) Error.underflow.code "empty stack pop"
  expect (← inspect fun _ => (Queue.Coded.init missingQueue 0 32).map (·.1)) null "null queue init"
  expect (← inspect fun _ => (Queue.Coded.enqueue missingQueue 1).map (·.1)) null "null queue put"
  expect (← attempt (·.queueCommand (Queue.Coded.init · 0 32))) Coded.ok "queue init"
  expect (← attempt (·.queueCommand (Queue.Coded.enqueue · 7))) Coded.ok "queue put"
  expect (← attempt CodedSubject.dequeue) Coded.ok "queue get"
  expect (← inspect fun s => some s.value) 7 "got value should be 7"
  expect (← attempt CodedSubject.dequeue) Error.empty.code "empty queue get"
  expect (← attempt CodedSubject.readLastRead) Coded.ok "last head"
  expect (← inspect fun s => some s.address) 0 "last head should be the slot just read"

def codedLog : Checked Log := codedTrial.log "status codes" ⟨.new 32, .new 32, 0, 0⟩

end BoundedBytes.Demo
