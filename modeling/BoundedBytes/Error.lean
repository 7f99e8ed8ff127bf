namespace BoundedBytes

-- Everything a container, or a call that drives one by numbers, can refuse.
inductive Error where
  -- a container or an output slot was not handed over
  | nullReference
  -- the bounds do not describe a usable part of the array
  | invalidRange
  -- a push into a full stack, or an address past the last one
  | overflow
  -- a pop from an empty stack
  | underflow
  -- an insertion into a full queue
  | full
  -- a removal from an empty queue
  | empty
  -- no bounds have been set yet
  | uninitialized
deriving DecidableEq, Repr

namespace Error

def all : List Error :=
  [nullReference, invalidRange, overflow, underflow, full, empty, uninitialized]

theorem mem_all (e : Error) : e ∈ all := by
  cases e <;> decide

-- Codes are stable and never zero; zero is left for success.
def code : Error → UInt8
  | nullReference => 1
  | invalidRange => 2
  | overflow => 3
  | underflow => 4
  | full => 5
  | empty => 6
  | uninitialized => 7

-- Zero and the numbers above seven stand for no error.
def ofCode? (code : UInt8) : Option Error :=
  match code with
  | 1 => some nullReference
  | 2 => some invalidRange
  | 3 => some overflow
  | 4 => some underflow
  | 5 => some full
  | 6 => some empty
  | 7 => some uninitialized
  | _ => none

def name : Error → String
  | nullReference => "NullPointer"
  | invalidRange => "InvalidRange"
  | overflow => "Overflow"
  | underflow => "Underflow"
  | full => "Full"
  | empty => "Empty"
  | uninitialized => "Uninitialized"

def ofName? (name : String) : Option Error := all.find? (·.name == name)

def message : Error → String
  | nullReference => "a required reference was null"
  | invalidRange => "bounds do not describe a usable buffer"
  | overflow => "overflow"
  | underflow => "underflow"
  | full => "queue is full"
  | empty => "queue is empty"
  | uninitialized => "structure has not been initialised"

@[simp] theorem ofCode?_code (e : Error) : ofCode? e.code = some e := by
  cases e <;> rfl

theorem code_ne_zero (e : Error) : e.code ≠ 0 := by
  cases e <;> decide

end Error

abbrev Outcome (α : Type u) := Except Error α

instance [BEq α] : BEq (Outcome α) where
  beq
    | .ok a, .ok b => a == b
    | .error e, .error f => e == f
    | _, _ => false

end BoundedBytes
