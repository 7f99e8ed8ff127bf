import BoundedBytes.Container
import BoundedBytes.Memory
import BoundedBytes.Stack.Cursors

namespace BoundedBytes

-- A last-in, first-out store of bytes over an array it owns. It has no bounds
-- until they are set. No count is kept: the stack is empty when `top` is on
-- the sentinel and full when it is on the bottom.
structure Stack (size : Word) where
  contents : Memory size
  cursors : Option Stack.Cursors
deriving DecidableEq

namespace Stack

variable {size : Word}

def new (size : Word) : Stack size := ⟨.zeros, none⟩

-- Takes the slots from `bottom` up to, not including, `sentinel`. What was on
-- the stack is forgotten, though the array is not cleared. Bounds that hold no
-- slot or reach past the array are refused.
def init (s : Stack size) (sentinel bottom : Word) : Checked (Answer (Stack size) Unit) :=
  if !sentinel.above bottom || sentinel.above size then
    some (.error .invalidRange, s)
  else
    some (.ok (), { s with cursors := some ⟨sentinel, bottom, sentinel⟩ })

def initWhole (s : Stack size) : Checked (Answer (Stack size) Unit) := s.init size 0

def push : Stack size → UInt8 → Checked (Answer (Stack size) Unit)
  | ⟨contents, none⟩, _ => some (.error .uninitialized, ⟨contents, none⟩)
  | ⟨contents, some c⟩, value =>
    if c.top = c.bottom then
      some (.error .overflow, ⟨contents, some c⟩)
    else do
      let top ← Word.sub? c.top 1
      let contents ← contents.write top value
      return (.ok (), ⟨contents, some { c with top }⟩)

-- Hands over the latest byte. Its slot keeps the byte but is free again.
def pop : Stack size → Checked (Answer (Stack size) UInt8)
  | ⟨contents, none⟩ => some (.error .uninitialized, ⟨contents, none⟩)
  | ⟨contents, some c⟩ =>
    if c.top = c.sentinel then
      some (.error .underflow, ⟨contents, some c⟩)
    else do
      let value ← contents.read c.top
      let top ← Word.add? c.top 1
      return (.ok value, ⟨contents, some { c with top }⟩)

def peek (s : Stack size) : Checked (Outcome UInt8) :=
  match s.cursors with
  | none => some (.error .uninitialized)
  | some c =>
    if c.top = c.sentinel then some (.error .underflow)
    else (s.contents.read c.top).map .ok

def reset (s : Stack size) : Stack size :=
  { s with cursors := s.cursors.map fun c => { c with top := c.sentinel } }

-- How many bytes fit between the bounds; none before they are set.
def capacity (s : Stack size) : Checked Nat :=
  match s.cursors with
  | none => some 0
  | some c => c.room.map UInt16.toNat

def length (s : Stack size) : Checked Nat :=
  match s.cursors with
  | none => some 0
  | some c => c.used.map UInt16.toNat

def isEmpty (s : Stack size) : Checked Bool := s.length.map (· == 0)

-- Whether the next push overflows. A stack without bounds is not full.
def isFull (s : Stack size) : Bool := s.cursors.any fun c => c.top == c.bottom

instance : Container (Stack size) where
  insert := push
  remove := pop
  occupancy s := do return ⟨← s.capacity, ← s.length, ← s.isEmpty, s.isFull⟩

-- Every call that may change a stack, and `peek`, which may be refused.
inductive Call where
  | init (sentinel bottom : Word)
  | initWhole
  | push (value : UInt8)
  | pop
  | peek
  | reset
deriving DecidableEq

def Call.keepsBounds : Call → Bool
  | .init .. | .initWhole => false
  | .push _ | .pop | .peek | .reset => true

def step (s : Stack size) : Call → Checked (Reply × Stack size)
  | .init sentinel bottom => (s.init sentinel bottom).map Answer.silent
  | .initWhole => s.initWhole.map Answer.silent
  | .push value => (s.push value).map Answer.silent
  | .pop => s.pop.map Answer.handing
  | .peek => s.peek.map fun outcome => (outcome.map some, s)
  | .reset => some (.ok none, s.reset)

namespace Cursors

-- Usable cursors: the bounds hold a slot and lie in the array, and the top is
-- between them. The top may be on either bound.
structure Within (size : Word) (c : Cursors) : Prop where
  room : c.bottom < c.sentinel
  inside : c.sentinel ≤ size
  above : c.bottom ≤ c.top
  below : c.top ≤ c.sentinel

-- The slots that hold bytes, the latest first.
def liveSlots (c : Cursors) : List Nat :=
  List.range' c.top.toNat (c.sentinel.toNat - c.top.toNat)

end Cursors

-- A stack has no bounds or usable ones.
def Valid (s : Stack size) : Prop := ∀ c, s.cursors = some c → c.Within size

-- The bytes on a stack, the latest first.
def bytes (s : Stack size) : List UInt8 :=
  match s.cursors with
  | none => []
  | some c => c.liveSlots.filterMap (s.contents[·]?)

theorem valid_new (size : Word) : Valid (new size) := by
  intro c present
  cases present

theorem push_of_room {contents : Memory size} {c : Cursors} (within : c.Within size)
    (room : c.bottom < c.top) (value : UInt8) :
    ∃ top : Word, top.toNat + 1 = c.top.toNat ∧ ∃ inside : top.toNat < size.toNat,
      push ⟨contents, some c⟩ value =
        some (.ok (), ⟨contents.set top.toNat value inside, some { c with top }⟩) := by
  have lower := UInt16.lt_iff_toNat_lt.mp room
  have upper := UInt16.le_iff_toNat_le.mp within.below
  have fits := UInt16.le_iff_toNat_le.mp within.inside
  obtain ⟨top, moved, position⟩ := Word.exists_sub? (a := c.top) (b := 1) (by simp; omega)
  have inside : top.toNat < size.toNat := by simp at position; omega
  have different : c.top ≠ c.bottom := fun equal => by rw [equal] at lower; omega
  exact ⟨top, position, inside, by simp [push, different, moved, Memory.write_eq _ inside]⟩

theorem pop_of_byte {contents : Memory size} {c : Cursors} (within : c.Within size)
    (held : c.top < c.sentinel) :
    ∃ top : Word, top.toNat = c.top.toNat + 1 ∧ ∃ inside : c.top.toNat < size.toNat,
      pop ⟨contents, some c⟩ =
        some (.ok contents[c.top.toNat], ⟨contents, some { c with top }⟩) := by
  have lower := UInt16.lt_iff_toNat_lt.mp held
  have fits := UInt16.le_iff_toNat_le.mp within.inside
  have bound := size.toNat_lt
  obtain ⟨top, moved, position⟩ := Word.exists_add? (a := c.top) (b := 1) (by simp; omega)
  have inside : c.top.toNat < size.toNat := by omega
  have different : c.top ≠ c.sentinel := fun equal => by rw [equal] at lower; omega
  exact ⟨top, position, inside, by simp [pop, different, moved, Memory.read_eq _ inside]⟩

end Stack

end BoundedBytes
