import BoundedBytes.Container
import BoundedBytes.Memory
import BoundedBytes.Queue.Cursors

namespace BoundedBytes

-- A first-in, first-out store of bytes over an array it owns. It has no bounds
-- until they are set. No count is kept: the queue is empty when `head` meets
-- `tail` and full when `tail` meets the slot just behind `head`. That slot
-- always stays free, so a ring of n slots holds at most n - 1 bytes.
structure Queue (size : Word) where
  contents : Memory size
  cursors : Option Queue.Cursors
deriving DecidableEq

namespace Queue

variable {size : Word}

def new (size : Word) : Queue size := ⟨.zeros, none⟩

-- Makes a ring of the slots from `start` up to, not including, `stop`. What
-- was in the queue is forgotten, though the array is not cleared. Bounds that
-- hold no slot or reach past the array are refused.
def init : Queue size → Word → Word → Checked (Answer (Queue size) Unit)
  | ⟨contents, cursors⟩, start, stop =>
    if !stop.above start || stop.above size then
      some (.error .invalidRange, ⟨contents, cursors⟩)
    else do
      let last ← Word.sub? stop 1
      return (.ok (), ⟨contents, some ⟨start, stop, start, last, start⟩⟩)

def initWhole (q : Queue size) : Checked (Answer (Queue size) Unit) := q.init 0 size

def enqueue : Queue size → UInt8 → Checked (Answer (Queue size) Unit)
  | ⟨contents, none⟩, _ => some (.error .uninitialized, ⟨contents, none⟩)
  | ⟨contents, some c⟩, value =>
    if c.lastRead = c.tail then
      some (.error .full, ⟨contents, some c⟩)
    else do
      let contents ← contents.write c.tail value
      let tail ← c.next c.tail
      return (.ok (), ⟨contents, some { c with tail }⟩)

-- Hands over the oldest byte. Its slot becomes the one that stays free.
def dequeue : Queue size → Checked (Answer (Queue size) UInt8)
  | ⟨contents, none⟩ => some (.error .uninitialized, ⟨contents, none⟩)
  | ⟨contents, some c⟩ =>
    if c.head = c.tail then
      some (.error .empty, ⟨contents, some c⟩)
    else do
      let value ← contents.read c.head
      let head ← c.next c.head
      return (.ok value, ⟨contents, some { c with lastRead := c.head, head }⟩)

def reset : Queue size → Checked (Queue size)
  | ⟨contents, none⟩ => some ⟨contents, none⟩
  | ⟨contents, some c⟩ => do
    let last ← Word.sub? c.stop 1
    return ⟨contents, some { c with head := c.start, tail := c.start, lastRead := last }⟩

-- How many bytes fit at once, one fewer than the ring has slots; none before
-- the bounds are set.
def capacity (q : Queue size) : Checked Nat :=
  match q.cursors with
  | none => some 0
  | some c => do
    let slots ← c.ringSize
    let most ← Word.sub? slots 1
    return most.toNat

def length (q : Queue size) : Checked Nat :=
  match q.cursors with
  | none => some 0
  | some c => c.used.map UInt16.toNat

def isEmpty (q : Queue size) : Checked Bool := q.length.map (· == 0)

-- Whether the next insertion is refused for want of room. A queue without
-- bounds is not full.
def isFull (q : Queue size) : Bool := q.cursors.any fun c => c.lastRead == c.tail

instance : Container (Queue size) where
  insert := enqueue
  remove := dequeue
  occupancy q := do return ⟨← q.capacity, ← q.length, ← q.isEmpty, q.isFull⟩

-- Every call that may change a queue.
inductive Call where
  | init (start stop : Word)
  | initWhole
  | enqueue (value : UInt8)
  | dequeue
  | reset
deriving DecidableEq

def Call.keepsBounds : Call → Bool
  | .init .. | .initWhole => false
  | .enqueue _ | .dequeue | .reset => true

def step (q : Queue size) : Call → Checked (Reply × Queue size)
  | .init start stop => (q.init start stop).map Answer.silent
  | .initWhole => q.initWhole.map Answer.silent
  | .enqueue value => (q.enqueue value).map Answer.silent
  | .dequeue => q.dequeue.map Answer.handing
  | .reset => q.reset.map fun next => (.ok none, next)

namespace Cursors

def following (c : Cursors) (slot : Nat) : Nat :=
  if slot + 1 = c.stop.toNat then c.start.toNat else slot + 1

-- So many slots in the order of the ring, from a given one on.
def walk (c : Cursors) (slot : Nat) : Nat → List Nat
  | 0 => []
  | count + 1 => slot :: c.walk (c.following slot) count

-- The slots that hold unread bytes, the oldest first: from the head on round
-- the ring, up to the tail.
def unreadSlots (c : Cursors) : List Nat :=
  (c.walk c.head.toNat (c.stop.toNat - c.start.toNat)).takeWhile (· != c.tail.toNat)

-- Usable cursors: the ring holds a slot and lies in the array, the other
-- cursors lie in the ring, and `lastRead` is just behind the head.
structure Within (size : Word) (c : Cursors) : Prop where
  room : c.start < c.stop
  inside : c.stop ≤ size
  head : c.start ≤ c.head ∧ c.head < c.stop
  lastRead : c.start ≤ c.lastRead ∧ c.lastRead < c.stop
  tail : c.start ≤ c.tail ∧ c.tail < c.stop
  behind : c.following c.lastRead.toNat = c.head.toNat

theorem next_of_mem {c : Cursors} {cursor : Word} (upper : cursor < c.stop) :
    ∃ further, c.next cursor = some further ∧ further.toNat = c.following cursor.toNat := by
  have bound := c.stop.toNat_lt
  have below := UInt16.lt_iff_toNat_lt.mp upper
  obtain ⟨last, found, position⟩ := Word.exists_sub? (a := c.stop) (b := 1) (by simp; omega)
  have one : (1 : Word).toNat = 1 := rfl
  rw [one] at position
  by_cases final : cursor = last
  · subst cursor
    exact ⟨c.start, by simp [next, found], by simp [following, position]⟩
  · have apart : cursor.toNat ≠ last.toNat := fun equal => final (UInt16.toNat_inj.mp equal)
    obtain ⟨further, moved, ahead⟩ := Word.exists_add? (a := cursor) (b := 1) (by simp; omega)
    rw [one] at ahead
    refine ⟨further, by simp [next, found, final, moved], ?_⟩
    rw [following, if_neg (by omega), ahead]

end Cursors

-- A queue has no bounds or usable ones.
def Valid (q : Queue size) : Prop := ∀ c, q.cursors = some c → c.Within size

-- The unread bytes of a queue, the oldest first.
def bytes (q : Queue size) : List UInt8 :=
  match q.cursors with
  | none => []
  | some c => c.unreadSlots.filterMap (q.contents[·]?)

theorem valid_new (size : Word) : Valid (new size) := by
  intro c present
  cases present

theorem enqueue_of_room {contents : Memory size} {c : Cursors} (within : c.Within size)
    (room : c.lastRead ≠ c.tail) (value : UInt8) :
    ∃ tail : Word, tail.toNat = c.following c.tail.toNat ∧
      ∃ inside : c.tail.toNat < size.toNat,
        enqueue ⟨contents, some c⟩ value =
          some (.ok (), ⟨contents.set c.tail.toNat value inside, some { c with tail }⟩) := by
  obtain ⟨tail, moved, position⟩ := Cursors.next_of_mem within.tail.2
  have below := UInt16.lt_iff_toNat_lt.mp within.tail.2
  have fits := UInt16.le_iff_toNat_le.mp within.inside
  have inside : c.tail.toNat < size.toNat := by omega
  exact ⟨tail, position, inside, by simp [enqueue, room, moved, Memory.write_eq _ inside]⟩

theorem dequeue_of_byte {contents : Memory size} {c : Cursors} (within : c.Within size)
    (held : c.head ≠ c.tail) :
    ∃ head : Word, head.toNat = c.following c.head.toNat ∧
      ∃ inside : c.head.toNat < size.toNat,
        dequeue ⟨contents, some c⟩ =
          some (.ok contents[c.head.toNat],
            ⟨contents, some { c with lastRead := c.head, head }⟩) := by
  obtain ⟨head, moved, position⟩ := Cursors.next_of_mem within.head.2
  have below := UInt16.lt_iff_toNat_lt.mp within.head.2
  have fits := UInt16.le_iff_toNat_le.mp within.inside
  have inside : c.head.toNat < size.toNat := by omega
  exact ⟨head, position, inside, by simp [dequeue, held, moved, Memory.read_eq _ inside]⟩

end Queue

end BoundedBytes
