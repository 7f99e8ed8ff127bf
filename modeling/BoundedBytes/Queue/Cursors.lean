import BoundedBytes.Render
import BoundedBytes.Word

namespace BoundedBytes.Queue

-- Where a queue lives in its array: a ring of the slots from `start` up to,
-- not including, `stop`.
structure Cursors where
  -- the first slot of the ring
  start : Word
  -- one above the last slot of the ring
  stop : Word
  -- the next slot to read
  head : Word
  -- the slot just behind `head`, which is never written
  lastRead : Word
  -- the next slot to write
  tail : Word
deriving DecidableEq

namespace Cursors

inductive Field where
  | start | stop | head | lastRead | tail
deriving DecidableEq

def Field.index : Field → Fin 5
  | .start => 0
  | .stop => 1
  | .head => 2
  | .lastRead => 3
  | .tail => 4

def Field.offset (field : Field) : Nat := 2 * field.index.val

def field (c : Cursors) : Field → Word
  | .start => c.start
  | .stop => c.stop
  | .head => c.head
  | .lastRead => c.lastRead
  | .tail => c.tail

theorem eq_of_fields {c d : Cursors} (same : ∀ f, c.field f = d.field f) : c = d := by
  have start : c.start = d.start := same .start
  have stop : c.stop = d.stop := same .stop
  have head : c.head = d.head := same .head
  have lastRead : c.lastRead = d.lastRead := same .lastRead
  have tail : c.tail = d.tail := same .tail
  cases c
  cases d
  cases start
  cases stop
  cases head
  cases lastRead
  cases tail
  rfl

def words (c : Cursors) : Vector Word 5 := #v[c.start, c.stop, c.head, c.lastRead, c.tail]

def ofWords (words : Vector Word 5) : Cursors :=
  ⟨words[0], words[1], words[2], words[3], words[4]⟩

def encodedLength : Nat := 10

-- The block as code beyond the container sees it: five little-endian words,
-- each laid at the offset of its field.
def encode (c : Cursors) : Vector UInt8 encodedLength :=
  let block := .replicate encodedLength 0
  let block := Word.putAt block (Field.offset .start) c.start (by decide)
  let block := Word.putAt block (Field.offset .stop) c.stop (by decide)
  let block := Word.putAt block (Field.offset .head) c.head (by decide)
  let block := Word.putAt block (Field.offset .lastRead) c.lastRead (by decide)
  Word.putAt block (Field.offset .tail) c.tail (by decide)

-- Every ten bytes are the block of some cursors, usable or not.
def decode (block : Vector UInt8 encodedLength) : Cursors where
  start := Word.getAt block (Field.offset .start) (by decide)
  stop := Word.getAt block (Field.offset .stop) (by decide)
  head := Word.getAt block (Field.offset .head) (by decide)
  lastRead := Word.getAt block (Field.offset .lastRead) (by decide)
  tail := Word.getAt block (Field.offset .tail) (by decide)

instance : Render Cursors where
  render c := renderFields "QueueCursors"
    [("start", render c.start), ("queue_end", render c.stop), ("head", render c.head),
      ("last_head", render c.lastRead), ("tail", render c.tail)]

-- One slot further round the ring: after the last slot comes the first.
def next (c : Cursors) (cursor : Word) : Checked Word :=
  match Word.sub? c.stop 1 with
  | none => none
  | some last => if cursor = last then some c.start else Word.add? cursor 1

def ringSize (c : Cursors) : Checked Word := Word.sub? c.stop c.start

-- The number of slots from `head` on to `tail`. When the tail has wrapped and
-- the head has not, it is the ring less the gap between them.
def used (c : Cursors) : Checked Word :=
  if c.tail.atLeast c.head then
    Word.sub? c.tail c.head
  else do
    let slots ← c.ringSize
    let gap ← Word.sub? c.head c.tail
    Word.sub? slots gap

end Cursors

end BoundedBytes.Queue
