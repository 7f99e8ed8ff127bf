import BoundedBytes.Render
import BoundedBytes.Word

namespace BoundedBytes.Stack

-- Where a stack lives in its array. It grows from `sentinel` down to `bottom`.
structure Cursors where
  -- one above the highest slot
  sentinel : Word
  -- the lowest slot
  bottom : Word
  -- the slot of the latest push, or the sentinel when there is none
  top : Word
deriving DecidableEq

namespace Cursors

inductive Field where
  | sentinel | bottom | top
deriving DecidableEq

def Field.index : Field → Fin 3
  | .sentinel => 0
  | .bottom => 1
  | .top => 2

def Field.offset (field : Field) : Nat := 2 * field.index.val

def field (c : Cursors) : Field → Word
  | .sentinel => c.sentinel
  | .bottom => c.bottom
  | .top => c.top

theorem eq_of_fields {c d : Cursors} (same : ∀ f, c.field f = d.field f) : c = d := by
  have sentinel : c.sentinel = d.sentinel := same .sentinel
  have bottom : c.bottom = d.bottom := same .bottom
  have top : c.top = d.top := same .top
  cases c
  cases d
  cases sentinel
  cases bottom
  cases top
  rfl

def words (c : Cursors) : Vector Word 3 := #v[c.sentinel, c.bottom, c.top]

def ofWords (words : Vector Word 3) : Cursors := ⟨words[0], words[1], words[2]⟩

def encodedLength : Nat := 6

-- The block as code beyond the container sees it: three little-endian words,
-- each laid at the offset of its field.
def encode (c : Cursors) : Vector UInt8 encodedLength :=
  let block := .replicate encodedLength 0
  let block := Word.putAt block (Field.offset .sentinel) c.sentinel (by decide)
  let block := Word.putAt block (Field.offset .bottom) c.bottom (by decide)
  Word.putAt block (Field.offset .top) c.top (by decide)

-- Every six bytes are the block of some cursors, usable or not.
def decode (block : Vector UInt8 encodedLength) : Cursors where
  sentinel := Word.getAt block (Field.offset .sentinel) (by decide)
  bottom := Word.getAt block (Field.offset .bottom) (by decide)
  top := Word.getAt block (Field.offset .top) (by decide)

instance : Render Cursors where
  render c := renderFields "StackCursors"
    [("top_sentinel", render c.sentinel), ("bottom", render c.bottom), ("top", render c.top)]

def room (c : Cursors) : Checked Word := Word.sub? c.sentinel c.bottom

def used (c : Cursors) : Checked Word := Word.sub? c.sentinel c.top

end Cursors

end BoundedBytes.Stack
