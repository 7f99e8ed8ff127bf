import BoundedBytes.Queue.Cursors
import BoundedBytes.Stack.Cursors

namespace BoundedBytes

namespace Word

variable {n offset : Nat} {buffer : Vector UInt8 n} {word : Word}

-- The two bytes at an offset are those of the word.
structure Holds (buffer : Vector UInt8 n) (offset : Nat) (word : Word) : Prop where
  low : buffer[offset]? = some (lowByte word)
  high : buffer[offset + 1]? = some (highByte word)

theorem holds_putAt (word : Word) (fits : offset + 1 < n) :
    Holds (putAt buffer offset word fits) offset word where
  low := by
    rw [putAt, Vector.getElem?_set_ne _ (Nat.succ_ne_self offset), Vector.getElem?_set_self]
  high := by
    rw [putAt, Vector.getElem?_set_self]

-- What a word is laid over is lost, and nothing else.
theorem Holds.putAt (held : Holds buffer offset word) {other : Nat} (fits : other + 1 < n)
    (apart : offset + 1 < other ∨ other + 1 < offset) (laid : Word) :
    Holds (putAt buffer other laid fits) offset word where
  low := by
    rw [Word.putAt, Vector.getElem?_set_ne _ (by omega), Vector.getElem?_set_ne _ (by omega),
      held.low]
  high := by
    rw [Word.putAt, Vector.getElem?_set_ne _ (by omega), Vector.getElem?_set_ne _ (by omega),
      held.high]

theorem Holds.getAt_eq (held : Holds buffer offset word) (fits : offset + 1 < n) :
    getAt buffer offset fits = word := by
  obtain ⟨_, low⟩ := Vector.getElem?_eq_some_iff.mp held.low
  obtain ⟨_, high⟩ := Vector.getElem?_eq_some_iff.mp held.high
  rw [getAt, low, high, ofBytes_halves]

-- Any two bytes are those of some word.
theorem holds_getAt (fits : offset + 1 < n) : Holds buffer offset (getAt buffer offset fits) where
  low := by rw [getAt, lowByte_ofBytes, Vector.getElem?_eq_getElem]
  high := by rw [getAt, highByte_ofBytes, Vector.getElem?_eq_getElem]

-- Buffers that hold one word at an offset have the same bytes there.
theorem Holds.agree {buffer' : Vector UInt8 n} (held : Holds buffer offset word)
    (held' : Holds buffer' offset word) {k : Nat} (place : k = offset ∨ k = offset + 1) :
    buffer[k]? = buffer'[k]? := by
  rcases place with rfl | rfl
  · rw [held.low, held'.low]
  · rw [held.high, held'.high]

end Word

-- Values of so many fields, each a word, as a block of bytes. The words of a value
-- are its fields in the order in which they are to stand in the block, and the
-- index of a field is its number in that order, from zero.
structure Block (γ φ : Type) (fields : Nat) where
  encode : γ → Vector UInt8 (2 * fields)
  decode : Vector UInt8 (2 * fields) → γ
  words : γ → Vector Word fields
  field : γ → φ → Word
  index : φ → Fin fields

namespace Block

def offset (block : Block γ φ n) (f : φ) : Nat := 2 * (block.index f).val

-- No number is without its field, and a value is known by its fields. A field
-- is written at its offset and read from there.
structure Laid (block : Block γ φ n) : Prop where
  onto : ∀ i, ∃ f, block.index f = i
  named : ∀ c f, (block.words c)[block.index f] = block.field c f
  ext : ∀ c d, (∀ f, block.field c f = block.field d f) → c = d
  written : ∀ c f, Word.Holds (block.encode c) (block.offset f) (block.field c f)
  read : ∀ bytes f word, Word.Holds bytes (block.offset f) word →
    block.field (block.decode bytes) f = word

-- Nothing is lost either way. Each word is two bytes at its own place, the value
-- modulo 256 and then the value divided by 256, and a field is no other bytes
-- than those of its word.
structure Faithful (block : Block γ φ n) : Prop where
  decode_encode : ∀ c, block.decode (block.encode c) = c
  encode_decode : ∀ bytes, block.encode (block.decode bytes) = bytes
  low : ∀ c (i : Fin n), (block.encode c)[2 * i.val]?.map UInt8.toNat =
    some ((block.words c)[i].toNat % 256)
  high : ∀ c (i : Fin n), (block.encode c)[2 * i.val + 1]?.map UInt8.toNat =
    some ((block.words c)[i].toNat / 256)
  named : ∀ c f, (block.words c)[block.index f] = block.field c f
  apart : ∀ c d f, (∀ other, other ≠ f → block.field c other = block.field d other) →
    ∀ k, k ≠ 2 * (block.index f).val → k ≠ 2 * (block.index f).val + 1 →
      (block.encode c)[k]? = (block.encode d)[k]?

variable {γ φ : Type} {n : Nat} {block : Block γ φ n}

theorem offset_lt (block : Block γ φ n) (f : φ) : block.offset f + 1 < 2 * n := by
  have number := (block.index f).isLt
  unfold offset
  omega

theorem Laid.covered (laid : block.Laid) {k : Nat} (inside : k < 2 * n) :
    ∃ f, k = block.offset f ∨ k = block.offset f + 1 := by
  obtain ⟨f, place⟩ := laid.onto ⟨k / 2, by omega⟩
  refine ⟨f, ?_⟩
  rw [offset, place]
  show k = 2 * (k / 2) ∨ k = 2 * (k / 2) + 1
  omega

theorem Laid.decode_encode (laid : block.Laid) (c : γ) : block.decode (block.encode c) = c :=
  laid.ext _ _ fun f => laid.read _ f _ (laid.written c f)

theorem Laid.encode_decode (laid : block.Laid) (bytes : Vector UInt8 (2 * n)) :
    block.encode (block.decode bytes) = bytes := by
  apply Vector.ext
  intro k inside
  apply Option.some.inj
  rw [← Vector.getElem?_eq_getElem, ← Vector.getElem?_eq_getElem]
  obtain ⟨f, place⟩ := laid.covered inside
  have held : Word.Holds bytes (block.offset f) _ := Word.holds_getAt (block.offset_lt f)
  have written := laid.written (block.decode bytes) f
  rw [laid.read bytes f _ held] at written
  exact written.agree held place

theorem Laid.apart (laid : block.Laid) {c d : γ} {f : φ}
    (same : ∀ other, other ≠ f → block.field c other = block.field d other) {k : Nat}
    (notLow : k ≠ block.offset f) (notHigh : k ≠ block.offset f + 1) :
    (block.encode c)[k]? = (block.encode d)[k]? := by
  by_cases inside : k < 2 * n
  · obtain ⟨other, place⟩ := laid.covered inside
    have different : other ≠ f := by
      rintro rfl
      exact place.elim notLow notHigh
    have written := laid.written c other
    rw [same other different] at written
    exact written.agree (laid.written d other) place
  · have outside := Nat.le_of_not_lt inside
    rw [Vector.getElem?_eq_none outside, Vector.getElem?_eq_none outside]

theorem Laid.faithful (laid : block.Laid) : block.Faithful where
  decode_encode := laid.decode_encode
  encode_decode := laid.encode_decode
  low c i := by
    obtain ⟨f, rfl⟩ := laid.onto i
    have low := (laid.written c f).low
    rw [offset] at low
    rw [low, Option.map_some, Word.toNat_lowByte, laid.named]
  high c i := by
    obtain ⟨f, rfl⟩ := laid.onto i
    have high := (laid.written c f).high
    rw [offset] at high
    rw [high, Option.map_some, Word.toNat_highByte, laid.named]
  named := laid.named
  apart _ _ _ same _ notLow notHigh := laid.apart same notLow notHigh

end Block

def Stack.Cursors.block : Block Stack.Cursors Stack.Cursors.Field 3 where
  encode := encode
  decode := decode
  words := words
  field := field
  index := Field.index

def Queue.Cursors.block : Block Queue.Cursors Queue.Cursors.Field 5 where
  encode := encode
  decode := decode
  words := words
  field := field
  index := Field.index

-- A field holds its word once it is written, and keeps it while the fields
-- after it are written.
theorem Stack.Cursors.encode_written (c : Stack.Cursors) (f : Field) :
    Word.Holds c.encode f.offset (c.field f) := by
  cases f with
  | sentinel =>
    exact ((Word.holds_putAt _ _).putAt _ (by decide) _).putAt _ (by decide) _
  | bottom => exact (Word.holds_putAt _ _).putAt _ (by decide) _
  | top => exact Word.holds_putAt _ _

theorem Stack.Cursors.block_laid : block.Laid where
  onto
    | 0 => ⟨.sentinel, rfl⟩
    | 1 => ⟨.bottom, rfl⟩
    | 2 => ⟨.top, rfl⟩
  named _ f := by cases f <;> rfl
  ext _ _ := eq_of_fields
  written := encode_written
  read bytes f word held := by
    cases f <;> exact held.getAt_eq _

theorem Queue.Cursors.encode_written (c : Queue.Cursors) (f : Field) :
    Word.Holds c.encode f.offset (c.field f) := by
  cases f with
  | start =>
    exact ((((Word.holds_putAt _ _).putAt _ (by decide) _).putAt _ (by decide) _).putAt _
      (by decide) _).putAt _ (by decide) _
  | stop =>
    exact (((Word.holds_putAt _ _).putAt _ (by decide) _).putAt _ (by decide) _).putAt _
      (by decide) _
  | head => exact ((Word.holds_putAt _ _).putAt _ (by decide) _).putAt _ (by decide) _
  | lastRead => exact (Word.holds_putAt _ _).putAt _ (by decide) _
  | tail => exact Word.holds_putAt _ _

theorem Queue.Cursors.block_laid : block.Laid where
  onto
    | 0 => ⟨.start, rfl⟩
    | 1 => ⟨.stop, rfl⟩
    | 2 => ⟨.head, rfl⟩
    | 3 => ⟨.lastRead, rfl⟩
    | 4 => ⟨.tail, rfl⟩
  named _ f := by cases f <;> rfl
  ext _ _ := eq_of_fields
  written := encode_written
  read bytes f word held := by
    cases f <;> exact held.getAt_eq _

-- The blocks of both containers are read as they are written, whether or not
-- any container has such cursors.
theorem cursors_faithful : Stack.Cursors.block.Faithful ∧ Queue.Cursors.block.Faithful :=
  ⟨Stack.Cursors.block_laid.faithful, Queue.Cursors.block_laid.faithful⟩

end BoundedBytes
