import BoundedBytes.Checked
import BoundedBytes.Error

namespace BoundedBytes

-- Addresses and sizes are unsigned 16-bit words. An address is an offset into
-- an array of at most 65535 bytes.
abbrev Word := UInt16

namespace Word

def ofNat? (n : Nat) : Option Word :=
  if n < UInt16.size then some (UInt16.ofNat n) else none

-- Two bytes are widened before they are added, so that no sum is lost.
def addBytes (a b : UInt8) : Word := a.toUInt16 + b.toUInt16

-- Sums and differences are taken at twice the width. The low half is the
-- wrapped answer; the high half is zero unless the operation left the range.
def halves (wide : UInt32) : Word × Bool := (wide.toUInt16, wide >>> 16 != 0)

def addWithCarry (a b : Word) : Word × Bool := halves (a.toUInt32 + b.toUInt32)

def subWithBorrow (a b : Word) : Word × Bool := halves (a.toUInt32 - b.toUInt32)

def add? (a b : Word) : Checked Word :=
  let (sum, carry) := addWithCarry a b
  if carry then none else some sum

def sub? (a b : Word) : Checked Word :=
  let (difference, borrow) := subWithBorrow a b
  if borrow then none else some difference

-- The address a given distance further on. Leaving the address space is an
-- error of the caller, not a fault.
def offset (address distance : Word) : Outcome Word :=
  match addWithCarry address distance with
  | (sum, false) => .ok sum
  | (_, true) => .error .overflow

-- Order is decided by borrows alone, hence without regard to any sign bit:
-- `a` is above `b` when `a` cannot be taken from `b`.
def above (a b : Word) : Bool := (subWithBorrow b a).2

def atLeast (a b : Word) : Bool := !(subWithBorrow a b).2

-- Adds words one after the other, wrapping, and counts the carries.
def addAll (start : Word) (words : List Word) : Word × Nat :=
  words.foldl (fun (sum, carries) word =>
    let (next, carry) := addWithCarry sum word
    (next, carries + carry.toNat)) (start, 0)

-- Moves an address on by one distance after the other, up to the first that
-- leaves the address space.
def offsetAll (start : Word) (distances : List Word) : Outcome Word := distances.foldlM offset start

theorem halves_fst (wide : UInt32) : (halves wide).1.toNat = wide.toNat % 65536 := rfl

theorem halves_snd (wide : UInt32) : (halves wide).2 = decide (65536 ≤ wide.toNat) := by
  have high : (wide >>> 16).toNat = wide.toNat / 65536 := by
    simp [UInt32.toNat_shiftRight, Nat.shiftRight_eq_div_pow]
  have zero : wide >>> 16 = 0 ↔ wide.toNat < 65536 := by
    rw [← UInt32.toNat_inj, high, UInt32.toNat_zero, Nat.div_eq_zero_iff]
    simp
  by_cases low : wide.toNat < 65536
  · simp [halves, zero.mpr low, low]
  · have nonzero : wide >>> 16 ≠ 0 := fun equal => low (zero.mp equal)
    rw [decide_eq_true (Nat.le_of_not_lt low)]
    exact bne_iff_ne.mpr nonzero

theorem toNat_wide_add (a b : Word) : (a.toUInt32 + b.toUInt32).toNat = a.toNat + b.toNat := by
  have boundA := a.toNat_lt
  have boundB := b.toNat_lt
  rw [UInt32.toNat_add, UInt16.toNat_toUInt32, UInt16.toNat_toUInt32]
  omega

theorem toNat_wide_sub (a b : Word) :
    (a.toUInt32 - b.toUInt32).toNat = (4294967296 - b.toNat + a.toNat) % 4294967296 := by
  rw [UInt32.toNat_sub, UInt16.toNat_toUInt32, UInt16.toNat_toUInt32]

theorem toNat_addWithCarry (a b : Word) :
    (addWithCarry a b).1.toNat = (a.toNat + b.toNat) % 65536 := by
  rw [addWithCarry, halves_fst, toNat_wide_add]

theorem carry_eq (a b : Word) : (addWithCarry a b).2 = decide (65536 ≤ a.toNat + b.toNat) := by
  rw [addWithCarry, halves_snd, toNat_wide_add]

theorem toNat_subWithBorrow (a b : Word) :
    (subWithBorrow a b).1.toNat = (65536 - b.toNat + a.toNat) % 65536 := by
  have boundA := a.toNat_lt
  have boundB := b.toNat_lt
  rw [subWithBorrow, halves_fst, toNat_wide_sub]
  omega

theorem borrow_eq (a b : Word) : (subWithBorrow a b).2 = decide (a.toNat < b.toNat) := by
  have boundA := a.toNat_lt
  have boundB := b.toNat_lt
  rw [subWithBorrow, halves_snd, toNat_wide_sub]
  congr 1
  apply propext
  omega

theorem add?_eq_some_iff {a b sum : Word} :
    add? a b = some sum ↔ sum.toNat = a.toNat + b.toNat := by
  have boundA := a.toNat_lt
  have boundB := b.toNat_lt
  have bound := sum.toNat_lt
  have value := toNat_addWithCarry a b
  have carry := carry_eq a b
  by_cases out : 65536 ≤ a.toNat + b.toNat
  · simp [add?, carry, out]
    omega
  · simp [add?, carry, out, ← UInt16.toNat_inj, value]
    omega

theorem sub?_eq_some_iff {a b difference : Word} :
    sub? a b = some difference ↔ difference.toNat + b.toNat = a.toNat := by
  have boundA := a.toNat_lt
  have boundB := b.toNat_lt
  have bound := difference.toNat_lt
  have value := toNat_subWithBorrow a b
  have borrow := borrow_eq a b
  by_cases out : a.toNat < b.toNat
  · simp [sub?, borrow, out]
    omega
  · simp [sub?, borrow, out, ← UInt16.toNat_inj, value]
    omega

theorem exists_add? {a b : Word} (fits : a.toNat + b.toNat < 65536) :
    ∃ sum, add? a b = some sum ∧ sum.toNat = a.toNat + b.toNat := by
  have position : (UInt16.ofNat (a.toNat + b.toNat)).toNat = a.toNat + b.toNat :=
    UInt16.toNat_ofNat_of_lt' fits
  exact ⟨_, add?_eq_some_iff.mpr position, position⟩

theorem exists_sub? {a b : Word} (fits : b.toNat ≤ a.toNat) :
    ∃ difference, sub? a b = some difference ∧ difference.toNat + b.toNat = a.toNat := by
  have bound := a.toNat_lt
  have position : (UInt16.ofNat (a.toNat - b.toNat)).toNat + b.toNat = a.toNat := by
    rw [UInt16.toNat_ofNat_of_lt' (by simp [UInt16.size]; omega)]
    omega
  exact ⟨_, sub?_eq_some_iff.mpr position, position⟩

theorem above_eq (a b : Word) : above a b = decide (b.toNat < a.toNat) := borrow_eq b a

theorem atLeast_eq (a b : Word) : atLeast a b = decide (b.toNat ≤ a.toNat) := by
  rw [atLeast, borrow_eq, ← decide_not, decide_eq_decide]
  exact Nat.not_lt

def lowByte (word : Word) : UInt8 := word.toUInt8

def highByte (word : Word) : UInt8 := (word >>> 8).toUInt8

def ofBytes (low high : UInt8) : Word := low.toUInt16 ||| high.toUInt16 <<< 8

-- Words are laid into a buffer little-endian: at the offset the low byte, and
-- the high byte after it.
def putAt (buffer : Vector UInt8 n) (offset : Nat) (word : Word) (fits : offset + 1 < n) :
    Vector UInt8 n :=
  (buffer.set offset (lowByte word)).set (offset + 1) (highByte word)

def getAt (buffer : Vector UInt8 n) (offset : Nat) (fits : offset + 1 < n) : Word :=
  ofBytes buffer[offset] buffer[offset + 1]

theorem toNat_lowByte (word : Word) : (lowByte word).toNat = word.toNat % 256 := rfl

theorem toNat_highByte (word : Word) : (highByte word).toNat = word.toNat / 256 := by
  have bound := word.toNat_lt
  simp [highByte, Nat.shiftRight_eq_div_pow]
  omega

theorem toNat_ofBytes (low high : UInt8) : (ofBytes low high).toNat = low.toNat + 256 * high.toNat := by
  have boundLow := low.toNat_lt
  have boundHigh := high.toNat_lt
  have shifted : (high.toUInt16 <<< 8).toNat = high.toNat <<< 8 := by
    simp [Nat.shiftLeft_eq]
    omega
  rw [ofBytes, UInt16.toNat_or, shifted, UInt8.toNat_toUInt16, Nat.or_comm,
    ← Nat.shiftLeft_add_eq_or_of_lt boundLow, Nat.shiftLeft_eq]
  omega

theorem ofBytes_halves (word : Word) : ofBytes (lowByte word) (highByte word) = word := by
  rw [← UInt16.toNat_inj, toNat_ofBytes, toNat_lowByte, toNat_highByte]
  exact Nat.mod_add_div word.toNat 256

theorem lowByte_ofBytes (low high : UInt8) : lowByte (ofBytes low high) = low := by
  have bound := low.toNat_lt
  rw [← UInt8.toNat_inj, toNat_lowByte, toNat_ofBytes]
  omega

theorem highByte_ofBytes (low high : UInt8) : highByte (ofBytes low high) = high := by
  have bound := low.toNat_lt
  rw [← UInt8.toNat_inj, toNat_highByte, toNat_ofBytes]
  omega

end Word

end BoundedBytes
