import BoundedBytes.Word

namespace BoundedBytes

-- The array behind a container: a fixed number of bytes, addressed by words.
abbrev Memory (size : Word) := Vector UInt8 size.toNat

namespace Memory

variable {size : Word}

def zeros : Memory size := .replicate size.toNat 0

-- Reading and writing outside the array are faults.
def read (memory : Memory size) (address : Word) : Checked UInt8 := memory[address.toNat]?

def write (memory : Memory size) (address : Word) (value : UInt8) : Checked (Memory size) :=
  if inside : address.toNat < size.toNat then some (memory.set address.toNat value inside) else none

theorem read_eq (memory : Memory size) {address : Word} (inside : address.toNat < size.toNat) :
    memory.read address = some memory[address.toNat] := by
  simp [read, inside]

theorem write_eq (memory : Memory size) {address : Word} (inside : address.toNat < size.toNat)
    (value : UInt8) : memory.write address value = some (memory.set address.toNat value inside) := by
  simp [write, inside]

theorem getElem?_write {memory next : Memory size} {address : Word} {value : UInt8}
    (written : memory.write address value = some next) (i : Nat) :
    next[i]? = if i = address.toNat then some value else memory[i]? := by
  unfold write at written
  split at written
  · rename_i inside
    cases Option.some.inj written
    rw [Vector.getElem?_set]
    by_cases same : address.toNat = i
    · rw [if_pos same, if_pos same.symm]
    · rw [if_neg same, if_neg (Ne.symm same)]
  · cases written

end Memory

end BoundedBytes
