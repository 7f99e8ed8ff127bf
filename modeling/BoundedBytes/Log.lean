import BoundedBytes.Checked

namespace BoundedBytes

-- Counts of checks are unsigned 32-bit numbers.
abbrev Count := UInt32

def Count.add? (a b : Count) : Checked Count :=
  if a.toNat + b.toNat < UInt32.size then some (a + b) else none

theorem Count.add?_eq_some_iff {a b sum : Count} :
    Count.add? a b = some sum ↔ sum.toNat = a.toNat + b.toNat := by
  have bound := sum.toNat_lt
  unfold Count.add?
  split
  · rename_i fits
    rw [Option.some.injEq, ← UInt32.toNat_inj, UInt32.toNat_add, Nat.mod_eq_of_lt fits]
    exact eq_comm
  · rename_i out
    simp only [UInt32.size] at out
    constructor
    · intro impossible
      cases impossible
    · intro equal
      omega

inductive Level where
  | plain | info | warn | error
deriving DecidableEq

def Level.name : Level → String
  | .plain => "println"
  | .info => "info"
  | .warn => "warn"
  | .error => "error"

-- A line is stamped with the number of checks made before it was written.
structure Line where
  checks : Count
  level : Level
  text : String
deriving DecidableEq

def Line.stamp (line : Line) : String :=
  let digits := Nat.repr line.checks.toNat
  String.ofList (List.replicate (5 - digits.length) '0') ++ digits

-- What a message is made of: texts, shown as they are, and counts in decimal.
inductive Piece where
  | text (content : String)
  | count (value : Count)
deriving DecidableEq

def Piece.shown : Piece → String
  | .text content => content
  | .count value => Nat.repr value.toNat

def Piece.join : List Piece → String
  | [] => ""
  | piece :: rest => piece.shown ++ join rest

-- What takes the messages of a program and makes lines of them. It lies outside
-- this library: any logger will do.
class Logger where
  Output : Type
  fresh : Output
  emit : Output → Count → Level → List Piece → Output
  lines : Output → Array Line

-- What is relied on where lines are told: each message becomes one line behind
-- all earlier ones, with the stamp that went with it.
structure Logger.InOrder [Logger] : Prop where
  lines_fresh : lines fresh = #[]
  lines_emit : ∀ output stamp level pieces, lines (emit output stamp level pieces) =
    (lines output).push ⟨stamp, level, Piece.join pieces⟩

-- What one run of a program has written. The counter is the program's, not a
-- report's: it starts at zero and wraps round.
structure Log [Logger] where
  checks : Count
  output : Logger.Output

namespace Log

variable [Logger]

def empty : Log := ⟨0, Logger.fresh⟩

def write (log : Log) (level : Level) (message : List Piece) : Log :=
  { log with output := Logger.emit log.output log.checks level message }

def count (log : Log) : Log := { log with checks := log.checks + 1 }

def lines (log : Log) : Array Line := Logger.lines log.output

end Log

end BoundedBytes
