import BoundedBytes.Report
import BoundedBytes.Word

namespace BoundedBytes.Demo

-- What a program tries something on, and its report on that.
structure Bench (σ : Type) where
  subject : σ
  report : Report

abbrev Trial (σ : Type) := StateT (Bench σ) Checked

namespace Trial

variable {σ : Type}

def attempt (call : σ → Checked (α × σ)) : Trial σ α := fun bench =>
  (call bench.subject).map fun (answer, subject) => (answer, { bench with subject })

def inspect (view : σ → Checked α) : Trial σ α := fun bench =>
  (view bench.subject).map fun answer => (answer, bench)

def check (holds : Bool) (message : String) : Trial σ Unit := fun bench =>
  (bench.report.check holds message).map fun report => ((), { bench with report })

def expect [BEq α] [Render α] (got want : α) (message : String) : Trial σ Unit :=
  fun bench =>
    (bench.report.expect got want message).map fun report => ((), { bench with report })

def info (text : String) : Trial σ Unit := fun bench =>
  some ((), { bench with report := bench.report.note .info text })

-- The log of a program that runs the trial and then goes to sleep.
def log (trial : Trial σ Unit) (suite : String) (subject : σ) : Checked Log :=
  match trial ⟨subject, .start suite .empty⟩ with
  | none => none
  | some (_, bench) => bench.report.finish

end Trial

open Trial

-- Sums that carry and sums that do not, and comparisons across the highest bit.
def arithmeticTrial : Trial Unit Unit := do
  expect (Word.addBytes 1 2) 3 "1 + 2 should be 3"
  expect (Word.addBytes 0xFF 0xFF) 0x1FE "0xFF + 0xFF should widen"
  expect (Word.addWithCarry 0xFFFF 1) (0, true) "0xFFFF + 1 should carry"
  expect (Word.addWithCarry 0x7FFF 1) (0x8000, false) "0x7FFF + 1 should not carry"
  expect (Word.offset 0xFFF0 0x20) (.error .overflow) "address add past 0xFFFF should fail"
  check (Word.above 0x8000 0x7FFF) "0x8000 > 0x7FFF unsigned"
  check (!Word.above 5 5) "gt should be strict"
  check (Word.atLeast 5 5) "ge should include equality"
  check (!Word.atLeast 0 0xFFFF) "0 < 0xFFFF unsigned"

def arithmeticLog : Checked Log := arithmeticTrial.log "arith" ()

end BoundedBytes.Demo
