import BoundedBytes.Log
import BoundedBytes.Render

namespace BoundedBytes

-- What keeps messages, up to so many. It lies outside this library, as the
-- logger does.
class Store where
  Kept : Nat → Type
  empty : Kept room
  push : Kept room → String → Except String Unit × Kept room
  messages : Kept room → List String

-- What is relied on where messages are told: one is added behind the others
-- while there is room, and is refused without a change when there is none.
structure Store.Bounded [Store] : Prop where
  messages_empty : ∀ room, messages (empty : Kept room) = []
  push_of_room : ∀ {room} (kept : Kept room) message, (messages kept).length < room →
    ∃ next, push kept message = (.ok (), next) ∧ messages next = messages kept ++ [message]
  push_of_full : ∀ {room} (kept : Kept room) message, room ≤ (messages kept).length →
    push kept message = (.error message, kept)

namespace Report

def keptFailures : Nat := 16

end Report

-- The results of one group of checks and the log they are written to. Only so
-- many failing messages are kept; later ones are merely counted.
structure Report [Store] [Logger] where
  suite : String
  passed : Count
  failures : Store.Kept Report.keptFailures
  dropped : Count
  log : Log

namespace Report

-- Anything that a report records. Values of any kind may be compared, as long
-- as they have a test of agreement and can be shown. Nothing is asked of the
-- test: a value need not even agree with itself.
inductive Event : Type 1 where
  | check (holds : Bool) (message : String)
  | expect {α : Type} [BEq α] [Render α] (got want : α) (message : String)

section Recording

variable [Store] [Logger]

def note (report : Report) (level : Level) (text : String) : Report :=
  { report with log := report.log.write level [.text text] }

def start (suite : String) (log : Log) : Report :=
  ⟨suite, 0, Store.empty, 0, log.write .info [.text "Running ", .text suite]⟩

def messages (report : Report) : List String := Store.messages report.failures

-- A check is counted before its line is written.
def check (report : Report) (holds : Bool) (message : String) : Checked Report :=
  let log := report.log.count
  if holds then
    (Count.add? report.passed 1).map fun passed =>
      { report with passed, log := log.write .plain [.text "SUCCESS ", .text message] }
  else
    let log := log.write .plain [.text "FAILURE ", .text message]
    match Store.push report.failures message with
    | (.ok _, failures) => some { report with failures, log }
    | (.error _, failures) =>
      (Count.add? report.dropped 1).map fun dropped => { report with failures, dropped, log }

-- Checks that two values agree. A disagreement is shown before it is counted.
def expect [BEq α] [Render α] (report : Report) (got want : α) (message : String) :
    Checked Report :=
  if got == want then
    report.check true message
  else
    let log := report.log.write .warn
      [.text message, .text ": got ", .text (render got), .text ", wanted ", .text (render want)]
    { report with log }.check false message

def allPassed (report : Report) : Bool := report.messages.isEmpty && report.dropped == 0

-- Ends the report with its summary and leaves the log.
def finish (report : Report) : Checked Log :=
  match Count.add? (UInt32.ofNat report.messages.length) report.dropped with
  | none => none
  | some failed =>
    if report.allPassed then
      some (report.log.write .info
        [.text report.suite, .text ": all ", .count report.passed, .text " checks passed"])
    else
      let log := report.log.write .error
        [.text report.suite, .text ": ", .count report.passed, .text " passed, ", .count failed,
          .text " failed"]
      let log := report.messages.foldl
        (fun log message => log.write .error [.text "  - ", .text message]) log
      some (if report.dropped == 0 then log
        else log.write .error [.text "  ... and ", .count report.dropped, .text " more"])

def record (report : Report) : Event → Checked Report
  | .check holds message => report.check holds message
  | @Event.expect _ _ _ got want message => report.expect got want message

def recordAll (report : Report) (events : List Event) : Checked Report :=
  match events with
  | [] => some report
  | event :: rest =>
    match report.record event with
    | none => none
    | some next => next.recordAll rest

-- The whole log of a program that makes one report and nothing else.
def wholeLog (suite : String) (events : List Event) : Checked Log :=
  match (start suite .empty).recordAll events with
  | none => none
  | some report => report.finish

end Recording

namespace Event

def holds : Event → Bool
  | .check holds _ => holds
  | @Event.expect _ _ _ got want _ => got == want

def message : Event → String
  | .check _ message | @Event.expect _ _ _ _ _ message => message

def remark : Event → Option String
  | .check .. => none
  | @Event.expect _ _ _ got want message =>
    if got == want then none
    else some (message ++ ": got " ++ render got ++ ", wanted " ++ render want)

end Event

-- The account of a report, read off its events without running it.
namespace Account

def failures (events : List Event) : List String :=
  (events.filter fun event => !event.holds).map Event.message

-- The lines of one check: the remark belongs to the checks before it.
def linesOf (before : Nat) (event : Event) : List Line :=
  (event.remark.toList.map fun text => ⟨UInt32.ofNat before, .warn, text⟩) ++
    [⟨UInt32.ofNat (before + 1), .plain,
      (if event.holds then "SUCCESS " else "FAILURE ") ++ event.message⟩]

def body (before : Nat) : List Event → List Line
  | [] => []
  | event :: rest => linesOf before event ++ body (before + 1) rest

def summary (suite : String) (events : List Event) : List (Level × String) :=
  let failing := failures events
  if failing.isEmpty then
    [(.info, suite ++ ": all " ++ Nat.repr events.length ++ " checks passed")]
  else
    [(.error, suite ++ ": " ++ Nat.repr (events.length - failing.length) ++ " passed, " ++
      Nat.repr failing.length ++ " failed")] ++
    (failing.take 16).map (fun message => (.error, "  - " ++ message)) ++
    (if failing.length ≤ 16 then []
      else [(.error, "  ... and " ++ Nat.repr (failing.length - 16) ++ " more")])

def lines (suite : String) (events : List Event) : List Line :=
  [⟨0, .info, "Running " ++ suite⟩] ++ body 0 events ++
    (summary suite events).map fun (level, text) => ⟨UInt32.ofNat events.length, level, text⟩

end Account

end Report

-- A list of messages that never outgrows its room, and lines in an array: the
-- store and the logger that programs of this library are run with.
structure Shelf (room : Nat) where
  messages : List String
  fits : messages.length ≤ room

def Shelf.push (shelf : Shelf room) (message : String) : Except String Unit × Shelf room :=
  if place : shelf.messages.length < room then
    (.ok (), ⟨shelf.messages ++ [message], by rw [List.length_append]; exact place⟩)
  else
    (.error message, shelf)

instance Shelf.store : Store where
  Kept := Shelf
  empty := ⟨[], Nat.zero_le _⟩
  push := Shelf.push
  messages := Shelf.messages

instance Line.logger : Logger where
  Output := Array Line
  fresh := #[]
  emit lines stamp level message := lines.push ⟨stamp, level, Piece.join message⟩
  lines lines := lines

theorem Shelf.bounded : Store.Bounded where
  messages_empty _ := rfl
  push_of_room _ _ place := ⟨_, dif_pos place, rfl⟩
  push_of_full _ _ full := dif_neg (Nat.not_lt.mpr full)

theorem Line.inOrder : Logger.InOrder where
  lines_fresh := rfl
  lines_emit _ _ _ _ := rfl

end BoundedBytes
