import BoundedBytes.Report
import Mathlib.Data.List.Basic

namespace BoundedBytes

theorem Count.exists_add? {a b : Count} (fits : a.toNat + b.toNat < UInt32.size) :
    ∃ sum, Count.add? a b = some sum ∧ sum.toNat = a.toNat + b.toNat := by
  have position : (a + b).toNat = a.toNat + b.toNat := by
    rw [UInt32.toNat_add]
    exact Nat.mod_eq_of_lt fits
  exact ⟨a + b, Count.add?_eq_some_iff.mpr position, position⟩

theorem Piece.join_two (one two : String) : join [.text one, .text two] = one ++ two := by
  simp only [join, shown, String.append_empty]

namespace Log

variable [Logger] {log : Log} {level : Level} {message : List Piece}

theorem lines_empty (inOrder : Logger.InOrder) : empty.lines.toList = [] := by
  rw [lines, empty, inOrder.lines_fresh]

theorem lines_write (inOrder : Logger.InOrder) : (log.write level message).lines.toList =
    log.lines.toList ++ [⟨log.checks, level, Piece.join message⟩] := by
  rw [lines, write, inOrder.lines_emit]
  exact Array.toList_push

-- Lines written one after the other, with no check in between.
theorem lines_foldl_write (inOrder : Logger.InOrder) (log : Log) (level : Level)
    (say : String → List Piece) (messages : List String) :
    (messages.foldl (fun log message => log.write level (say message)) log).lines.toList =
        log.lines.toList ++
          messages.map (fun message => ⟨log.checks, level, Piece.join (say message)⟩) ∧
      (messages.foldl (fun log message => log.write level (say message)) log).checks =
        log.checks := by
  induction messages generalizing log with
  | nil => exact ⟨(List.append_nil _).symm, rfl⟩
  | cons message rest ih =>
    obtain ⟨lines, checks⟩ := ih (log.write level (say message))
    refine ⟨?_, checks⟩
    rw [List.foldl_cons, lines, lines_write inOrder, List.append_assoc]
    rfl

end Log

namespace Report

variable {suite : String} {events : List Event} {event : Event}

namespace Account

def passes (events : List Event) : List Event := events.filter Event.holds

theorem failures_concat (events : List Event) (event : Event) :
    failures (events ++ [event]) =
      failures events ++ if event.holds then [] else [event.message] := by
  cases holds : event.holds <;> simp [failures, holds]

theorem passes_concat (events : List Event) (event : Event) :
    passes (events ++ [event]) = passes events ++ if event.holds then [event] else [] := by
  cases holds : event.holds <;> simp [passes, holds]

-- Every check either passes or fails.
theorem length_passes_add (events : List Event) :
    (passes events).length + (failures events).length = events.length := by
  rw [passes, failures, List.length_map]
  exact (List.length_eq_length_filter_add Event.holds).symm

theorem body_concat (before : Nat) (events : List Event) (event : Event) :
    body before (events ++ [event]) =
      body before events ++ linesOf (before + events.length) event := by
  induction events generalizing before with
  | nil => exact List.append_nil _
  | cons first rest ih =>
    rw [List.cons_append, body, ih, body, List.append_assoc, List.length_cons, Nat.add_assoc,
      Nat.add_comm 1]

end Account

-- The remark that is written before a check, if there is one to write.
def Event.warning : Event → Option (List Piece)
  | .check .. => none
  | @Event.expect _ _ _ got want message =>
    if got == want then none
    else some [.text message, .text ": got ", .text (render got), .text ", wanted ", .text (render want)]

theorem Event.warning_join (event : Event) : event.warning.map Piece.join = event.remark := by
  cases event with
  | check => rfl
  | expect got want message =>
    cases agree : got == want with
    | true => simp only [warning, remark, agree, if_true, Option.map_none]
    | false =>
      simp only [warning, remark, agree, Bool.false_eq_true, if_false, Option.map_some, Piece.join,
        Piece.shown, String.append_empty, String.append_assoc]

section Recording

variable [Store] [Logger] {report : Report}

-- What a report remembers of its checks: how many passed, the first messages of
-- those that failed, and how many more failed.
structure Tallied (events : List Event) (report : Report) : Prop where
  passed : report.passed.toNat = (Account.passes events).length
  kept : report.messages = (Account.failures events).take 16
  dropped : report.dropped.toNat = (Account.failures events).length - 16

-- A report that remembers its checks and has written a line for each.
structure Accounted (suite : String) (events : List Event) (report : Report) : Prop
    extends Tallied events report where
  named : report.suite = suite
  counted : report.log.checks = UInt32.ofNat events.length
  written : report.log.lines.toList = ⟨0, .info, "Running " ++ suite⟩ :: Account.body 0 events

theorem start_tallied (bounded : Store.Bounded) (suite : String) (log : Log) :
    Tallied [] (start suite log) where
  passed := rfl
  kept := bounded.messages_empty _
  dropped := rfl

theorem start_accounted (bounded : Store.Bounded) (inOrder : Logger.InOrder) (suite : String) :
    Accounted suite [] (start suite .empty) where
  toTallied := start_tallied bounded suite .empty
  named := rfl
  counted := rfl
  written := by
    rw [start, Log.lines_write inOrder, Log.lines_empty inOrder, Piece.join_two]
    rfl

-- The report as a check finds it, its remark written.
def remarked (report : Report) (event : Event) : Report :=
  { report with log := event.warning.elim report.log (report.log.write .warn) }

theorem record_eq (report : Report) (event : Event) :
    report.record event = (report.remarked event).check event.holds event.message := by
  cases event with
  | check holds message => rfl
  | expect got want message =>
    cases agree : got == want <;>
      simp only [record, expect, remarked, Event.warning, Event.holds, Event.message, agree] <;> rfl

theorem check_passed {sum : Count} (added : Count.add? report.passed 1 = some sum) (message : String) :
    report.check true message = some { report with
      passed := sum, log := report.log.count.write .plain [.text "SUCCESS ", .text message] } := by
  rw [check, if_pos rfl, added]
  rfl

theorem check_kept {message : String} {failures : Store.Kept keptFailures}
    (pushed : Store.push report.failures message = (.ok (), failures)) :
    report.check false message = some { report with
      failures, log := report.log.count.write .plain [.text "FAILURE ", .text message] } := by
  rw [check, if_neg Bool.false_ne_true, pushed]

theorem check_dropped {message : String} {refusal : String} {failures : Store.Kept keptFailures}
    (refused : Store.push report.failures message = (.error refusal, failures)) {sum : Count}
    (added : Count.add? report.dropped 1 = some sum) :
    report.check false message = some { report with
      failures, dropped := sum
      log := report.log.count.write .plain [.text "FAILURE ", .text message] } := by
  rw [check, if_neg Bool.false_ne_true, refused]
  exact congrArg (Option.map _) added

theorem Tallied.pass (tallied : Tallied events report) (holds : event.holds = true) {sum : Count}
    (value : sum.toNat = report.passed.toNat + 1) (log : Log) :
    Tallied (events ++ [event]) { report with passed := sum, log } := by
  have failures := Account.failures_concat events event
  rw [holds, if_pos rfl, List.append_nil] at failures
  refine ⟨?_, ?_, ?_⟩
  · rw [Account.passes_concat, holds, if_pos rfl, List.length_append, ← tallied.passed]
    exact value
  · rw [failures]
    exact tallied.kept
  · rw [failures]
    exact tallied.dropped

theorem Tallied.fail (tallied : Tallied events report) (fails : event.holds = false)
    {failures : Store.Kept keptFailures} {dropped : Count} (log : Log)
    (kept : Store.messages failures = (Account.failures events ++ [event.message]).take 16)
    (lost : dropped.toNat = (Account.failures events).length + 1 - 16) :
    Tallied (events ++ [event]) { report with failures, dropped, log } := by
  refine ⟨?_, ?_, ?_⟩
  · rw [Account.passes_concat, fails, if_neg Bool.false_ne_true, List.append_nil]
    exact tallied.passed
  · rw [Account.failures_concat, fails, if_neg Bool.false_ne_true]
    exact kept
  · rw [Account.failures_concat, fails, if_neg Bool.false_ne_true, List.length_append]
    exact lost

theorem Tallied.length_messages (tallied : Tallied events report) :
    report.messages.length = min 16 (Account.failures events).length := by
  rw [tallied.kept, List.length_take]

-- A check always writes its line. What it adds to the tally depends on whether
-- it holds, and for one that fails on whether its message still has a place.
theorem check_tallied (bounded : Store.Bounded) (tallied : Tallied events report) (event : Event)
    (room : events.length + 1 < UInt32.size) :
    ∃ next, report.check event.holds event.message = some next ∧
      Tallied (events ++ [event]) next ∧ next.suite = report.suite ∧
      next.log = report.log.count.write .plain
        [.text (if event.holds then "SUCCESS " else "FAILURE "), .text event.message] := by
  have total := Account.length_passes_add events
  have one : (1 : Count).toNat = 1 := rfl
  cases holds : event.holds with
  | true =>
    have passed := tallied.passed
    obtain ⟨sum, added, value⟩ := Count.exists_add? (a := report.passed) (b := 1) (by omega)
    exact ⟨_, check_passed added event.message, tallied.pass holds value _, rfl, rfl⟩
  | false =>
    have kept := tallied.kept
    have dropped := tallied.dropped
    have stored : (Store.messages report.failures).length =
        min 16 (Account.failures events).length := tallied.length_messages
    by_cases few : (Account.failures events).length < 16
    · obtain ⟨failures, pushed, added⟩ := bounded.push_of_room report.failures event.message
        (show _ < 16 by omega)
      refine ⟨_, check_kept pushed, tallied.fail holds _ ?_ (by omega), rfl, rfl⟩
      rw [added, ← messages, kept, List.take_of_length_le (Nat.le_of_lt few), List.take_of_length_le]
      rw [List.length_append]
      exact few
    · have refused := bounded.push_of_full report.failures event.message (show 16 ≤ _ by omega)
      obtain ⟨sum, added, value⟩ := Count.exists_add? (a := report.dropped) (b := 1) (by omega)
      refine ⟨_, check_dropped refused added, tallied.fail holds _ ?_ (by omega), rfl, rfl⟩
      rw [← messages, kept, List.take_append_of_le_length (Nat.le_of_not_lt few)]

-- The remark on a disagreement is written and changes nothing else.
theorem Tallied.remarked (tallied : Tallied events report) (event : Event) :
    Tallied events (report.remarked event) := ⟨tallied.passed, tallied.kept, tallied.dropped⟩

theorem remarked_checks (report : Report) (event : Event) :
    (report.remarked event).log.checks = report.log.checks := by
  unfold remarked
  cases event.warning <;> rfl

theorem remarked_lines (inOrder : Logger.InOrder) (report : Report) (event : Event) :
    (report.remarked event).log.lines.toList = report.log.lines.toList ++
      event.remark.toList.map fun text => ⟨report.log.checks, .warn, text⟩ := by
  rw [remarked, ← event.warning_join]
  cases event.warning with
  | none => exact (List.append_nil _).symm
  | some pieces => exact Log.lines_write inOrder

theorem record_tallied (bounded : Store.Bounded) (tallied : Tallied events report) (event : Event)
    (room : events.length + 1 < UInt32.size) :
    ∃ next, report.record event = some next ∧ Tallied (events ++ [event]) next := by
  obtain ⟨next, made, carried, _⟩ := check_tallied bounded (tallied.remarked event) event room
  exact ⟨next, (record_eq report event).trans made, carried⟩

theorem record_accounted (bounded : Store.Bounded) (inOrder : Logger.InOrder)
    (accounted : Accounted suite events report) (event : Event)
    (room : events.length + 1 < UInt32.size) :
    ∃ next, report.record event = some next ∧ Accounted suite (events ++ [event]) next := by
  obtain ⟨next, made, tallied, named, log⟩ :=
    check_tallied bounded (accounted.toTallied.remarked event) event room
  have counted := remarked_checks report event
  have stamp : UInt32.ofNat (events.length + 1) = report.log.checks + 1 := by
    rw [accounted.counted, UInt32.ofNat_add]
    rfl
  refine ⟨next, (record_eq report event).trans made, tallied, named.trans accounted.named, ?_, ?_⟩
  · rw [log, List.length_append, List.length_singleton, stamp, ← counted]
    rfl
  · rw [log, Log.lines_write inOrder, Piece.join_two]
    show (report.remarked event).log.lines.toList ++ [⟨(report.remarked event).log.checks + 1, _, _⟩] = _
    rw [counted, remarked_lines inOrder, accounted.written, Account.body_concat, Account.linesOf,
      Nat.zero_add, stamp, ← accounted.counted, List.cons_append, List.cons_append, List.append_assoc]

-- What each check carries on, a report carries through any number of them.
theorem recordAll_carried {kept : List Event → Report → Prop}
    (step : ∀ {events report}, kept events report → ∀ event, events.length + 1 < UInt32.size →
      ∃ next, report.record event = some next ∧ kept (events ++ [event]) next)
    (held : kept events report) (more : List Event) (few : (events ++ more).length < UInt32.size) :
    ∃ last, report.recordAll more = some last ∧ kept (events ++ more) last := by
  induction more generalizing events report with
  | nil =>
    rw [List.append_nil]
    exact ⟨report, rfl, held⟩
  | cons event rest ih =>
    have room : events.length + 1 < UInt32.size := by
      rw [List.length_append, List.length_cons] at few
      omega
    obtain ⟨next, made, carried⟩ := step held event room
    rw [List.append_cons] at few ⊢
    obtain ⟨last, ran, ended⟩ := ih carried few
    refine ⟨last, ?_, ended⟩
    rw [recordAll, made]
    exact ran

theorem recordAll_accounted (bounded : Store.Bounded) (inOrder : Logger.InOrder)
    (accounted : Accounted suite events report) (more : List Event)
    (few : (events ++ more).length < UInt32.size) :
    ∃ last, report.recordAll more = some last ∧ Accounted suite (events ++ more) last :=
  recordAll_carried (record_accounted bounded inOrder) accounted more few

theorem Tallied.allPassed_eq (tallied : Tallied events report) :
    report.allPassed = (Account.failures events).isEmpty := by
  have dropped := tallied.dropped
  rw [allPassed, tallied.kept]
  cases failing : Account.failures events with
  | nil =>
    rw [failing] at dropped
    have none : report.dropped = 0 := UInt32.toNat_inj.mp dropped
    rw [none]
    rfl
  | cons message rest => rfl

theorem Tallied.dropped_eq_zero (tallied : Tallied events report) :
    (report.dropped == 0) = decide ((Account.failures events).length ≤ 16) := by
  have dropped := tallied.dropped
  rw [Bool.eq_iff_iff, beq_iff_eq, decide_eq_true_iff, ← UInt32.toNat_inj, dropped,
    UInt32.toNat_zero, Nat.sub_eq_zero_iff_le]

-- The count that the summary gives is of all failures, those kept and those not.
theorem Tallied.failed (tallied : Tallied events report) (few : events.length < UInt32.size) :
    ∃ failed, Count.add? (UInt32.ofNat report.messages.length) report.dropped = some failed ∧
      failed.toNat = (Account.failures events).length := by
  have total := Account.length_passes_add events
  have dropped := tallied.dropped
  have stored := tallied.length_messages
  have fits : (UInt32.ofNat report.messages.length).toNat = report.messages.length :=
    UInt32.toNat_ofNat_of_lt' (by omega)
  obtain ⟨failed, added, value⟩ := Count.exists_add?
    (a := UInt32.ofNat report.messages.length) (b := report.dropped) (by omega)
  exact ⟨failed, added, by omega⟩

theorem finish_flawless (inOrder : Logger.InOrder) (accounted : Accounted suite events report)
    {failed : Count}
    (added : Count.add? (UInt32.ofNat report.messages.length) report.dropped = some failed)
    (flawless : Account.failures events = []) :
    ∃ log, report.finish = some log ∧ log.checks = report.log.checks ∧
      log.lines.toList = report.log.lines.toList ++
        (Account.summary suite events).map fun (level, text) => ⟨report.log.checks, level, text⟩ := by
  have total := Account.length_passes_add events
  have verdict : report.allPassed = true := by
    rw [accounted.allPassed_eq, flawless]
    rfl
  rw [finish, added, Account.summary, flawless]
  rw [flawless] at total
  refine ⟨_, if_pos verdict, rfl, ?_⟩
  rw [Log.lines_write inOrder, accounted.named]
  simp only [Piece.join, Piece.shown, accounted.passed, ← total, String.append_empty,
    String.append_assoc]
  rfl

-- The summary of a flawed report lists the messages that were kept. The line
-- that counts the others stands where there are any.
theorem finish_flawed (inOrder : Logger.InOrder) (accounted : Accounted suite events report)
    {failed : Count}
    (added : Count.add? (UInt32.ofNat report.messages.length) report.dropped = some failed)
    (all : failed.toNat = (Account.failures events).length)
    (flawed : (Account.failures events).isEmpty = false) :
    ∃ log, report.finish = some log ∧ log.checks = report.log.checks ∧
      log.lines.toList = report.log.lines.toList ++
        (Account.summary suite events).map fun (level, text) => ⟨report.log.checks, level, text⟩ := by
  have total := Account.length_passes_add events
  have passed := accounted.passed
  have succeeded : report.passed.toNat = events.length - (Account.failures events).length := by
    omega
  have verdict : ¬report.allPassed = true := by
    rw [accounted.allPassed_eq, flawed]
    exact Bool.false_ne_true
  have heading : Piece.join [.text report.suite, .text ": ", .count report.passed,
      .text " passed, ", .count failed, .text " failed"] =
        suite ++ ": " ++ Nat.repr (events.length - (Account.failures events).length) ++
          " passed, " ++ Nat.repr (Account.failures events).length ++ " failed" := by
    simp only [Piece.join, Piece.shown, accounted.named, succeeded, all, String.append_empty,
      String.append_assoc]
  have closing : Piece.join [.text "  ... and ", .count report.dropped, .text " more"] =
      "  ... and " ++ Nat.repr ((Account.failures events).length - 16) ++ " more" := by
    simp only [Piece.join, Piece.shown, accounted.dropped, String.append_empty, String.append_assoc]
  obtain ⟨listed, checks⟩ := Log.lines_foldl_write inOrder (report.log.write .error
    [.text report.suite, .text ": ", .count report.passed, .text " passed, ", .count failed,
      .text " failed"]) .error (fun message => [.text "  - ", .text message]) report.messages
  rw [Log.lines_write inOrder, heading, accounted.kept] at listed
  simp only [Piece.join_two] at listed
  rw [finish, added, Account.summary, flawed, if_neg Bool.false_ne_true, List.map_append,
    List.map_append, ← List.append_assoc, ← List.append_assoc, List.map_map]
  by_cases fit : (Account.failures events).length ≤ 16
  · have nothing : (report.dropped == 0) = true := by
      rw [accounted.dropped_eq_zero, decide_eq_true fit]
    refine ⟨_, (if_neg verdict).trans (congrArg some (if_pos nothing)), checks, ?_⟩
    rw [if_pos fit, List.map_nil, List.append_nil, accounted.kept]
    exact listed
  · have others : ¬(report.dropped == 0) = true := by
      rw [accounted.dropped_eq_zero, decide_eq_true_iff]
      exact fit
    refine ⟨_, (if_neg verdict).trans (congrArg some (if_neg others)), checks, ?_⟩
    rw [if_neg fit, Log.lines_write inOrder, closing, checks, accounted.kept, listed]
    rfl

theorem finish_accounted (inOrder : Logger.InOrder) (accounted : Accounted suite events report)
    (few : events.length < UInt32.size) :
    ∃ log, report.finish = some log ∧ log.checks = report.log.checks ∧
      log.lines.toList = report.log.lines.toList ++
        (Account.summary suite events).map fun (level, text) => ⟨report.log.checks, level, text⟩ := by
  obtain ⟨failed, added, all⟩ := accounted.failed few
  cases flawed : (Account.failures events).isEmpty with
  | true => exact finish_flawless inOrder accounted added (List.isEmpty_iff.mp flawed)
  | false => exact finish_flawed inOrder accounted added all flawed

-- Whatever is checked, and however many checks fail, the log of a report is the
-- account of its events. Every event has either passed or failed.
theorem wholeLog_accounted (bounded : Store.Bounded) (inOrder : Logger.InOrder) (suite : String)
    (events : List Event) (few : events.length < UInt32.size) :
    ∃ log, wholeLog suite events = some log ∧ log.checks.toNat = events.length ∧
      log.lines.toList = Account.lines suite events ∧
      (Account.passes events).length + (Account.failures events).length = events.length := by
  obtain ⟨last, recorded, accounted⟩ :=
    recordAll_accounted bounded inOrder (start_accounted bounded inOrder suite) events few
  obtain ⟨log, finished, checks, lines⟩ := finish_accounted inOrder accounted few
  refine ⟨log, ?_, ?_, ?_, Account.length_passes_add events⟩
  · rw [wholeLog, recorded]
    exact finished
  · rw [checks, accounted.counted]
    exact UInt32.toNat_ofNat_of_lt' few
  · rw [lines, accounted.counted, accounted.written]
    rfl

end Recording

-- More failures than are kept, the first of them shown with its two values, and
-- a check that passes after them all.
theorem wholeLog_accounted_crowded :
    @Store.Bounded Shelf.store ∧ @Logger.InOrder Line.logger ∧ 19 < UInt32.size ∧
    ∃ events : List Event,
      events = .expect 5 (6 : Nat) "size" :: (.replicate 17 (.check false "slot") ++ [.check true "tail"]) ∧
      ∃ log, wholeLog "queue" events = some log ∧ log.checks.toNat = 19 ∧
        log.lines.toList =
          [⟨0, .info, "Running queue"⟩, ⟨0, .warn, "size: got 5, wanted 6"⟩, ⟨1, .plain, "FAILURE size"⟩] ++
          (List.range' 2 17).map (fun k => ⟨UInt32.ofNat k, .plain, "FAILURE slot"⟩) ++
          [⟨19, .plain, "SUCCESS tail"⟩, ⟨19, .error, "queue: 1 passed, 18 failed"⟩] ++
          ⟨19, .error, "  - size"⟩ :: .replicate 15 ⟨19, .error, "  - slot"⟩ ++
          [⟨19, .error, "  ... and 2 more"⟩] ∧
        (Account.passes events).length = 1 ∧ (Account.failures events).length = 18 := by
  let events : List Event :=
    .expect 5 (6 : Nat) "size" :: (.replicate 17 (.check false "slot") ++ [.check true "tail"])
  obtain ⟨log, ran, checks, lines, _⟩ :=
    wholeLog_accounted Shelf.bounded Line.inOrder "queue" events (by decide)
  refine ⟨Shelf.bounded, Line.inOrder, by decide, events, rfl, log, ran, checks, ?_, rfl, rfl⟩
  rw [lines]
  decide

end Report

end BoundedBytes
