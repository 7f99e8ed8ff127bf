import BoundedBytes.Proofs.Report

namespace BoundedBytes.Report

variable {events one two : List Event}

theorem Account.failures_isEmpty (events : List Event) :
    (failures events).isEmpty = true ↔ ∀ event ∈ events, event.holds = true := by
  rw [failures, List.isEmpty_iff, List.map_eq_nil_iff, List.filter_eq_nil_iff]
  refine forall₂_congr fun event _ => ?_
  rw [Bool.not_eq_true', Bool.not_eq_false]

section Recording

variable [Store] [Logger] {report last : Report}

theorem recordAll_append (report : Report) (one two : List Event) :
    report.recordAll (one ++ two) = (report.recordAll one).bind (·.recordAll two) := by
  induction one generalizing report with
  | nil => rfl
  | cons event one ih =>
    rw [List.cons_append, recordAll, recordAll]
    cases report.record event with
    | none => rfl
    | some next => exact ih next

theorem recordAll_tallied (bounded : Store.Bounded) (suite : String) (log : Log)
    (few : events.length < UInt32.size) :
    ∃ last, (start suite log).recordAll events = some last ∧ Tallied events last :=
  recordAll_carried (record_tallied bounded) (start_tallied bounded suite log) events few

-- What a report says of the checks made so far, and that its summary can be
-- drawn up. Failing messages beyond those kept are missing from the list and
-- from nothing else.
structure Faithful (events : List Event) (report : Report) : Prop where
  passed : report.passed.toNat = events.countP Event.holds
  complete : report.passed.toNat + report.messages.length + report.dropped.toNat = events.length
  first : report.messages =
    (Account.failures events).take (min (Account.failures events).length 16)
  crowded : 0 < report.dropped → report.messages.length = 16
  verdict : report.allPassed = true ↔ ∀ event ∈ events, event.holds = true
  failed : ∃ failed, Count.add? (UInt32.ofNat report.messages.length) report.dropped = some failed ∧
    failed.toNat = (Account.failures events).length
  finished : ∃ log, report.finish = some log

theorem exists_finish {failed : Count}
    (added : Count.add? (UInt32.ofNat report.messages.length) report.dropped = some failed) :
    ∃ log, report.finish = some log := by
  rw [finish, added]
  dsimp only
  split <;> exact ⟨_, rfl⟩

theorem Tallied.faithful (tallied : Tallied events report) (few : events.length < UInt32.size) :
    Faithful events report := by
  have total := Account.length_passes_add events
  have passed := tallied.passed
  have dropped := tallied.dropped
  have stored := tallied.length_messages
  obtain ⟨failed, added, value⟩ := tallied.failed few
  refine ⟨?_, by omega, ?_, ?_, ?_, ⟨failed, added, value⟩, exists_finish added⟩
  · rw [passed, Account.passes, List.countP_eq_length_filter]
  · rw [tallied.kept, Nat.min_comm, List.take_eq_take_min]
  · intro lost
    have positive := UInt32.lt_iff_toNat_lt.mp lost
    rw [UInt32.toNat_zero] at positive
    omega
  · rw [tallied.allPassed_eq]
    exact Account.failures_isEmpty events

theorem Faithful.allPassed_of_append (earlier : Faithful one report) (later : Faithful (one ++ two) last)
    (passed : last.allPassed = true) : report.allPassed = true := by
  have all := later.verdict.mp passed
  exact earlier.verdict.mpr fun event member => all event (List.mem_append_left two member)

-- Whatever is checked, and wherever in the course of it one looks, a report has
-- lost no check. A failure stays in its verdict for good, kept or not.
theorem recordAll_faithful (bounded : Store.Bounded) (suite : String) (log : Log)
    (events : List Event) (few : events.length < UInt32.size) :
    ∃ last, (start suite log).recordAll events = some last ∧ Faithful events last ∧
      ∀ count, ∃ report, (start suite log).recordAll (events.take count) = some report ∧
        Faithful (events.take count) report ∧ report.recordAll (events.drop count) = some last ∧
        (report.allPassed = false → last.allPassed = false) := by
  obtain ⟨last, ran, tallied⟩ := recordAll_tallied bounded suite log few
  have faithful := tallied.faithful few
  refine ⟨last, ran, faithful, ?_⟩
  intro count
  have fewer : (events.take count).length < UInt32.size :=
    Nat.lt_of_le_of_lt (List.length_take_le' count events) few
  obtain ⟨report, led, earlier⟩ := recordAll_tallied bounded suite log fewer
  have whole := List.take_append_drop count events
  refine ⟨report, led, earlier.faithful fewer, ?_, ?_⟩
  · rw [← whole, recordAll_append, led] at ran
    exact ran
  · rw [← whole] at faithful
    intro failing
    rw [← Bool.not_eq_true] at failing ⊢
    exact mt ((earlier.faithful fewer).allPassed_of_append faithful) failing

end Recording

-- More failures than are kept and a check that passes after them. The verdict
-- has been settled by the first.
theorem recordAll_faithful_crowded :
    @Store.Bounded Shelf.store ∧ 19 < UInt32.size ∧
    ∃ events : List Event,
      events = .expect 5 (6 : Nat) "size" :: (.replicate 17 (.check false "slot") ++ [.check true "tail"]) ∧
      ∃ last, (start "queue" .empty).recordAll events = some last ∧ Faithful events last ∧
        last.passed = 1 ∧ last.messages = "size" :: .replicate 15 "slot" ∧ last.dropped = 2 ∧
        ∃ report, (start "queue" .empty).recordAll (events.take 1) = some report ∧
          Faithful (events.take 1) report ∧ report.recordAll (events.drop 1) = some last ∧
          report.allPassed = false ∧ last.allPassed = false := by
  let events : List Event :=
    .expect 5 (6 : Nat) "size" :: (.replicate 17 (.check false "slot") ++ [.check true "tail"])
  have few : events.length < UInt32.size := by decide
  obtain ⟨last, ran, faithful, throughout⟩ := recordAll_faithful Shelf.bounded "queue" .empty events few
  obtain ⟨report, led, earlier, followed, stays⟩ := throughout 1
  have passed : last.passed.toNat = 1 := faithful.passed
  have messages : last.messages = "size" :: .replicate 15 "slot" := faithful.first
  have complete : last.passed.toNat + last.messages.length + last.dropped.toNat = 19 :=
    faithful.complete
  have stored : last.messages.length = 16 := by
    rw [messages]
    rfl
  have failing : report.allPassed = false := by
    rw [← Bool.not_eq_true]
    intro all
    have holds := earlier.verdict.mp all _ (List.mem_cons_self ..)
    cases holds
  exact ⟨Shelf.bounded, few, events, rfl, last, ran, faithful, UInt32.toNat_inj.mp passed, messages,
    UInt32.toNat_inj.mp (show last.dropped.toNat = 2 by omega), report, led, earlier, followed,
    failing, stays failing⟩

end BoundedBytes.Report
