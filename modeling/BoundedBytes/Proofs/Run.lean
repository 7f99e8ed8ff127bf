import BoundedBytes.Container
import Mathlib.Data.List.Forall2

namespace BoundedBytes

section Runs

variable {σ : Type u} {κ : Type v} {ρ : Type u} {τ : Type w} {step : Step σ κ ρ} {s : σ} {t : τ}

-- The run of a machine that has no faults.
def play (answer : τ → κ → ρ × τ) : τ → List κ → List ρ × τ
  | t, [] => ([], t)
  | t, call :: rest =>
    let (reply, next) := answer t call
    let (replies, last) := play answer next rest
    (reply :: replies, last)

-- The simulation is by function: related states give the same reply and lead to
-- related states.
theorem run_simulated {answer : τ → κ → ρ × τ} (related : σ → τ → Prop)
    (kept : ∀ {s t} call, related s t →
      ∃ next, step s call = some ((answer t call).1, next) ∧ related next (answer t call).2)
    (start : related s t) (calls : List κ) :
    ∃ last, run step s calls = some ((play answer t calls).1, last) ∧
      related last (play answer t calls).2 := by
  induction calls generalizing s t with
  | nil => exact ⟨s, rfl, start⟩
  | cons call rest ih =>
    obtain ⟨next, made, carried⟩ := kept call start
    obtain ⟨last, ran, ended⟩ := ih carried
    refine ⟨last, ?_, ended⟩
    rw [run_cons made, ran]
    rfl

-- An account of a run, folded over its calls and their replies.
def account (tally : τ → κ → ρ → τ) (t : τ) (calls : List κ) (replies : List ρ) : τ :=
  (calls.zip replies).foldl (fun t (call, reply) => tally t call reply) t

theorem run_accounted (tally : τ → κ → ρ → τ) (agrees : τ → σ → Prop) {calls : List κ}
    (kept : ∀ {t s call}, call ∈ calls → agrees t s →
      ∃ reply next, step s call = some (reply, next) ∧ agrees (tally t call reply) next)
    (start : agrees t s) :
    ∃ replies last, run step s calls = some (replies, last) ∧
      agrees (account tally t calls replies) last := by
  induction calls generalizing s t with
  | nil => exact ⟨[], s, rfl, start⟩
  | cons call rest ih =>
    obtain ⟨reply, next, made, agreed⟩ := kept (List.mem_cons_self ..) start
    obtain ⟨replies, last, ran, ended⟩ :=
      ih (fun member => kept (List.mem_cons_of_mem _ member)) agreed
    refine ⟨reply :: replies, last, ?_, ended⟩
    rw [run_cons made, ran]
    rfl

theorem run_preserved (valid : σ → Prop)
    (kept : ∀ {s} call, valid s → ∃ reply next, step s call = some (reply, next) ∧ valid next)
    (start : valid s) (calls : List κ) :
    ∃ replies last, run step s calls = some (replies, last) ∧ valid last :=
  run_accounted (fun (_ : Unit) _ _ => ()) (fun _ s => valid s)
    (fun {_ _ call} _ held => kept call held) start (t := ())

-- What every step does to a valid state, every step of a run does.
theorem run_each (valid : σ → Prop) (good : κ → ρ → Prop)
    (kept : ∀ {s} call, valid s →
      ∃ reply next, step s call = some (reply, next) ∧ good call reply ∧ valid next)
    (start : valid s) (calls : List κ) :
    ∃ replies last, run step s calls = some (replies, last) ∧ List.Forall₂ good calls replies ∧
      valid last := by
  induction calls generalizing s with
  | nil => exact ⟨[], s, rfl, .nil, start⟩
  | cons call rest ih =>
    obtain ⟨reply, next, made, fits, carried⟩ := kept call start
    obtain ⟨replies, last, ran, fitting, ended⟩ := ih carried
    refine ⟨reply :: replies, last, ?_, .cons fits fitting, ended⟩
    rw [run_cons made, ran]
    rfl

-- Calls that leave the state alone are answered in a run as each is by itself.
theorem run_still {calls : List κ} (still : ∀ call ∈ calls, ∃ reply, step s call = some (reply, s)) :
    ∃ replies, run step s calls = some (replies, s) ∧
      List.Forall₂ (fun call reply => step s call = some (reply, s)) calls replies := by
  induction calls with
  | nil => exact ⟨[], rfl, .nil⟩
  | cons call rest ih =>
    obtain ⟨reply, made⟩ := still call (List.mem_cons_self ..)
    obtain ⟨replies, ran, each⟩ := ih fun other member => still other (List.mem_cons_of_mem _ member)
    refine ⟨reply :: replies, ?_, .cons made each⟩
    rw [run_cons made, ran]
    rfl

-- Every step of a run from a state is as required.
def Throughout (step : Step σ κ ρ) (good : σ → κ → ρ → Prop) : σ → List κ → Prop
  | _, [] => True
  | s, call :: rest => ∀ reply next, step s call = some (reply, next) →
      good s call reply ∧ Throughout step good next rest

theorem run_guarded {good : σ → κ → ρ → Prop} (valid : σ → Prop)
    (kept : ∀ {s} call, valid s →
      ∃ reply next, step s call = some (reply, next) ∧ (good s call reply → valid next))
    (start : valid s) {calls : List κ} (all : Throughout step good s calls) :
    ∃ replies last, run step s calls = some (replies, last) ∧ valid last := by
  induction calls generalizing s with
  | nil => exact ⟨[], s, rfl, start⟩
  | cons call rest ih =>
    obtain ⟨reply, next, made, carried⟩ := kept call start
    obtain ⟨fits, fitting⟩ := all reply next made
    obtain ⟨replies, last, ran, ended⟩ := ih (carried fits) fitting
    refine ⟨reply :: replies, last, ?_, ended⟩
    rw [run_cons made, ran]
    rfl

theorem Throughout.and {good better : σ → κ → ρ → Prop} {calls : List κ}
    (all : Throughout step good s calls) (also : Throughout step better s calls) :
    Throughout step (fun s call reply => good s call reply ∧ better s call reply) s calls := by
  induction calls generalizing s with
  | nil => trivial
  | cons call rest ih =>
    intro reply next made
    obtain ⟨fits, fitting⟩ := all reply next made
    obtain ⟨suits, suiting⟩ := also reply next made
    exact ⟨⟨fits, suits⟩, ih fitting suiting⟩

-- A requirement on a run is one on its first calls and one on those that follow.
theorem Throughout.append {good : σ → κ → ρ → Prop} {one two : List κ} {replies : List ρ} {middle : σ}
    (all : Throughout step good s (one ++ two)) (ran : run step s one = some (replies, middle)) :
    Throughout step good s one ∧ Throughout step good middle two := by
  induction one generalizing s replies with
  | nil =>
    cases ran
    exact ⟨trivial, all⟩
  | cons call one ih =>
    obtain ⟨reply, next, later, made, continued, _⟩ := run_cons_split ran
    obtain ⟨fits, rest⟩ := all reply next made
    obtain ⟨first, second⟩ := ih rest continued
    refine ⟨?_, second⟩
    intro reply' next' again
    cases made.symm.trans again
    exact ⟨fits, first⟩

-- The calls of a run that were not refused, each with its reply.
def accepted (refused : ρ → Bool) (calls : List κ) (replies : List ρ) : List (κ × ρ) :=
  (calls.zip replies).filter fun made => !refused made.2

-- Where a refusal leaves the state alone, a run without its refused calls is
-- the same run to every other call.
theorem run_accepted (refused : ρ → Bool) (valid : σ → Prop)
    (kept : ∀ {s} call, valid s → ∃ reply next, step s call = some (reply, next) ∧ valid next ∧
      (refused reply = true → next = s))
    (start : valid s) (calls : List κ) :
    ∃ replies last, run step s calls = some (replies, last) ∧ valid last ∧
      run step s ((accepted refused calls replies).map Prod.fst) =
        some ((accepted refused calls replies).map Prod.snd, last) := by
  induction calls generalizing s with
  | nil => exact ⟨[], s, rfl, start, rfl⟩
  | cons call rest ih =>
    obtain ⟨reply, next, made, carried, unchanged⟩ := kept call start
    obtain ⟨replies, last, ran, ended, left⟩ := ih carried
    refine ⟨reply :: replies, last, ?_, ended, ?_⟩
    · rw [run_cons made, ran]
      rfl
    · rw [accepted, List.zip_cons_cons]
      cases no : refused reply with
      | true =>
        rw [List.filter_cons_of_neg (by simp [no]), ← unchanged no]
        exact left
      | false =>
        rw [List.filter_cons_of_pos (by simp [no]), List.map_cons, List.map_cons, run_cons made]
        exact congrArg (Option.map _) left

-- A step that is answered with the state it leads to as well.
def traced (step : Step σ κ ρ) : Step σ κ (ρ × σ) := fun s call =>
  (step s call).map fun made => (made, made.2)

-- The calls of a run with others in their places, each chosen by the state that
-- the run is in by then.
def replaced (step : Step σ κ ρ) (swap : σ → κ → κ) : σ → List κ → List κ
  | _, [] => []
  | s, call :: rest =>
    match step s call with
    | none => swap s call :: rest
    | some (_, next) => swap s call :: replaced step swap next rest

theorem traced_of_step {call : κ} {reply : ρ} {next : σ} (made : step s call = some (reply, next)) :
    traced step s call = some ((reply, next), next) := by
  rw [traced, made]
  rfl

-- Where a call and the one in its place are answered alike in every valid state,
-- nobody can tell the two runs apart.
theorem run_replaced {swap : σ → κ → κ} (valid : σ → Prop)
    (kept : ∀ {s} call, valid s → ∃ reply next, step s call = some (reply, next) ∧ valid next)
    (same : ∀ {s} call, valid s → step s (swap s call) = step s call)
    (start : valid s) (calls : List κ) :
    ∃ answers last, run (traced step) s calls = some (answers, last) ∧
      run (traced step) s (replaced step swap s calls) = some (answers, last) := by
  induction calls generalizing s with
  | nil => exact ⟨[], s, rfl, rfl⟩
  | cons call rest ih =>
    obtain ⟨reply, next, made, carried⟩ := kept call start
    obtain ⟨answers, last, ran, followed⟩ := ih carried
    have swapped := (same call start).trans made
    refine ⟨(reply, next) :: answers, last, ?_, ?_⟩
    · rw [run_cons (traced_of_step made), ran]
      rfl
    · rw [replaced, made, run_cons (traced_of_step swapped), followed]
      rfl

end Runs

section Pairs

variable {σ τ ρ ρ' : Type u} {κ : Type v} {κ' : Type w} {step : Step σ κ ρ} {s : σ} {t : τ}

-- Two machines under the same calls. Related states give the same reply and
-- lead to related states.
theorem run_paired {other : Step τ κ ρ} (related : σ → τ → Prop) {calls : List κ}
    (kept : ∀ {s t call}, call ∈ calls → related s t →
      ∃ reply next after, step s call = some (reply, next) ∧ other t call = some (reply, after) ∧
        related next after)
    (start : related s t) :
    ∃ replies last final, run step s calls = some (replies, last) ∧
      run other t calls = some (replies, final) ∧ related last final := by
  induction calls generalizing s t with
  | nil => exact ⟨[], s, t, rfl, rfl, start⟩
  | cons call rest ih =>
    obtain ⟨reply, next, after, made, matched, carried⟩ := kept (List.mem_cons_self ..) start
    obtain ⟨replies, last, final, ran, followed, ended⟩ :=
      ih (fun member => kept (List.mem_cons_of_mem _ member)) carried
    refine ⟨reply :: replies, last, final, ?_, ?_, ended⟩
    · rw [run_cons made, ran]
      rfl
    · rw [run_cons matched, followed]
      rfl

-- One machine under calls of two kinds. Paired calls differ in what they tell
-- of the reply, and in nothing else.
theorem run_retold {other : Step σ κ' ρ'} {paired : κ → κ' → Prop} {calls : List κ}
    {others : List κ'} (tell : κ' → ρ → ρ')
    (retold : ∀ {call call'} s, paired call call' →
      other s call' = (step s call).map fun made => (tell call' made.1, made.2))
    (pairs : List.Forall₂ paired calls others) (s : σ) :
    run other s others =
      (run step s calls).map fun ran => (List.zipWith tell others ran.1, ran.2) := by
  induction pairs generalizing s with
  | nil => rfl
  | @cons call call' calls others pair _ ih =>
    have same := retold s pair
    cases made : step s call with
    | none =>
      rw [made] at same
      simp only [run, made, same, Option.map_none]
    | some answer =>
      obtain ⟨reply, next⟩ := answer
      rw [made] at same
      rw [run_cons same, run_cons made, ih]
      cases run step next calls <;> rfl

end Pairs

section Observation

variable {σ κ ρ : Type} [Container σ] {step : Step σ κ ρ} {s next last : σ} {call : κ} {reply : ρ}
  {occupancy : Occupancy} {calls : List κ} {answers : List (ρ × Occupancy)}

theorem observed_of_step (made : step s call = some (reply, next))
    (seen : Container.occupancy next = some occupancy) :
    observed step s call = some ((reply, occupancy), next) := by
  simp only [observed, made, seen]

theorem step_of_observed (made : observed step s call = some ((reply, occupancy), next)) :
    step s call = some (reply, next) := by
  unfold observed at made
  split at made
  · cases made
  · rename_i answered
    split at made
    · cases made
    · cases made
      exact answered

-- A look after each call does not disturb a run.
theorem run_of_observed (ran : run (observed step) s calls = some (answers, last)) :
    run step s calls = some (answers.map Prod.fst, last) := by
  induction calls generalizing s answers with
  | nil =>
    cases ran
    rfl
  | cons call rest ih =>
    obtain ⟨⟨reply, occupancy⟩, next, later, made, continued, rfl⟩ := run_cons_split ran
    rw [run_cons (step_of_observed made), ih continued]
    rfl

end Observation

end BoundedBytes
