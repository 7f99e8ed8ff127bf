namespace BoundedBytes

-- The answer of a computation in which every addition, every subtraction and
-- every array access is checked. `none` is a fault: a word left its range or
-- an index its array. Refusals such as "the queue is full" are not faults;
-- they are values inside the answer.
abbrev Checked (α : Type u) := Option α

-- A machine answers one call with a reply and its next state.
abbrev Step (σ : Type u) (κ : Type v) (ρ : Type u) := σ → κ → Checked (ρ × σ)

-- A run makes the calls in order and keeps every reply. It has no answer once
-- a single step has faulted.
def run (step : Step σ κ ρ) : σ → List κ → Checked (List ρ × σ)
  | s, [] => some ([], s)
  | s, call :: rest =>
    match step s call with
    | none => none
    | some (reply, next) =>
      match run step next rest with
      | none => none
      | some (replies, last) => some (reply :: replies, last)

inductive Reached (step : Step σ κ ρ) (first : σ) : σ → Prop where
  | start : Reached step first first
  | step : Reached step first s → step s call = some (reply, next) → Reached step first next

variable {σ : Type u} {κ : Type v} {ρ : Type u} {step : Step σ κ ρ} {s next first last : σ}
  {call : κ} {reply : ρ} {calls one two : List κ} {replies : List ρ}

theorem run_cons (made : step s call = some (reply, next)) :
    run step s (call :: calls) = (run step next calls).map fun r => (reply :: r.1, r.2) := by
  simp only [run, made]
  cases run step next calls <;> rfl

theorem run_cons_split (ran : run step s (call :: calls) = some (replies, last)) :
    ∃ reply next later, step s call = some (reply, next) ∧
      run step next calls = some (later, last) ∧ replies = reply :: later := by
  cases made : step s call with
  | none => simp [run, made] at ran
  | some answer =>
    obtain ⟨reply, next⟩ := answer
    rw [run_cons made] at ran
    obtain ⟨⟨later, _⟩, continued, equal⟩ := Option.map_eq_some_iff.mp ran
    cases equal
    exact ⟨reply, next, later, rfl, continued, rfl⟩

theorem run_append (s : σ) (one two : List κ) :
    run step s (one ++ two) = (run step s one).bind fun r =>
      (run step r.2 two).map fun q => (r.1 ++ q.1, q.2) := by
  induction one generalizing s with
  | nil => simp [run]
  | cons call one ih =>
    cases made : step s call with
    | none => simp [run, made]
    | some answer =>
      obtain ⟨reply, next⟩ := answer
      rw [List.cons_append, run_cons made, run_cons made, ih]
      cases run step next one with
      | none => rfl
      | some r => cases ran : run step r.2 two <;> simp [ran]

theorem run_append_split (ran : run step s (one ++ two) = some (replies, last)) :
    ∃ first middle second, run step s one = some (first, middle) ∧
      run step middle two = some (second, last) ∧ replies = first ++ second := by
  rw [run_append] at ran
  obtain ⟨⟨first, middle⟩, led, rest⟩ := Option.bind_eq_some_iff.mp ran
  obtain ⟨⟨second, _⟩, continued, equal⟩ := Option.map_eq_some_iff.mp rest
  cases equal
  exact ⟨first, middle, second, led, continued, rfl⟩

theorem Reached.run (path : Reached step first s) (ran : run step s calls = some (replies, last)) :
    Reached step first last := by
  induction calls generalizing s replies with
  | nil =>
    cases ran
    exact path
  | cons call calls ih =>
    obtain ⟨_, _, _, made, continued, _⟩ := run_cons_split ran
    exact ih (path.step made) continued

theorem Reached.preserved {valid : σ → Prop} (path : Reached step first s) (start : valid first)
    (kept : ∀ {s call reply next}, valid s → step s call = some (reply, next) → valid next) :
    valid s := by
  induction path with
  | start => exact start
  | step _ made ih => exact kept ih made

end BoundedBytes
