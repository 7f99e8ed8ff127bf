import BoundedBytes.Bulk

namespace BoundedBytes.Bulk

section Predicates

variable {σ : Type} [Container σ]

-- Of the values that are inserted in order, the first `room` are accepted. The
-- next one, where there is one, is refused.
def Fills (refusal : Error) (room : Nat) (s : σ) (values : List UInt8) (filled : σ) : Prop :=
  insertAll s values =
    some ⟨if values.length ≤ room then none else some refusal, values.drop room, filled⟩

-- Whoever keeps removing is handed these bytes and then refused.
def Drains (refusal : Error) (s : σ) (bytes : List UInt8) (drained : σ) : Prop :=
  ∀ count, bytes.length < count → removeUpTo s count = some ⟨some refusal, bytes, drained⟩

-- For each value in turn an insertion and a removal, none of them refused. A
-- longer run of rounds goes on from the container that these lead to.
structure Rounds (s : σ) (values bytes : List UInt8) (last : σ) : Prop where
  ran : cycle s values = some ⟨none, bytes, last⟩
  on : ∀ more, cycle s (values ++ more) =
    (cycle last more).map fun removed => { removed with bytes := bytes ++ removed.bytes }

end Predicates

-- What tells one kind of container from another: where a new byte goes among
-- those that wait to be removed, and how each call is refused.
structure Discipline where
  place : UInt8 → List UInt8 → List UInt8
  full : Error
  empty : Error

def Discipline.placeAll (kind : Discipline) (values bytes : List UInt8) : List UInt8 :=
  values.foldl (fun bytes value => kind.place value bytes) bytes

-- A container that holds some bytes and has room for so many in all keeps them
-- in the way of its kind.
structure Discipline.Keeps {σ : Type} [Container σ] (kind : Discipline)
    (holds : Nat → List UInt8 → σ → Prop) : Prop where
  length : ∀ value bytes, (kind.place value bytes).length = bytes.length + 1
  insert : ∀ {most bytes s} value, holds most bytes s → bytes.length < most →
    ∃ next, Container.insert s value = some (.ok (), next) ∧ holds most (kind.place value bytes) next
  full : ∀ {most bytes s} value, holds most bytes s → most ≤ bytes.length →
    Container.insert s value = some (.error kind.full, s)
  remove : ∀ {most byte bytes s}, holds most (byte :: bytes) s →
    ∃ next, Container.remove s = some (.ok byte, next) ∧ holds most bytes next
  empty : ∀ {most s}, holds most [] s → Container.remove s = some (.error kind.empty, s)

variable {σ : Type} [Container σ] {kind : Discipline} {holds : Nat → List UInt8 → σ → Prop}
  {s held next last : σ} {most count : Nat} {value byte : UInt8} {values bytes : List UInt8} {e : Error}

theorem insertAll_accepted (accepted : Container.insert s value = some (.ok (), next)) :
    insertAll s (value :: values) = insertAll next values := by
  rw [insertAll, accepted]

theorem insertAll_refused (refused : Container.insert s value = some (.error e, next)) :
    insertAll s (value :: values) = some ⟨some e, value :: values, next⟩ := by
  rw [insertAll, refused]

theorem removeUpTo_handed (handed : Container.remove s = some (.ok byte, next)) :
    removeUpTo s (count + 1) =
      (removeUpTo next count).map fun removed => { removed with bytes := byte :: removed.bytes } := by
  rw [removeUpTo, removeOnto, handed]
  exact removeOnto_eq [byte] next count

theorem removeUpTo_refused (refused : Container.remove s = some (.error e, next)) :
    removeUpTo s (count + 1) = some ⟨some e, [], next⟩ := by
  rw [removeUpTo, removeOnto, refused]
  rfl

theorem cycle_round (accepted : Container.insert s value = some (.ok (), held))
    (handed : Container.remove held = some (.ok byte, next)) :
    cycle s (value :: values) =
      (cycle next values).map fun removed => { removed with bytes := byte :: removed.bytes } := by
  rw [cycle, cycleOnto, accepted]
  simp only [handed]
  exact cycleOnto_eq [byte] next values

theorem cycle_refused (refused : Container.insert s value = some (.error e, next)) :
    cycle s (value :: values) = some ⟨some e, [], next⟩ := by
  rw [cycle, cycleOnto, refused]
  rfl

theorem Discipline.Keeps.fills (keeps : kind.Keeps holds) (start : holds most bytes s)
    (values : List UInt8) :
    ∃ filled, Fills kind.full (most - bytes.length) s values filled ∧
      holds most (kind.placeAll (values.take (most - bytes.length)) bytes) filled := by
  induction values generalizing s bytes with
  | nil =>
    refine ⟨s, ?_, ?_⟩
    · simp [Fills, insertAll]
    · rw [List.take_nil]
      exact start
  | cons value values ih =>
    by_cases room : bytes.length < most
    · obtain ⟨next, accepted, more⟩ := keeps.insert value start room
      obtain ⟨filled, fills, ended⟩ := ih more
      have fewer : most - bytes.length = most - (kind.place value bytes).length + 1 := by
        rw [keeps.length]
        omega
      refine ⟨filled, ?_, ?_⟩
      · rw [Fills, insertAll_accepted accepted, fills, fewer]
        simp
      · rw [fewer, List.take_succ_cons]
        exact ended
    · have none : most - bytes.length = 0 := by omega
      refine ⟨s, ?_, ?_⟩
      · rw [Fills, insertAll_refused (keeps.full value start (Nat.le_of_not_lt room)), none]
        simp
      · rw [none]
        exact start

theorem Discipline.Keeps.drains (keeps : kind.Keeps holds) (start : holds most bytes s) :
    ∃ drained, Drains kind.empty s bytes drained ∧ holds most [] drained := by
  induction bytes generalizing s with
  | nil =>
    refine ⟨s, ?_, start⟩
    intro count more
    obtain ⟨count, rfl⟩ := Nat.exists_eq_succ_of_ne_zero (Nat.ne_of_gt more)
    exact removeUpTo_refused (keeps.empty start)
  | cons byte bytes ih =>
    obtain ⟨next, handed, rest⟩ := keeps.remove start
    obtain ⟨drained, drains, ended⟩ := ih rest
    refine ⟨drained, ?_, ended⟩
    intro count more
    obtain ⟨count, rfl⟩ := Nat.exists_eq_succ_of_ne_zero (Nat.ne_of_gt (Nat.zero_lt_of_lt more))
    rw [removeUpTo_handed handed, drains count (Nat.lt_of_succ_lt_succ more)]
    rfl

-- Filled up and emptied, a container has all its room again.
theorem Discipline.Keeps.turnover (keeps : kind.Keeps holds) (start : holds most bytes s)
    (values : List UInt8) :
    ∃ filled drained, Fills kind.full (most - bytes.length) s values filled ∧
      Drains kind.empty filled (kind.placeAll (values.take (most - bytes.length)) bytes) drained ∧
      ∀ others, ∃ again, Fills kind.full most drained others again := by
  obtain ⟨filled, fills, full⟩ := keeps.fills start values
  obtain ⟨drained, drains, empty⟩ := keeps.drains full
  refine ⟨filled, drained, fills, drains, ?_⟩
  intro others
  obtain ⟨again, refills, _⟩ := keeps.fills empty others
  exact ⟨again, refills⟩

-- A full container allows no round at all.
theorem Discipline.Keeps.stuck (keeps : kind.Keeps holds) (start : holds most bytes s)
    (full : most ≤ bytes.length) (value : UInt8) (rest : List UInt8) :
    Container.insert s value = some (.error kind.full, s) ∧
      cycle s (value :: rest) = some ⟨some kind.full, [], s⟩ := by
  have refused := keeps.full value start full
  exact ⟨refused, cycle_refused refused⟩

theorem Rounds.none (s : σ) : Rounds s [] [] s where
  ran := rfl
  on more := by
    show cycle s more = _
    cases cycle s more <;> rfl

theorem Rounds.round (accepted : Container.insert s value = some (.ok (), held))
    (handed : Container.remove held = some (.ok byte, next)) (rounds : Rounds next values bytes last) :
    Rounds s (value :: values) (byte :: bytes) last where
  ran := by
    rw [cycle_round accepted handed, rounds.ran]
    rfl
  on more := by
    rw [List.cons_append, cycle_round accepted handed, rounds.on, Option.map_map]
    rfl

-- What one round carries on from the values and bytes so far, every run of
-- rounds does.
theorem rounds_of_round (carries : List UInt8 → List UInt8 → σ → Prop)
    (round : ∀ {given taken s} value, carries given taken s →
      ∃ held byte next, Container.insert s value = some (.ok (), held) ∧
        Container.remove held = some (.ok byte, next) ∧
        carries (given ++ [value]) (taken ++ [byte]) next)
    (start : carries [] [] s) (values : List UInt8) :
    ∃ bytes last, Rounds s values bytes last ∧ carries values bytes last := by
  suffices general : ∀ given taken, carries given taken s →
      ∃ bytes last, Rounds s values bytes last ∧ carries (given ++ values) (taken ++ bytes) last from
    general [] [] start
  clear start
  induction values generalizing s with
  | nil =>
    intro given taken carried
    refine ⟨[], s, .none s, ?_⟩
    rwa [List.append_nil, List.append_nil]
  | cons value values ih =>
    intro given taken carried
    obtain ⟨held, byte, next, accepted, handed, carried⟩ := round value carried
    obtain ⟨bytes, last, rounds, ended⟩ := ih _ _ carried
    refine ⟨byte :: bytes, last, .round accepted handed rounds, ?_⟩
    rwa [List.append_assoc, List.append_assoc] at ended

end BoundedBytes.Bulk
