import BoundedBytes.Proofs.Stack.Coded

namespace BoundedBytes.Stack

-- Calls that neither move the bounds nor discard what is on the stack.
def Call.nests : Call → Bool
  | .push _ | .pop | .peek => true
  | .init .. | .initWhole | .reset => false

def Call.isPush : Call → Bool
  | .push _ => true
  | .init .. | .initWhole | .pop | .peek | .reset => false

def pushes (calls : List Call) : Nat := calls.countP Call.isPush

def pops (calls : List Call) : Nat := calls.count .pop

-- Nothing but pushes, pops and peeks occurs. At no point were there more pops
-- than pushes, and in the end there are as many.
structure Balanced (calls : List Call) : Prop where
  nesting : ∀ call ∈ calls, call.nests = true
  supplied : ∀ count ≤ calls.length, pops (calls.take count) ≤ pushes (calls.take count)
  settled : pops calls = pushes calls

instance : DecidablePred Balanced := fun calls =>
  decidable_of_iff
    ((∀ call ∈ calls, call.nests = true) ∧
      (∀ count ≤ calls.length, pops (calls.take count) ≤ pushes (calls.take count)) ∧
      pops calls = pushes calls)
    ⟨fun ⟨nesting, supplied, settled⟩ => ⟨nesting, supplied, settled⟩,
      fun balanced => ⟨balanced.nesting, balanced.supplied, balanced.settled⟩⟩

-- Calls with their replies, where each pop hands over the byte of its push: the
-- latest one before it that no pop in between belongs to.
inductive Matched : List Call → List Reply → Prop where
  | nil : Matched [] []
  | peek : Matched calls replies → Matched (.peek :: calls) (reply :: replies)
  | pair : Matched body answers → Matched calls replies →
      Matched (.push value :: (body ++ .pop :: calls))
        (.ok none :: (answers ++ .ok (some value) :: replies))

-- Calls that give back all they push and `depth` bytes from before, and never
-- more than that.
structure Owing (depth : Nat) (calls : List Call) : Prop where
  nesting : ∀ call ∈ calls, call.nests = true
  supplied : ∀ count ≤ calls.length, pops (calls.take count) ≤ pushes (calls.take count) + depth
  settled : pops calls = pushes calls + depth

-- Pushes paired with pops, one pair beside another or inside it.
inductive Nested : List Call → Prop where
  | nil : Nested []
  | peek : Nested calls → Nested (.peek :: calls)
  | pair (value : UInt8) : Nested body → Nested calls → Nested (.push value :: (body ++ .pop :: calls))

-- Nested calls that are broken off by so many pops without a push.
inductive Unwinding : Nat → List Call → Prop where
  | level : Nested calls → Unwinding 0 calls
  | close : Nested body → Unwinding depth calls → Unwinding (depth + 1) (body ++ .pop :: calls)

-- A stack whose cursors are as they were, and whose array differs at most in
-- slots that were free.
structure Undisturbed {size : Word} (c : Cursors) (s last : Stack size) : Prop where
  cursors : last.cursors = some c
  contents : ∀ slot, slot < c.bottom.toNat ∨ c.top.toNat ≤ slot →
    last.contents[slot]? = s.contents[slot]?

variable {size : Word} {s next last : Stack size} {c d : Cursors} {calls : List Call}
  {replies : List Reply} {depth : Nat} {value : UInt8}

@[simp] theorem pushes_push : pushes (.push value :: calls) = pushes calls + 1 :=
  List.countP_cons_of_pos rfl

@[simp] theorem pushes_pop : pushes (.pop :: calls) = pushes calls :=
  List.countP_cons_of_neg nofun

@[simp] theorem pushes_peek : pushes (.peek :: calls) = pushes calls :=
  List.countP_cons_of_neg nofun

@[simp] theorem pops_push : pops (.push value :: calls) = pops calls :=
  List.count_cons_of_ne (show Call.push value ≠ .pop from nofun)

@[simp] theorem pops_pop : pops (.pop :: calls) = pops calls + 1 := List.count_cons_self

@[simp] theorem pops_peek : pops (.peek :: calls) = pops calls :=
  List.count_cons_of_ne (show Call.peek ≠ .pop from nofun)

theorem Balanced.owing (balanced : Balanced calls) : Owing 0 calls :=
  ⟨balanced.nesting, balanced.supplied, balanced.settled⟩

theorem Owing.push (owing : Owing depth (.push value :: calls)) : Owing (depth + 1) calls := by
  refine ⟨fun call member => owing.nesting call (List.mem_cons_of_mem _ member), ?_, ?_⟩
  · intro count within
    have supplied := owing.supplied (count + 1) (Nat.succ_le_succ within)
    simp only [List.take_succ_cons, pops_push, pushes_push] at supplied
    omega
  · have settled := owing.settled
    simp only [pops_push, pushes_push] at settled
    omega

theorem Owing.pop (owing : Owing depth (.pop :: calls)) :
    ∃ less, depth = less + 1 ∧ Owing less calls := by
  have first : 1 ≤ depth := by simpa [pops, pushes, Call.isPush] using owing.supplied 1 (by simp)
  obtain ⟨less, rfl⟩ := Nat.exists_eq_add_of_le' first
  refine ⟨less, rfl, fun call member => owing.nesting call (List.mem_cons_of_mem _ member), ?_, ?_⟩
  · intro count within
    have supplied := owing.supplied (count + 1) (Nat.succ_le_succ within)
    simp only [List.take_succ_cons, pops_pop, pushes_pop] at supplied
    omega
  · have settled := owing.settled
    simp only [pops_pop, pushes_pop] at settled
    omega

theorem Owing.peek (owing : Owing depth (.peek :: calls)) : Owing depth calls := by
  refine ⟨fun call member => owing.nesting call (List.mem_cons_of_mem _ member), ?_, ?_⟩
  · intro count within
    simpa using owing.supplied (count + 1) (Nat.succ_le_succ within)
  · simpa using owing.settled

theorem Unwinding.peek (unwinding : Unwinding depth calls) : Unwinding depth (.peek :: calls) := by
  cases unwinding with
  | level nested => exact .level nested.peek
  | close inner rest => exact .close inner.peek rest

-- The first pop without a push now has one.
theorem Unwinding.push (unwinding : Unwinding (depth + 1) calls) (value : UInt8) :
    Unwinding depth (.push value :: calls) := by
  cases unwinding with
  | close inner rest =>
    cases rest with
    | level nested => exact .level (.pair value inner nested)
    | close middle rest =>
      have closed := Unwinding.close (Nested.pair value inner middle) rest
      simpa only [List.cons_append, List.append_assoc] using closed

theorem Owing.unwinding (owing : Owing depth calls) : Unwinding depth calls := by
  induction calls generalizing depth with
  | nil =>
    have nothing : depth = 0 := by simpa [pops, pushes] using owing.settled.symm
    exact nothing ▸ .level .nil
  | cons call calls ih =>
    have nests := owing.nesting call (List.mem_cons_self ..)
    cases call with
    | init | initWhole | reset => cases nests
    | push value => exact (ih owing.push).push value
    | peek => exact (ih owing.peek).peek
    | pop =>
      obtain ⟨less, rfl, rest⟩ := owing.pop
      exact .close .nil (ih rest)

theorem Balanced.nested (balanced : Balanced calls) : Nested calls := by
  cases balanced.owing.unwinding with
  | level nested => exact nested

theorem exists_run (valid : s.Valid) (calls : List Call) :
    ∃ replies last, run step s calls = some (replies, last) ∧ last.Valid := by
  refine run_preserved Valid ?_ valid calls
  intro s call valid
  obtain ⟨reply, next, move⟩ := exists_move valid call
  exact ⟨reply, next, step_of_move valid move, move.valid valid⟩

theorem Undisturbed.trans (one : Undisturbed c s next) (two : Undisturbed c next last) :
    Undisturbed c s last :=
  ⟨two.cursors, fun slot outside => (two.contents slot outside).trans (one.contents slot outside)⟩

-- The calls between a push and its pop find the byte of the push above their
-- top, so they leave it there.
theorem Undisturbed.pair {before middle after : Stack size} {pushed popped : Reply}
    (kept : Undisturbed d before middle) (present : s.cursors = some c)
    (push : Move s (.push value) pushed before) (accepted : pushed.refused = false)
    (placed : before.cursors = some d) (pop : Move middle .pop popped after)
    (accepted' : popped.refused = false) :
    pushed = .ok none ∧ popped = .ok (some value) ∧ Undisturbed c s after := by
  obtain ⟨top, moved, low, rfl, placed', wrote⟩ := push.pushing present accepted
  cases placed.symm.trans placed'
  obtain ⟨back, byte, returned, rfl, read, ended, same⟩ := pop.popping kept.cursors accepted'
  have whole : back = c.top := UInt16.toNat_inj.mp (returned.trans moved)
  have held : middle.contents[top.toNat]? = some value := by
    rw [kept.contents top.toNat (.inr (Nat.le_refl _)), wrote, if_pos rfl]
  refine ⟨rfl, by rw [Option.some.inj (read.symm.trans held)], by rw [ended, whole], ?_⟩
  intro slot outside
  rw [same, kept.contents slot (outside.imp_right fun above => show top.toNat ≤ slot by omega), wrote,
    if_neg (by omega)]

theorem Nested.undisturbed (nested : Nested calls) (valid : s.Valid) (present : s.cursors = some c)
    (ran : run step s calls = some (replies, last))
    (accepted : ∀ reply ∈ replies, reply.refused = false) :
    Undisturbed c s last ∧ Matched calls replies := by
  induction nested generalizing s c replies last with
  | nil =>
    cases ran
    exact ⟨⟨present, fun _ _ => rfl⟩, .nil⟩
  | peek _ ih =>
    obtain ⟨reply, next, later, made, continued, rfl⟩ := run_cons_split ran
    cases ((step_exact valid).mp made).peeking
    obtain ⟨undisturbed, matched⟩ :=
      ih valid present continued (List.forall_mem_cons.mp accepted).2
    exact ⟨undisturbed, matched.peek⟩
  | pair value _ _ ihInner ihRest =>
    obtain ⟨pushed, before, later, made, continued, rfl⟩ := run_cons_split ran
    obtain ⟨answers, middle, closing, inner, closed, rfl⟩ := run_append_split continued
    obtain ⟨popped, after, rest, made', remaining, rfl⟩ := run_cons_split closed
    simp only [List.forall_mem_cons, List.forall_mem_append] at accepted
    obtain ⟨acceptedPush, acceptedInner, acceptedPop, acceptedRest⟩ := accepted
    have push := (step_exact valid).mp made
    have validBefore := push.valid valid
    obtain ⟨_, _, again, validMiddle⟩ := exists_run validBefore _
    cases inner.symm.trans again
    have pop := (step_exact validMiddle).mp made'
    obtain ⟨_, _, _, _, placed, _⟩ := push.pushing present acceptedPush
    obtain ⟨kept, matchedInner⟩ := ihInner validBefore placed inner acceptedInner
    obtain ⟨rfl, rfl, undisturbed⟩ := kept.pair present push acceptedPush placed pop acceptedPop
    obtain ⟨ended, matchedRest⟩ :=
      ihRest (pop.valid validMiddle) undisturbed.cursors remaining acceptedRest
    exact ⟨undisturbed.trans ended, .pair matchedInner matchedRest⟩

theorem top_ne_sentinel (valid : s.Valid) (present : s.cursors = some c)
    (occupied : s.isEmpty = some false) : c.top ≠ c.sentinel := by
  rcases s with ⟨memory, cursors⟩
  cases present
  intro met
  simp [isEmpty, length_eq valid.within, met] at occupied

-- The byte goes back to the slot it was read from, which still holds it.
theorem Move.restored {byte : UInt8} (valid : s.Valid) (present : s.cursors = some c)
    (pop : Move s .pop (.ok (some byte)) next) : Move next (.push byte) (.ok none) s := by
  obtain ⟨raised, _, moved, same, read, placed, kept⟩ := pop.popping present rfl
  cases same
  have above := UInt16.le_iff_toNat_le.mp (valid c present).above
  have room : raised ≠ c.bottom := by
    rintro rfl
    omega
  obtain ⟨after, push⟩ := (pop.valid valid).exists_pushing placed room byte
  obtain ⟨top, lowered, _, _, ended, wrote⟩ := push.pushing placed rfl
  have whole : top = c.top := UInt16.toNat_inj.mp (Nat.succ.inj (lowered.trans moved))
  have contents : after.contents = s.contents := by
    apply Memory.ext_slots
    intro slot
    rw [wrote, kept, whole]
    split
    · rename_i here
      rw [here, read]
    · rfl
  have restored : after = s := by
    cases after
    cases s
    cases contents
    cases present
    cases ended
    rw [whole]
  exact restored ▸ push

-- Code that pops all it pushes leaves a stack to its caller as it found it: the
-- cursors and all that was on it or lies beyond its bounds. Only free slots may
-- hold something else. A byte taken off and put back leaves no trace at all.
theorem balanced_unseen (path : Reached anyStep (new size) s) (present : s.cursors = some c) :
    (∀ calls, Balanced calls → ∃ replies last, run step s calls = some (replies, last) ∧
      ((∀ reply ∈ replies, reply.refused = false) →
        Undisturbed c s last ∧ Matched calls replies)) ∧
    (s.isEmpty = some false → ∃ byte next, s.step .pop = some (.ok (some byte), next) ∧
      next.step (.push byte) = some (.ok none, s)) := by
  have valid := (standsFor size).valid_of_reached (valid_new size) path
  constructor
  · intro calls balanced
    obtain ⟨replies, last, ran, _⟩ := exists_run valid calls
    exact ⟨replies, last, ran, balanced.nested.undisturbed valid present ran⟩
  · intro occupied
    obtain ⟨byte, next, pop⟩ := valid.exists_popping present (top_ne_sentinel valid present occupied)
    have push := pop.restored valid present
    exact ⟨byte, next, step_of_move valid pop, step_of_move (pop.valid valid) push⟩

-- Two bytes over one of the caller's, each with a pop of its own.
theorem balanced_unseen_nested :
    ∃ s last next : Stack 6, s = ⟨#v[0, 0, 0, 0, 5, 0], some ⟨5, 1, 4⟩⟩ ∧
      last = ⟨#v[0, 0, 8, 7, 5, 0], some ⟨5, 1, 4⟩⟩ ∧ next = ⟨#v[0, 0, 0, 0, 5, 0], some ⟨5, 1, 5⟩⟩ ∧
      Reached anyStep (new 6) s ∧ Balanced [.push 7, .push 8, .pop, .peek, .pop] ∧
      run step s [.push 7, .push 8, .pop, .peek, .pop] =
        some ([.ok none, .ok none, .ok (some 8), .ok (some 7), .ok (some 7)], last) ∧
      Undisturbed ⟨5, 1, 4⟩ s last ∧
      Matched [.push 7, .push 8, .pop, .peek, .pop]
        [.ok none, .ok none, .ok (some 8), .ok (some 7), .ok (some 7)] ∧
      s.isEmpty = some false ∧ s.step .pop = some (.ok (some 5), next) ∧
      next.step (.push 5) = some (.ok none, s) := by
  let s : Stack 6 := ⟨#v[0, 0, 0, 0, 5, 0], some ⟨5, 1, 4⟩⟩
  let last : Stack 6 := ⟨#v[0, 0, 8, 7, 5, 0], some ⟨5, 1, 4⟩⟩
  let next : Stack 6 := ⟨#v[0, 0, 0, 0, 5, 0], some ⟨5, 1, 5⟩⟩
  have reached : run anyStep (new 6) [.plain (.init 5 1), .plain (.push 5)] =
      some ([.plain (.ok none), .plain (.ok none)], s) := rfl
  have nesting : run step s [.push 7, .push 8, .pop, .peek, .pop] =
      some ([.ok none, .ok none, .ok (some 8), .ok (some 7), .ok (some 7)], last) := rfl
  have balanced : Balanced [.push 7, .push 8, .pop, .peek, .pop] := by decide
  obtain ⟨unseen, restored⟩ := balanced_unseen (.run .start reached) rfl
  obtain ⟨_, _, ran, left⟩ := unseen _ balanced
  cases nesting.symm.trans ran
  obtain ⟨undisturbed, matched⟩ := left (by decide)
  obtain ⟨_, _, taken, restored⟩ := restored rfl
  have known : s.step .pop = some (.ok (some 5), next) := rfl
  cases known.symm.trans taken
  exact ⟨s, last, next, rfl, rfl, rfl, .run .start reached, balanced, nesting, undisturbed, matched,
    rfl, known, restored⟩

end BoundedBytes.Stack
