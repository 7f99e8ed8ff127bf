import BoundedBytes.Proofs.Queue.Coded
import BoundedBytes.Proofs.Queue.Refinement
import BoundedBytes.Proofs.Stack.Coded
import BoundedBytes.Proofs.Stack.Refinement

namespace BoundedBytes

-- Whatever calls of both kinds a new container is given, all of them are
-- answered. The cursors of a stack then lie in order in its array, and those of
-- a queue lie in its ring with the free slot just behind the head and off the
-- unread bytes.
theorem run_representation (size : Word) :
    (∀ calls, ∃ replies last, run Stack.anyStep (Stack.new size) calls = some (replies, last) ∧
      ∀ c, last.cursors = some c → c.Within size) ∧
    ∀ calls, ∃ replies last, run Queue.anyStep (Queue.new size) calls = some (replies, last) ∧
      ∀ c, last.cursors = some c → c.Within size ∧ c.next c.lastRead = some c.head ∧
        c.lastRead.toNat ∉ c.unreadSlots := by
  refine ⟨(Stack.standsFor size).run_valid (Stack.valid_new size), ?_⟩
  intro calls
  obtain ⟨replies, last, ran, valid⟩ := (Queue.standsFor size).run_valid (Queue.valid_new size) calls
  refine ⟨replies, last, ran, ?_⟩
  intro c present
  have within := valid c present
  exact ⟨within, within.free⟩

-- What the checked operations watch for: a word that leaves its range and an
-- access outside the array, and nothing else.
structure FaultsOutside (size : Word) : Prop where
  add : ∀ a b, Word.add? a b = none ↔ 65535 < a.toNat + b.toNat
  sub : ∀ a b, Word.sub? a b = none ↔ a.toNat < b.toNat
  read : ∀ (memory : Memory size) address,
    memory.read address = none ↔ size.toNat ≤ address.toNat
  write : ∀ (memory : Memory size) address value,
    memory.write address value = none ↔ size.toNat ≤ address.toNat

theorem faultsOutside (size : Word) : FaultsOutside size where
  add _ _ := Word.add?_eq_none_iff
  sub _ _ := Word.sub?_eq_none_iff
  read _ _ := Memory.read_eq_none_iff
  write _ _ _ := Memory.write_eq_none_iff

theorem Occupancy.parts {capacity length : Checked Nat} {empty : Checked Bool} {full : Bool}
    {occupancy : Occupancy}
    (seen : (do return (⟨← capacity, ← length, ← empty, full⟩ : Occupancy)) = some occupancy) :
    capacity = some occupancy.capacity ∧ length = some occupancy.length ∧
      empty = some occupancy.empty := by
  obtain ⟨most, held, rest⟩ := Option.bind_eq_some_iff.mp seen
  obtain ⟨count, counted, rest⟩ := Option.bind_eq_some_iff.mp rest
  obtain ⟨nothing, looked, same⟩ := Option.bind_eq_some_iff.mp rest
  cases Option.some.inj same
  exact ⟨held, counted, looked⟩

namespace Stack

variable {size : Word} {s : Stack size}

-- Everything that a stack can be asked is answered: calls of either kind and
-- every look at its size, its bytes and its cursors.
structure Answers (s : Stack size) : Prop where
  calls : ∀ call, ∃ reply next, s.anyStep call = some (reply, next)
  capacity : ∃ most, s.capacity = some most
  length : ∃ count, s.length = some count
  isEmpty : ∃ empty, s.isEmpty = some empty
  view : ∀ reading, ∃ word, s.view reading = some word

theorem Valid.answers (valid : s.Valid) : s.Answers := by
  obtain ⟨capacity, length, empty⟩ := Occupancy.parts (occupancy_lifo valid)
  refine ⟨?_, ⟨_, capacity⟩, ⟨_, length⟩, ⟨_, empty⟩, fun reading => ⟨_, view_eq valid reading⟩⟩
  intro call
  obtain ⟨reply, next, made, _⟩ := (standsFor size).exists_step valid call
  exact ⟨reply, next, made⟩

end Stack

namespace Queue

variable {size : Word} {q : Queue size}

-- A queue shows its cursors as they are, so looking at them needs no check.
structure Answers (q : Queue size) : Prop where
  calls : ∀ call, ∃ reply next, q.anyStep call = some (reply, next)
  capacity : ∃ most, q.capacity = some most
  length : ∃ count, q.length = some count
  isEmpty : ∃ empty, q.isEmpty = some empty

theorem Valid.answers (valid : q.Valid) : q.Answers := by
  obtain ⟨capacity, length, empty⟩ := Occupancy.parts (occupancy_fifo valid)
  refine ⟨?_, ⟨_, capacity⟩, ⟨_, length⟩, ⟨_, empty⟩⟩
  intro call
  obtain ⟨reply, next, made, _⟩ := (standsFor size).exists_step valid call
  exact ⟨reply, next, made⟩

end Queue

-- No run of calls of either kind meets a fault, and none is in reach after it.
theorem run_without_faults (size : Word) :
    FaultsOutside size ∧
    (∀ calls, ∃ replies last, run Stack.anyStep (Stack.new size) calls = some (replies, last) ∧
      last.Answers) ∧
    ∀ calls, ∃ replies last, run Queue.anyStep (Queue.new size) calls = some (replies, last) ∧
      last.Answers := by
  refine ⟨faultsOutside size, ?_, ?_⟩
  · intro calls
    obtain ⟨replies, last, ran, valid⟩ := (Stack.standsFor size).run_valid (Stack.valid_new size) calls
    exact ⟨replies, last, ran, valid.answers⟩
  · intro calls
    obtain ⟨replies, last, ran, valid⟩ := (Queue.standsFor size).run_valid (Queue.valid_new size) calls
    exact ⟨replies, last, ran, valid.answers⟩

section Refusals

variable {σ κ χ : Type} [Coded.Numbered χ κ] (step : Step σ (AnyCall κ χ) AnyReply)

-- Every call in a state either is accepted or changes neither the state nor
-- the slot handed over with it.
def Atomic (s : σ) : Prop :=
  ∀ call, ∃ reply next, step s call = some (reply, next) ∧
    (reply.refused = true → next = s ∧ reply.slot = call.slot)

-- Wherever a run ends, the next refusal changes nothing, and the run without
-- its refused calls gives the same replies to the others and ends there too.
def AtomicFrom (first : σ) : Prop :=
  ∀ calls, ∃ replies last, run step first calls = some (replies, last) ∧ Atomic step last ∧
    run step first ((accepted AnyReply.refused calls replies).map Prod.fst) =
      some ((accepted AnyReply.refused calls replies).map Prod.snd, last)

theorem atomicFrom_of_standsFor {valid : σ → Prop} {plain : Step σ κ Reply}
    {coded : Step σ χ Coded.Receipt} (stands : Coded.StandsFor valid plain coded) {first : σ}
    (start : valid first) : AtomicFrom (either plain coded) first := by
  have left : ∀ {s} call, valid s → ∃ reply next, either plain coded s call = some (reply, next) ∧
      valid next ∧ (reply.refused = true → next = s) := by
    intro s call held
    obtain ⟨reply, next, made, carried, unchanged, _⟩ := stands.exists_step held call
    exact ⟨reply, next, made, carried, fun refused => (unchanged refused).1⟩
  intro calls
  obtain ⟨replies, last, ran, ended, shorter⟩ := run_accepted AnyReply.refused valid left start calls
  refine ⟨replies, last, ran, ?_, shorter⟩
  intro call
  obtain ⟨reply, next, made, _, unchanged, _⟩ := stands.exists_step ended call
  exact ⟨reply, next, made, unchanged⟩

end Refusals

-- No call of either kind, whatever is missing from it, does part of its work
-- and then refuses.
theorem run_atomic (size : Word) :
    AtomicFrom Stack.anyStep (Stack.new size) ∧ AtomicFrom Queue.anyStep (Queue.new size) :=
  ⟨atomicFrom_of_standsFor (Stack.standsFor size) (Stack.valid_new size),
    atomicFrom_of_standsFor (Queue.standsFor size) (Queue.valid_new size)⟩

end BoundedBytes
