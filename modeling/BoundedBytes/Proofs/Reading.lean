import BoundedBytes.Proofs.Queue.Coded
import BoundedBytes.Proofs.Stack.Coded

namespace BoundedBytes

namespace Coded

variable {σ χ α : Type} {step : Step σ χ Receipt} {read : Bool → α → Option Word → χ} {s : σ}
  {shown : α → Option Word}

-- Calls by numbers read the words that a container shows and nothing else, in
-- any order and as often as they like.
structure Reads (step : Step σ χ Receipt) (read : Bool → α → Option Word → χ) (s : σ)
    (shown : α → Option Word) : Prop where
  told : ∀ given a slot, ∃ receipt, step s (read given a slot) = some (receipt, s) ∧
    Told given (shown a) slot receipt ∧ (receipt.code ≠ ok → receipt.slot = .ofWord? slot)
  still : ∀ asked : List (Bool × α × Option Word), ∃ receipts,
    run step s (asked.map fun ask => read ask.1 ask.2.1 ask.2.2) = some (receipts, s) ∧
      List.Forall₂ (fun ask receipt => step s (read ask.1 ask.2.1 ask.2.2) = some (receipt, s))
        asked receipts

theorem Reads.of_told (told : ∀ given a slot, ∃ receipt,
    step s (read given a slot) = some (receipt, s) ∧ Told given (shown a) slot receipt) :
    Reads step read s shown where
  told given a slot := by
    obtain ⟨receipt, made, row⟩ := told given a slot
    exact ⟨receipt, made, row, row.kept⟩
  still asked := by
    have still : ∀ call ∈ asked.map fun ask => read ask.1 ask.2.1 ask.2.2,
        ∃ receipt, step s call = some (receipt, s) := by
      intro call member
      obtain ⟨⟨given, a, slot⟩, _, rfl⟩ := List.mem_map.mp member
      obtain ⟨receipt, made, _⟩ := told given a slot
      exact ⟨receipt, made⟩
    obtain ⟨receipts, ran, each⟩ := run_still still
    exact ⟨receipts, ran, List.forall₂_map_left_iff.mp each⟩

theorem Reads.handed (reads : Reads step read s shown) {given : Bool} {a : α} {slot : Option Word}
    {receipt : Receipt} (made : step s (read given a slot) = some (receipt, s))
    (accepted : receipt.code = ok) :
    ∃ word, shown a = some word ∧ receipt.slot = .word word := by
  obtain ⟨_, answered, told, _⟩ := reads.told given a slot
  cases answered.symm.trans made
  exact told.handed accepted

-- Where the words shown are the fields of a block, a field handed over is one of
-- a block that is there, and so are all the others.
theorem Reads.assembled {γ φ : Type} (reads : Reads step read s shown) {block : Option γ}
    {field : γ → φ → Word} {place : φ → α} (shows : ∀ f, shown (place f) = block.map (field · f))
    {receipts : φ → Receipt} (accepted : ∀ f, (receipts f).code = ok ∧
      ∃ given slot, step s (read given (place f) slot) = some (receipts f, s)) (one : φ) :
    ∃ c, block = some c ∧ ∀ f, (receipts f).slot = .word (field c f) := by
  have handed : ∀ f, ∃ c, block = some c ∧ (receipts f).slot = .word (field c f) := by
    intro f
    obtain ⟨success, given, slot, made⟩ := accepted f
    obtain ⟨word, there, held⟩ := reads.handed made success
    obtain ⟨c, present, rfl⟩ := Option.map_eq_some_iff.mp ((shows f).symm.trans there)
    exact ⟨c, present, held⟩
  obtain ⟨c, present, _⟩ := handed one
  refine ⟨c, present, ?_⟩
  intro f
  obtain ⟨d, again, held⟩ := handed f
  cases present.symm.trans again
  exact held

end Coded

open Coded (Receipt Reads ok)

namespace Stack

variable {size : Word} {s : Stack size}

-- The words put together are the cursors of the stack. A pop, unlike a reading,
-- notices a missing slot before it looks for bounds.
structure Legible (s : Stack size) : Prop extends Reads Coded.step .read s s.shown where
  extent : ∀ c, s.cursors = some c → s.capacity = some (c.sentinel - c.bottom).toNat ∧
    (c.sentinel - c.bottom).toNat + c.bottom.toNat = c.sentinel.toNat
  block : ∀ receipts : Cursors.Field → Receipt,
    (∀ field, (receipts field).code = ok ∧ ∃ given slot,
      Coded.step s (.read given (.cursor field) slot) = some (receipts field, s)) →
    ∃ word : Cursors.Field → Word, (∀ field, (receipts field).slot = .word (word field)) ∧
      s.cursors = some ⟨word .sentinel, word .bottom, word .top⟩
  popping : Coded.step s (.pop true none) = some (⟨Error.nullReference.code, .missing⟩, s)

theorem Valid.reads (valid : s.Valid) : Reads Coded.step .read s s.shown :=
  .of_told (Coded.step_told valid)

theorem Valid.legible (valid : s.Valid) : s.Legible where
  toReads := valid.reads
  extent c present := by
    have within := valid c present
    have room := Word.sub?_of_le (UInt16.le_of_lt within.room)
    refine ⟨?_, Word.sub?_eq_some_iff.mp room⟩
    rw [capacity, present]
    simp only [Cursors.room, room, Option.map_some]
  block receipts accepted := by
    obtain ⟨c, present, held⟩ := valid.reads.assembled (fun _ => rfl) accepted .top
    exact ⟨c.field, held, present⟩
  popping := rfl

end Stack

namespace Queue

variable {size : Word}

structure Legible (q : Queue size) : Prop extends
    Reads Coded.step .read q (fun field => q.cursors.map (·.field field)) where
  block : ∀ receipts : Cursors.Field → Receipt,
    (∀ field, (receipts field).code = ok ∧ ∃ given slot,
      Coded.step q (.read given field slot) = some (receipts field, q)) →
    ∃ word : Cursors.Field → Word, (∀ field, (receipts field).slot = .word (word field)) ∧
      q.cursors = some ⟨word .start, word .stop, word .head, word .lastRead, word .tail⟩
  dequeuing : Coded.step q (.dequeue true none) = some (⟨Error.nullReference.code, .missing⟩, q)

theorem reads (q : Queue size) : Reads Coded.step .read q q.view := .of_told (Coded.step_told q)

theorem legible (q : Queue size) : q.Legible where
  toReads := q.reads
  block receipts accepted := by
    obtain ⟨c, present, held⟩ := q.reads.assembled (fun _ => rfl) accepted .tail
    exact ⟨c.field, held, present⟩
  dequeuing := rfl

end Queue

-- Wherever calls of both kinds have led a new container, the nine readings by
-- numbers show it as it is, refuse for the same reasons in the same order, and
-- leave it alone.
theorem run_legible (size : Word) :
    (∀ calls, ∃ replies last, run Stack.anyStep (Stack.new size) calls = some (replies, last) ∧
      last.Legible) ∧
    ∀ calls, ∃ replies last, run Queue.anyStep (Queue.new size) calls = some (replies, last) ∧
      last.Legible := by
  constructor
  · intro calls
    obtain ⟨replies, last, ran, valid⟩ := (Stack.standsFor size).run_valid (Stack.valid_new size) calls
    exact ⟨replies, last, ran, valid.legible⟩
  · intro calls
    obtain ⟨replies, last, ran, _⟩ := (Queue.standsFor size).run_valid (Queue.valid_new size) calls
    exact ⟨replies, last, ran, last.legible⟩

end BoundedBytes
