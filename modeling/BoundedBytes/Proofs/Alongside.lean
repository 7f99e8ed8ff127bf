import BoundedBytes.Proofs.Queue.Coded
import BoundedBytes.Proofs.Stack.Coded

namespace BoundedBytes

namespace Coded

section Sides

variable {σ κ χ : Type}

-- Two containers side by side. The first is driven by numbers; on the second
-- the call is made that each call by numbers stands for, if there is one.
def alongside (coded : Step σ χ Receipt) (plain : Step σ κ Reply) (plain? : χ → Option κ) :
    Step (σ × σ) χ (Receipt × Option Reply) := fun pair call =>
  match coded pair.1 call with
  | none => none
  | some (receipt, first) =>
    match plain? call with
    | none => some ((receipt, none), (first, pair.2))
    | some meant =>
      match plain pair.2 meant with
      | none => none
      | some (reply, second) => some ((receipt, some reply), (first, second))

-- What a call by numbers, with this slot, tells of the reply that the call it
-- stands for gets. Without that call there is no reply to tell of.
structure Tells (reads : Bool) (slot : Slot) (told : Receipt × Option Reply) : Prop where
  dependable : told.1.Dependable slot
  skipped : told.2 = none → reads = false → told.1.code = Error.nullReference.code
  made : ∀ reply, told.2 = some reply → told.1.code = codeOf reply ∧
    outcome? told.1.code = some (reply.map fun _ => ())
  handed : ∀ reply, told.2 = some reply → slot ≠ .missing → told.1.code = ok →
    ∃ value, reply = .ok (some value) ∧ told.1.slot = .byte value

variable [Numbered χ κ] {valid : σ → Prop} {plain : Step σ κ Reply} {coded : Step σ χ Receipt} {s : σ}

theorem StandsFor.alongside_same (stands : StandsFor valid plain coded) (call : χ) (held : valid s) :
    ∃ told next, alongside coded plain Numbered.plain? (s, s) call = some (told, (next, next)) ∧
      Tells (Numbered.reads call) (Numbered.slot call) told ∧ valid next := by
  cases meaning : Numbered.plain? call with
  | none =>
    obtain ⟨receipt, skipped, dependable⟩ := stands.skipped held meaning
    refine ⟨(receipt, none), s, ?_, ⟨dependable, ?_, nofun, nofun⟩, held⟩
    · simp only [alongside, skipped, meaning]
    · intro _ drives
      cases (stands.missing drives meaning).symm.trans skipped
      rfl
  | some meant =>
    obtain ⟨reply, next, made, kept, _⟩ := stands.answered meant held
    have dependable := Receipt.ofReply_dependable (Numbered.slot call) reply
    refine ⟨(.ofReply (Numbered.slot call) reply, some reply), next, ?_, ⟨dependable, nofun, ?_, ?_⟩, kept⟩
    · simp only [alongside, stands.meant meaning, meaning, made, Option.map_some]
    · intro _ same
      cases same
      have code := Receipt.ofReply_code (Numbered.slot call) reply
      exact ⟨code, code ▸ outcome?_codeOf reply⟩
    · intro _ same takes success
      cases same
      have accepted : reply.refused = false := by
        rw [← Receipt.ofReply_refused (Numbered.slot call), Receipt.refused, success]
        rfl
      obtain ⟨value, rfl⟩ := stands.handing held meaning takes made accepted
      exact ⟨value, rfl, rfl⟩

theorem StandsFor.run_same (stands : StandsFor valid plain coded) (start : valid s) (calls : List χ) :
    ∃ told last, run (alongside coded plain Numbered.plain?) (s, s) calls = some (told, (last, last)) ∧
      List.Forall₂ (fun call => Tells (Numbered.reads call) (Numbered.slot call)) calls told := by
  have kept : ∀ {pair : σ × σ} call, (∃ s, pair = (s, s) ∧ valid s) →
      ∃ told next, alongside coded plain Numbered.plain? pair call = some (told, next) ∧
        Tells (Numbered.reads call) (Numbered.slot call) told ∧ ∃ s, next = (s, s) ∧ valid s := by
    rintro _ call ⟨s, rfl, held⟩
    obtain ⟨told, next, made, tells, carried⟩ := stands.alongside_same call held
    exact ⟨told, (next, next), made, tells, next, rfl, carried⟩
  obtain ⟨told, _, ran, tells, last, rfl, _⟩ := run_each _ _ kept ⟨s, rfl, start⟩ calls
  exact ⟨told, last, ran, tells⟩

-- A run with some of its plain calls told by numbers ends where it did.
theorem StandsFor.run_twins (stands : StandsFor valid plain coded) (start : valid s)
    {calls twins : List (AnyCall κ χ)} (pairs : List.Forall₂ AnyCall.Twin calls twins) :
    ∃ replies last, run (either plain coded) s calls = some (replies, last) ∧
      run (either plain coded) s twins =
        some (List.zipWith AnyCall.told twins replies, last) := by
  obtain ⟨replies, last, ran, _⟩ := stands.run_valid start calls
  refine ⟨replies, last, ran, ?_⟩
  rw [run_retold AnyCall.told stands.twin pairs, ran, Option.map_some]

end Sides

end Coded

open Coded (alongside Tells)

-- Driving a container by numbers is driving it by plain calls. After every run
-- both ways have led two containers to the same state, and each receipt tells
-- what the plain call replied. In any run a plain call may give way to its twin.
theorem run_alongside (size : Word) :
    (∀ calls, ∃ told last,
      run (alongside Stack.Coded.step Stack.step Stack.Coded.Call.plain?)
          (Stack.new size, Stack.new size) calls = some (told, (last, last)) ∧
        List.Forall₂ (fun call => Tells call.reads call.slot) calls told) ∧
    (∀ calls, ∃ told last,
      run (alongside Queue.Coded.step Queue.step Queue.Coded.Call.plain?)
          (Queue.new size, Queue.new size) calls = some (told, (last, last)) ∧
        List.Forall₂ (fun call => Tells call.reads call.slot) calls told) ∧
    (∀ calls twins, List.Forall₂ AnyCall.Twin calls twins → ∃ replies last,
      run Stack.anyStep (Stack.new size) calls = some (replies, last) ∧
        run Stack.anyStep (Stack.new size) twins =
          some (List.zipWith AnyCall.told twins replies, last)) ∧
    ∀ calls twins, List.Forall₂ AnyCall.Twin calls twins → ∃ replies last,
      run Queue.anyStep (Queue.new size) calls = some (replies, last) ∧
        run Queue.anyStep (Queue.new size) twins =
          some (List.zipWith AnyCall.told twins replies, last) := by
  refine ⟨(Stack.standsFor size).run_same (Stack.valid_new size),
    (Queue.standsFor size).run_same (Queue.valid_new size), ?_, ?_⟩
  · intro calls twins pairs
    exact (Stack.standsFor size).run_twins (Stack.valid_new size) pairs
  · intro calls twins pairs
    exact (Queue.standsFor size).run_twins (Queue.valid_new size) pairs

-- In each run the bounds are set by a plain call and the rest is told by numbers.
theorem run_alongside_twins :
    (run Stack.anyStep (.new 2) [.plain (.init 2 0), .plain (.push 7), .plain .pop] =
        some ([.plain (.ok none), .plain (.ok none), .plain (.ok (some 7))],
          ⟨#v[0, 7], some ⟨2, 0, 2⟩⟩) ∧
      run Stack.anyStep (.new 2)
          [.plain (.init 2 0), .coded (.push true 7), .coded (.pop true (some 238))] =
        some ([.plain (.ok none), .coded ⟨0, .missing⟩, .coded ⟨0, .byte 7⟩],
          ⟨#v[0, 7], some ⟨2, 0, 2⟩⟩)) ∧
    run Queue.anyStep (.new 2) [.plain .initWhole, .plain (.enqueue 7), .plain (.enqueue 8)] =
        some ([.plain (.ok none), .plain (.ok none), .plain (.error .full)],
          ⟨#v[7, 0], some ⟨0, 2, 0, 1, 1⟩⟩) ∧
      run Queue.anyStep (.new 2)
          [.plain .initWhole, .coded (.enqueue true 7), .coded (.enqueue true 8)] =
        some ([.plain (.ok none), .coded ⟨0, .missing⟩, .coded ⟨5, .missing⟩],
          ⟨#v[7, 0], some ⟨0, 2, 0, 1, 1⟩⟩) := by
  constructor
  · obtain ⟨replies, last, ran, retold⟩ := (run_alongside 2).2.2.1
      [.plain (.init 2 0), .plain (.push 7), .plain .pop]
      [.plain (.init 2 0), .coded (.push true 7), .coded (.pop true (some 238))]
      (.cons (.same _) (.cons (.coded rfl) (.cons (.coded rfl) .nil)))
    have known : run Stack.anyStep (.new 2) [.plain (.init 2 0), .plain (.push 7), .plain .pop] =
        some ([.plain (.ok none), .plain (.ok none), .plain (.ok (some 7))],
          ⟨#v[0, 7], some ⟨2, 0, 2⟩⟩) := rfl
    cases known.symm.trans ran
    exact ⟨known, retold⟩
  · obtain ⟨replies, last, ran, retold⟩ := (run_alongside 2).2.2.2
      [.plain .initWhole, .plain (.enqueue 7), .plain (.enqueue 8)]
      [.plain .initWhole, .coded (.enqueue true 7), .coded (.enqueue true 8)]
      (.cons (.same _) (.cons (.coded rfl) (.cons (.coded rfl) .nil)))
    have known : run Queue.anyStep (.new 2)
        [.plain .initWhole, .plain (.enqueue 7), .plain (.enqueue 8)] =
        some ([.plain (.ok none), .plain (.ok none), .plain (.error .full)],
          ⟨#v[7, 0], some ⟨0, 2, 0, 1, 1⟩⟩) := rfl
    cases known.symm.trans ran
    exact ⟨known, retold⟩

end BoundedBytes
