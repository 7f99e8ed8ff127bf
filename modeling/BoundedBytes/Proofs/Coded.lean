import BoundedBytes.Coded
import BoundedBytes.Proofs.Run

namespace BoundedBytes

namespace Coded

-- What a caller by numbers is told of a reply: its code, and in the slot the
-- byte handed over or else what the slot held before.
def Receipt.ofReply (slot : Slot) : Reply → Receipt
  | .ok (some value) => ⟨ok, .byte value⟩
  | .ok none => ⟨ok, slot⟩
  | .error e => ⟨e.code, slot⟩

variable {σ : Type} {s : σ} {call : σ → Checked (Answer σ Unit)}
  {take : σ → Checked (Answer σ UInt8)}

theorem command_given (slot : Slot) :
    (command (some s) call).map (fun (code, next) => (Receipt.mk code slot, next.getD s)) =
      ((call s).map Answer.silent).map fun (reply, next) => (Receipt.ofReply slot reply, next) := by
  simp only [command]
  cases call s with
  | none => rfl
  | some answer =>
    rcases answer with ⟨outcome, next⟩
    cases outcome <;> rfl

theorem fetch_given (held : UInt8) :
    (fetch (some s) (some held) take).map
        (fun (code, slot, next) => (Receipt.mk code (.ofByte? slot), next.getD s)) =
      ((take s).map Answer.handing).map
        fun (reply, next) => (Receipt.ofReply (.byte held) reply, next) := by
  simp only [fetch]
  cases take s with
  | none => rfl
  | some answer =>
    rcases answer with ⟨outcome, next⟩
    cases outcome <;> rfl

-- A receipt is dependable when its code stands for an outcome and a refusal
-- leaves in the slot what the slot held before.
structure Receipt.Dependable (slot : Slot) (receipt : Receipt) : Prop where
  understood : (outcome? receipt.code).isSome = true
  kept : receipt.refused = true → receipt.slot = slot

theorem Receipt.ofReply_code (slot : Slot) (reply : Reply) :
    (Receipt.ofReply slot reply).code = codeOf reply := by
  rcases reply with e | _ | value <;> rfl

theorem Receipt.ofReply_dependable (slot : Slot) (reply : Reply) :
    (Receipt.ofReply slot reply).Dependable slot := by
  refine ⟨?_, ?_⟩
  · rw [ofReply_code, outcome?_codeOf]
    rfl
  · intro refused
    rcases reply with e | _ | value
    · rfl
    · rfl
    · cases refused

theorem Receipt.ofReply_refused (slot : Slot) (reply : Reply) :
    (Receipt.ofReply slot reply).refused = reply.refused := by
  rcases reply with e | _ | value
  · exact bne_iff_ne.mpr e.code_ne_zero
  · rfl
  · rfl

-- What a caller is told who reads a word by number, the word that is there to be
-- read and the caller's slot being given. A missing container is noticed first
-- and a missing slot last. A word that is handed over is the only thing written.
inductive Told : Bool → Option Word → Option Word → Receipt → Prop where
  | missing : Told false word slot ⟨Error.nullReference.code, .ofWord? slot⟩
  | unset : Told true none slot ⟨Error.uninitialized.code, .ofWord? slot⟩
  | unplaced : Told true (some value) none ⟨Error.nullReference.code, .missing⟩
  | placed : Told true (some value) (some held) ⟨ok, .word value⟩

theorem Told.kept {given : Bool} {word slot : Option Word} {receipt : Receipt}
    (told : Told given word slot receipt) (refused : receipt.code ≠ ok) :
    receipt.slot = .ofWord? slot := by
  cases told with
  | missing | unset | unplaced => rfl
  | placed => exact absurd rfl refused

theorem Told.handed {given : Bool} {word slot : Option Word} {receipt : Receipt}
    (told : Told given word slot receipt) (accepted : receipt.code = ok) :
    ∃ value, word = some value ∧ receipt.slot = .word value := by
  cases told with
  | missing | unset | unplaced => cases accepted
  | placed => exact ⟨_, rfl, rfl⟩

theorem Told.dependable {given : Bool} {word slot : Option Word} {receipt : Receipt}
    (told : Told given word slot receipt) : receipt.Dependable (.ofWord? slot) where
  understood := by cases told <;> rfl
  kept refused := told.kept (bne_iff_ne.mp refused)

theorem inspect_told (s : σ) (view : σ → Checked (Option Word)) {word : Option Word}
    (seen : view s = some word) (given : Bool) (slot : Option Word) :
    ∃ code held, inspect (if given then some s else none) slot view = some (code, held) ∧
      Told given word slot ⟨code, .ofWord? held⟩ := by
  cases given with
  | false => exact ⟨_, _, rfl, .missing⟩
  | true =>
    simp only [if_true, inspect, seen, Option.map_some]
    cases word with
    | none => exact ⟨_, _, rfl, .unset⟩
    | some value =>
      cases slot with
      | none => exact ⟨_, _, rfl, .unplaced⟩
      | some held => exact ⟨_, _, rfl, .placed⟩

-- How calls by numbers stand for plain ones, over the states that a container
-- can be in.
structure StandsFor {σ κ χ : Type} [Numbered χ κ] (valid : σ → Prop) (plain : Step σ κ Reply)
    (coded : Step σ χ Receipt) : Prop where
  answered : ∀ {s} call, valid s → ∃ reply next, plain s call = some (reply, next) ∧ valid next ∧
    (reply.refused = true → next = s)
  meant : ∀ {s} {call : χ} {meant}, Numbered.plain? call = some meant → coded s call =
    (plain s meant).map fun (reply, next) => (.ofReply (Numbered.slot call) reply, next)
  missing : ∀ {s} {call : χ}, Numbered.reads call = false → Numbered.plain? call = none →
    coded s call = some (.ofReply (Numbered.slot call) (.error .nullReference), s)
  reading : ∀ {s} {call : χ}, valid s → Numbered.reads call = true →
    ∃ receipt, coded s call = some (receipt, s) ∧ receipt.Dependable (Numbered.slot call)
  handing : ∀ {s} {call : χ} {meant reply next}, valid s → Numbered.plain? call = some meant →
    Numbered.slot call ≠ .missing → plain s meant = some (reply, next) → reply.refused = false →
    ∃ value, reply = .ok (some value)

end Coded

open Coded (Numbered Receipt StandsFor)

-- A call in place of another: the same, or the call by numbers that stands for
-- it with everything at hand.
inductive AnyCall.Twin [Numbered χ κ] : AnyCall κ χ → AnyCall κ χ → Prop where
  | same (call : AnyCall κ χ) : Twin call call
  | coded {call : χ} {meant : κ} (stands : Numbered.plain? call = some meant) :
    Twin (.plain meant) (.coded call)

-- How a reply is told to a caller in the other's place.
def AnyCall.told [Numbered χ κ] : AnyCall κ χ → AnyReply → AnyReply
  | .coded call, .plain reply => .coded (.ofReply (Numbered.slot call) reply)
  | _, reply => reply

namespace Coded.StandsFor

variable {σ κ χ : Type} [Numbered χ κ] {valid : σ → Prop} {plain : Step σ κ Reply}
  {coded : Step σ χ Receipt} {first s : σ}

theorem skipped (stands : StandsFor valid plain coded) (held : valid s) {call : χ}
    (absent : Numbered.plain? call = none) :
    ∃ receipt, coded s call = some (receipt, s) ∧ receipt.Dependable (Numbered.slot call) := by
  cases reads : Numbered.reads call with
  | true => exact stands.reading held reads
  | false => exact ⟨_, stands.missing reads absent, Receipt.ofReply_dependable _ _⟩

-- Either way to drive a container makes the plain call that a call comes to, or
-- leaves the container alone where it comes to none. It is refused where the
-- plain call is, and a refusal changes neither the container nor the slot.
theorem exists_step (stands : StandsFor valid plain coded) (held : valid s) (call : AnyCall κ χ) :
    ∃ reply next, either plain coded s call = some (reply, next) ∧ valid next ∧
      (reply.refused = true → next = s ∧ reply.slot = call.slot) ∧
      (call.meant = none ∧ next = s ∨ ∃ meant answer, call.meant = some meant ∧
        plain s meant = some (answer, next) ∧ answer.refused = reply.refused) := by
  cases call with
  | plain call =>
    obtain ⟨answer, next, made, carried, unchanged⟩ := stands.answered call held
    refine ⟨.plain answer, next, ?_, carried, fun refused => ⟨unchanged refused, rfl⟩,
      .inr ⟨call, answer, rfl, made, rfl⟩⟩
    simp only [either, made, Option.map_some]
  | coded call =>
    cases meaning : Numbered.plain? call with
    | none =>
      obtain ⟨receipt, answered, dependable⟩ := stands.skipped held meaning
      refine ⟨.coded receipt, s, ?_, held, fun refused => ⟨rfl, dependable.kept refused⟩,
        .inl ⟨meaning, rfl⟩⟩
      simp only [either, answered, Option.map_some]
    | some meant =>
      obtain ⟨answer, next, made, carried, unchanged⟩ := stands.answered meant held
      have dependable := Receipt.ofReply_dependable (Numbered.slot call) answer
      have alike := Receipt.ofReply_refused (Numbered.slot call) answer
      refine ⟨.coded (.ofReply (Numbered.slot call) answer), next, ?_, carried, ?_,
        .inr ⟨meant, answer, meaning, made, alike.symm⟩⟩
      · simp only [either, stands.meant meaning, made, Option.map_some]
      · intro refused
        exact ⟨unchanged (alike.symm.trans refused), dependable.kept refused⟩

theorem twin (stands : StandsFor valid plain coded) {call other : AnyCall κ χ} (s : σ)
    (pair : call.Twin other) :
    either plain coded s other =
      (either plain coded s call).map fun made => (other.told made.1, made.2) := by
  cases pair with
  | same =>
    cases call with
    | plain call =>
      simp only [either, Option.map_map]
      rfl
    | coded call =>
      simp only [either, Option.map_map]
      rfl
  | coded stood =>
    simp only [either, stands.meant stood, Option.map_map]
    rfl

theorem valid_of_reached (stands : StandsFor valid plain coded) (start : valid first)
    (path : Reached (either plain coded) first s) : valid s := by
  refine path.preserved start ?_
  intro s call reply next held made
  obtain ⟨_, _, answered, carried, _⟩ := stands.exists_step held call
  cases answered.symm.trans made
  exact carried

-- No run of calls of either kind faults, and every one keeps the container valid.
theorem run_valid (stands : StandsFor valid plain coded) (start : valid first)
    (calls : List (AnyCall κ χ)) :
    ∃ replies last, run (either plain coded) first calls = some (replies, last) ∧ valid last := by
  refine run_preserved valid ?_ start calls
  intro s call held
  obtain ⟨reply, next, made, carried, _⟩ := stands.exists_step held call
  exact ⟨reply, next, made, carried⟩

end Coded.StandsFor

end BoundedBytes
