import BoundedBytes.Proofs.Coded

namespace BoundedBytes

-- What a call asks of a container, in words that fit both kinds.
inductive Demand where
  | bound (lower upper : Word)
  | insert (value : UInt8)
  | remove
  | clear
  | look
deriving DecidableEq

def Demand.binds : Demand → Bool
  | .bound .. => true
  | .insert _ | .remove | .clear | .look => false

-- A call of either kind asks what the plain call does that it comes to.
def AnyCall.demand [Coded.Numbered χ κ] (ask : κ → Demand) (call : AnyCall κ χ) : Demand :=
  call.meant.elim .look ask

-- How a container lies in its array: the bytes of the array, the region in use,
-- and the slots of the live bytes, first the one that is handed over next.
structure Layout (σ : Type) where
  byte : σ → Nat → Option UInt8
  region : σ → Option (Word × Word)
  live : σ → List Nat

namespace Layout

-- The byte in a slot is given up when it is taken, or discarded with the rest.
def Frees (layout : Layout σ) (s : σ) (slot : Nat) : Demand → Prop
  | .remove => (layout.live s).head? = some slot
  | .clear => True
  | .bound .. | .insert _ | .look => False

-- Everything that an answered demand may do to the array. Only an accepted
-- insertion writes, and it writes one free slot of the region.
structure Effect (layout : Layout σ) (s next : σ) (demand : Demand) (refused : Bool) : Prop where
  untouched : (∀ value, demand = .insert value → refused = true) →
    ∀ i, layout.byte next i = layout.byte s i
  written : ∀ value, demand = .insert value → refused = false →
    ∃ lower upper slot, layout.region s = some (lower, upper) ∧
      lower.toNat ≤ slot ∧ slot < upper.toNat ∧ slot ∉ layout.live s ∧
      ∀ i, layout.byte next i = if i = slot then some value else layout.byte s i
  bounded : ∀ lower upper, demand = .bound lower upper → refused = false →
    layout.region next = some (lower, upper)
  region : (demand.binds = true → refused = true) → layout.region next = layout.region s
  live : (demand.binds = true → refused = true) →
    ∀ slot ∈ layout.live s, ¬layout.Frees s slot demand → slot ∈ layout.live next

variable {σ κ ρ : Type} {layout : Layout σ} {s next : σ} {demand : Demand} {refused : Bool}
  {lower upper : Word} {slot : Nat} {value : UInt8}

theorem Effect.refusal (layout : Layout σ) (s : σ) (demand : Demand) :
    layout.Effect s s demand true where
  untouched _ _ := rfl
  written _ _ accepted := nomatch accepted
  bounded _ _ _ accepted := nomatch accepted
  region _ := rfl
  live _ _ member _ := member

theorem Effect.unwritten (idle : ∀ value, demand ≠ .insert value) (loose : demand.binds = false)
    (bytes : ∀ i, layout.byte next i = layout.byte s i)
    (region : layout.region next = layout.region s)
    (live : ∀ slot ∈ layout.live s, ¬layout.Frees s slot demand → slot ∈ layout.live next) :
    layout.Effect s next demand refused where
  untouched _ := bytes
  written value insertion := absurd insertion (idle value)
  bounded _ _ binding := by
    subst binding
    cases loose
  region _ := region
  live _ := live

theorem Effect.looking : layout.Effect s s .look refused :=
  .unwritten nofun rfl (fun _ => rfl) rfl fun _ member _ => member

theorem Effect.clearing (bytes : ∀ i, layout.byte next i = layout.byte s i)
    (region : layout.region next = layout.region s) : layout.Effect s next .clear refused :=
  .unwritten nofun rfl bytes region fun _ _ spared => absurd trivial spared

theorem Effect.removing (bytes : ∀ i, layout.byte next i = layout.byte s i)
    (region : layout.region next = layout.region s)
    (slots : layout.live s = slot :: layout.live next) : layout.Effect s next .remove refused := by
  refine .unwritten nofun rfl bytes region ?_
  intro other member spared
  rw [slots] at member
  rcases List.mem_cons.mp member with rfl | rest
  · exact absurd (congrArg List.head? slots) spared
  · exact rest

theorem Effect.bounding (bytes : ∀ i, layout.byte next i = layout.byte s i)
    (region : layout.region next = some (lower, upper)) :
    layout.Effect s next (.bound lower upper) false where
  untouched _ := bytes
  written _ insertion := nomatch insertion
  bounded _ _ binding _ := by
    cases binding
    exact region
  region kept := nomatch kept rfl
  live kept := nomatch kept rfl

theorem Effect.inserting (inUse : layout.region s = some (lower, upper)) (low : lower.toNat ≤ slot)
    (high : slot < upper.toNat) (free : slot ∉ layout.live s)
    (bytes : ∀ i, layout.byte next i = if i = slot then some value else layout.byte s i)
    (region : layout.region next = layout.region s)
    (live : ∀ other ∈ layout.live s, other ∈ layout.live next) :
    layout.Effect s next (.insert value) false where
  untouched idle := nomatch idle value rfl
  written written insertion _ := by
    cases insertion
    exact ⟨lower, upper, slot, inUse, low, high, free, bytes⟩
  bounded _ _ binding := nomatch binding
  region _ := region
  live _ other member _ := live other member

-- A byte is safe where it is live, and also where it is outside the region.
theorem Effect.byte_kept (effect : layout.Effect s next demand refused) {i : Nat}
    (safe : ∀ lower upper, layout.region s = some (lower, upper) →
      lower.toNat ≤ i → i < upper.toNat → i ∈ layout.live s) :
    layout.byte next i = layout.byte s i := by
  by_cases idle : ∀ value, demand = .insert value → refused = true
  · exact effect.untouched idle i
  · obtain ⟨value, insertion, accepted⟩ : ∃ value, demand = .insert value ∧ refused = false := by
      simpa using idle
    obtain ⟨lower, upper, slot, inUse, low, high, free, wrote⟩ :=
      effect.written value insertion accepted
    have apart : i ≠ slot := by
      rintro rfl
      exact free (safe lower upper inUse low high)
    rw [wrote, if_neg apart]

theorem Effect.outside_kept (effect : layout.Effect s next demand refused) {lower upper : Word}
    (inUse : layout.region s = some (lower, upper)) {i : Nat}
    (outside : i < lower.toNat ∨ upper.toNat ≤ i) : layout.byte next i = layout.byte s i := by
  apply effect.byte_kept
  intro lower' upper' same low high
  cases inUse.symm.trans same
  omega

theorem Effect.live_kept (effect : layout.Effect s next demand refused) {slot : Nat}
    (member : slot ∈ layout.live s) : layout.byte next slot = layout.byte s slot :=
  effect.byte_kept fun _ _ _ _ _ => member

section Runs

variable (layout : Layout σ) (demand : κ → Demand) (refused : ρ → Bool) (step : Step σ κ ρ)

-- No step sets new bounds.
def KeepsBounds (_ : σ) (call : κ) (reply : ρ) : Prop :=
  (demand call).binds = true → refused reply = true

-- No step gives up the byte in a slot.
def Spares (slot : Nat) (s : σ) (call : κ) (_ : ρ) : Prop := ¬layout.Frees s slot (demand call)

-- A container in a state writes nowhere but into free slots of its region. Once
-- it has accepted bounds and until it accepts others, no run of calls changes a
-- byte outside them, and none changes a live byte before it gives it up.
structure Confined (s : σ) : Prop where
  effects : ∀ call, ∃ reply next, step s call = some (reply, next) ∧
    layout.Effect s next (demand call) (refused reply)
  kept : ∀ call lower upper, demand call = .bound lower upper →
    ∃ reply ready, step s call = some (reply, ready) ∧ (refused reply = false →
      ∀ before after, ∃ replies middle later last,
        run step ready before = some (replies, middle) ∧ run step middle after = some (later, last) ∧
        (Throughout step (KeepsBounds demand refused) ready (before ++ after) →
          (∀ i, i < lower.toNat ∨ upper.toNat ≤ i → layout.byte last i = layout.byte ready i) ∧
          ∀ slot ∈ layout.live middle, Throughout step (layout.Spares demand slot) middle after →
            slot ∈ layout.live last ∧ layout.byte last slot = layout.byte middle slot))

-- Every call in a valid state is answered, and does what it may do.
def Sound (valid : σ → Prop) : Prop :=
  ∀ s call, valid s → ∃ reply next, step s call = some (reply, next) ∧ valid next ∧
    layout.Effect s next (demand call) (refused reply)

variable {layout demand refused step} {valid : σ → Prop} {calls : List κ}

theorem Sound.run_valid (sound : layout.Sound demand refused step valid) (start : valid s)
    (calls : List κ) : ∃ replies last, run step s calls = some (replies, last) ∧ valid last := by
  refine run_preserved valid ?_ start calls
  intro s call held
  obtain ⟨reply, next, made, carried, _⟩ := sound s call held
  exact ⟨reply, next, made, carried⟩

theorem Sound.run_outside (sound : layout.Sound demand refused step valid) (start : valid s)
    {lower upper : Word} (inUse : layout.region s = some (lower, upper))
    (keeps : Throughout step (KeepsBounds demand refused) s calls) :
    ∃ replies last, run step s calls = some (replies, last) ∧
      ∀ i, i < lower.toNat ∨ upper.toNat ≤ i → layout.byte last i = layout.byte s i := by
  let related (t : σ) : Prop := valid t ∧ layout.region t = some (lower, upper) ∧
    ∀ i, i < lower.toNat ∨ upper.toNat ≤ i → layout.byte t i = layout.byte s i
  have kept : ∀ {t} call, related t → ∃ reply next, step t call = some (reply, next) ∧
      (KeepsBounds demand refused t call reply → related next) := by
    rintro t call ⟨held, region, same⟩
    obtain ⟨reply, next, made, carried, effect⟩ := sound t call held
    refine ⟨reply, next, made, fun keep => ⟨carried, (effect.region keep).trans region, ?_⟩⟩
    intro i outside
    exact (effect.outside_kept region outside).trans (same i outside)
  obtain ⟨replies, last, ran, _, _, same⟩ :=
    run_guarded related kept ⟨start, inUse, fun _ _ => rfl⟩ keeps
  exact ⟨replies, last, ran, same⟩

theorem Sound.run_live (sound : layout.Sound demand refused step valid) (start : valid s)
    {slot : Nat} (member : slot ∈ layout.live s)
    (keeps : Throughout step (KeepsBounds demand refused) s calls)
    (spares : Throughout step (layout.Spares demand slot) s calls) :
    ∃ replies last, run step s calls = some (replies, last) ∧
      slot ∈ layout.live last ∧ layout.byte last slot = layout.byte s slot := by
  let related (t : σ) : Prop :=
    valid t ∧ slot ∈ layout.live t ∧ layout.byte t slot = layout.byte s slot
  have kept : ∀ {t} call, related t → ∃ reply next, step t call = some (reply, next) ∧
      (KeepsBounds demand refused t call reply ∧ layout.Spares demand slot t call reply →
        related next) := by
    rintro t call ⟨held, present, same⟩
    obtain ⟨reply, next, made, carried, effect⟩ := sound t call held
    refine ⟨reply, next, made, ?_⟩
    rintro ⟨keep, spare⟩
    exact ⟨carried, effect.live keep slot present spare, (effect.live_kept present).trans same⟩
  obtain ⟨replies, last, ran, _, present, same⟩ :=
    run_guarded related kept ⟨start, member, rfl⟩ (keeps.and spares)
  exact ⟨replies, last, ran, present, same⟩

theorem Sound.confined (sound : layout.Sound demand refused step valid) (held : valid s) :
    Confined layout demand refused step s := by
  refine ⟨?_, ?_⟩
  · intro call
    obtain ⟨reply, next, made, _, effect⟩ := sound s call held
    exact ⟨reply, next, made, effect⟩
  · intro call lower upper binding
    obtain ⟨reply, ready, made, start, effect⟩ := sound s call held
    refine ⟨reply, ready, made, ?_⟩
    intro accepted before after
    obtain ⟨replies, middle, ran, between⟩ := sound.run_valid start before
    obtain ⟨later, last, continued, _⟩ := sound.run_valid between after
    refine ⟨replies, middle, later, last, ran, continued, ?_⟩
    intro keeps
    constructor
    · obtain ⟨_, final, whole, same⟩ :=
        sound.run_outside start (effect.bounded lower upper binding accepted) keeps
      rw [run_append, ran, Option.bind_some, continued] at whole
      cases whole
      exact same
    · intro slot member spares
      obtain ⟨_, final, rest, kept⟩ := sound.run_live between member (keeps.append ran).2 spares
      cases continued.symm.trans rest
      exact kept

end Runs

-- Plain calls that do what they may do are enough for calls of either kind.
theorem sound_of_standsFor {χ : Type} [Coded.Numbered χ κ] {ask : κ → Demand} {valid : σ → Prop}
    {plain : Step σ κ Reply} {coded : Step σ χ Coded.Receipt}
    (stands : Coded.StandsFor valid plain coded)
    (effect : ∀ {s call reply next}, valid s → plain s call = some (reply, next) →
      layout.Effect s next (ask call) reply.refused) :
    layout.Sound (AnyCall.demand ask) AnyReply.refused (either plain coded) valid := by
  intro s call held
  obtain ⟨reply, next, made, carried, _, covered⟩ := stands.exists_step held call
  refine ⟨reply, next, made, carried, ?_⟩
  rcases covered with ⟨absent, rfl⟩ | ⟨meant, answer, meaning, answered, alike⟩
  · rw [AnyCall.demand, absent]
    exact .looking
  · rw [AnyCall.demand, meaning, ← alike]
    exact effect held answered

end Layout

end BoundedBytes
