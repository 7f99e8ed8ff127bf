import BoundedBytes.Proofs.Stack.Refinement

namespace BoundedBytes

theorem Lifo.observed_of_keepsBounds {call : Stack.Call} (kept : call.keepsBounds = true)
    (size other : Nat) (f : Option Lifo) : observed size f call = observed other f call := by
  cases call with
  | init | initWhole => cases kept
  | push | pop | peek | reset => cases f <;> rfl

namespace Stack

-- Cursors of two stacks are at the same distances from where the stacks end.
def Cursors.Shifted (bottom bottom' : Word) (c d : Cursors) : Prop :=
  ∀ field, Word.SameOffset bottom bottom' (c.field field) (d.field field)

variable {size size' sentinel bottom sentinel' bottom' : Word} {s ready next : Stack size}
  {s' ready' : Stack size'} {call : Call} {reply : Reply} {memory : Memory size}
  {memory' : Memory size'} {c d : Cursors}

theorem Move.bottom_kept (kept : call.keepsBounds = true) (move : Move s call reply next) :
    next.cursors.map Cursors.bottom = s.cursors.map Cursors.bottom := by
  cases move with
  | bounded | misplaced | whole => cases kept
  | unset | full | pushed | empty | popped | blind | seen | idle | cleared => rfl

-- Two stacks that differ only in where their slots lie and in what is left in
-- their arrays. The list that a stack stands for tells how far apart its
-- cursors are, so the bottom places them all.
structure Alike (bottom bottom' : Word) (s : Stack size) (s' : Stack size') : Prop where
  valid : s.Valid ∧ s'.Valid
  lifo : s.lifo = s'.lifo
  bottoms : s.cursors.map Cursors.bottom = some bottom ∧
    s'.cursors.map Cursors.bottom = some bottom'

theorem Alike.step (alike : Alike bottom bottom' s s') (kept : call.keepsBounds = true) :
    ∃ answer next next', observed step s call = some (answer, next) ∧
      observed step s' call = some (answer, next') ∧ Alike bottom bottom' next next' := by
  obtain ⟨valid, valid'⟩ := alike.valid
  obtain ⟨next, made, held, stands⟩ := observed_lifo valid call
  obtain ⟨next', made', held', stands'⟩ := observed_lifo valid' call
  rw [← alike.lifo, ← Lifo.observed_of_keepsBounds kept size.toNat] at made' stands'
  have move := (step_exact valid).mp (step_of_observed made)
  have move' := (step_exact valid').mp (step_of_observed made')
  refine ⟨_, next, next', made, made', ⟨held, held'⟩, stands.trans stands'.symm, ?_⟩
  rw [move.bottom_kept kept, move'.bottom_kept kept]
  exact alike.bottoms

theorem alike_of_init (accepted : s.init sentinel bottom = some (.ok (), ready))
    (accepted' : s'.init sentinel' bottom' = some (.ok (), ready'))
    (slots : sentinel.toNat - bottom.toNat = sentinel'.toNat - bottom'.toNat) :
    Alike bottom bottom' ready ready' := by
  obtain ⟨valid, stands⟩ := lifo_of_init accepted
  obtain ⟨valid', stands'⟩ := lifo_of_init accepted'
  obtain ⟨_, _, rfl⟩ := init_accepted accepted
  obtain ⟨_, _, rfl⟩ := init_accepted accepted'
  exact ⟨⟨valid, valid'⟩, by rw [stands, stands', slots], rfl, rfl⟩

theorem depths_of_lifo (within : c.Within size) (within' : d.Within size')
    (same : lifo ⟨memory, some c⟩ = lifo ⟨memory', some d⟩) :
    c.sentinel.toNat - c.bottom.toNat = d.sentinel.toNat - d.bottom.toNat ∧
      c.sentinel.toNat - c.top.toNat = d.sentinel.toNat - d.top.toNat := by
  rw [lifo_eq, lifo_eq, Option.some.injEq, Lifo.mk.injEq] at same
  rw [← length_bytes within, ← length_bytes within', same.2]
  exact ⟨same.1, rfl⟩

theorem Cursors.Within.shifted (within : c.Within size) (within' : d.Within size')
    (room : c.sentinel.toNat - c.bottom.toNat = d.sentinel.toNat - d.bottom.toNat)
    (used : c.sentinel.toNat - c.top.toNat = d.sentinel.toNat - d.top.toNat) :
    c.Shifted c.bottom d.bottom d := by
  have above := UInt16.le_iff_toNat_le.mp within.above
  have below := UInt16.le_iff_toNat_le.mp within.below
  have above' := UInt16.le_iff_toNat_le.mp within'.above
  have below' := UInt16.le_iff_toNat_le.mp within'.below
  intro field
  unfold Word.SameOffset
  cases field with
  | sentinel | bottom | top =>
    simp only [Cursors.field]
    omega

theorem Alike.shifted (alike : Alike bottom bottom' s s') :
    ∃ c d, s.cursors = some c ∧ s'.cursors = some d ∧ c.Shifted bottom bottom' d := by
  rcases s with ⟨memory, cursors⟩
  rcases s' with ⟨memory', cursors'⟩
  obtain ⟨c, rfl, rfl⟩ := Option.map_eq_some_iff.mp alike.bottoms.1
  obtain ⟨d, rfl, rfl⟩ := Option.map_eq_some_iff.mp alike.bottoms.2
  have within := alike.valid.1.within
  have within' := alike.valid.2.within
  obtain ⟨room, used⟩ := depths_of_lifo within within' alike.lifo
  exact ⟨c, d, rfl, rfl, within.shifted within' room used⟩

theorem run_alike (alike : Alike bottom bottom' s s') {calls : List Call}
    (kept : ∀ call ∈ calls, call.keepsBounds = true) :
    ∃ answers last last', run (observed step) s calls = some (answers, last) ∧
      run (observed step) s' calls = some (answers, last') ∧ Alike bottom bottom' last last' :=
  run_paired (Alike bottom bottom') (fun member alike => alike.step (kept _ member)) alike

theorem run_shifted (accepted : s.init sentinel bottom = some (.ok (), ready))
    (accepted' : s'.init sentinel' bottom' = some (.ok (), ready'))
    (slots : sentinel.toNat - bottom.toNat = sentinel'.toNat - bottom'.toNat) {calls : List Call}
    (kept : ∀ call ∈ calls, call.keepsBounds = true) :
    ∃ answers last last', run (observed step) ready calls = some (answers, last) ∧
      run (observed step) ready' calls = some (answers, last') ∧
      ∃ c d, last.cursors = some c ∧ last'.cursors = some d ∧ c.Shifted bottom bottom' d := by
  obtain ⟨answers, last, last', ran, ran', alike⟩ :=
    run_alike (alike_of_init accepted accepted' slots) kept
  exact ⟨answers, last, last', ran, ran', alike.shifted⟩

end Stack

end BoundedBytes
