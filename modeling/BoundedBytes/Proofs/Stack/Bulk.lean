import BoundedBytes.Proofs.Bulk
import BoundedBytes.Proofs.Stack.Nesting
import BoundedBytes.Proofs.Stack.Refinement

namespace BoundedBytes.Stack

def discipline : Bulk.Discipline := ⟨fun value bytes => value :: bytes, .overflow, .underflow⟩

variable {size : Word} {s last : Stack size} {c : Cursors} {most : Nat} {bytes : List UInt8}
  {value byte : UInt8}

theorem placeAll_eq (values bytes : List UInt8) :
    discipline.placeAll values bytes = values.reverse ++ bytes := by
  induction values generalizing bytes with
  | nil => rfl
  | cons value values ih =>
    rw [Bulk.Discipline.placeAll, List.foldl_cons, List.reverse_cons, List.append_assoc]
    exact ih (value :: bytes)

-- A stack that stands for a bounded list.
structure Holds (most : Nat) (bytes : List UInt8) (s : Stack size) : Prop where
  valid : s.Valid
  lifo : s.lifo = some ⟨most, bytes⟩

theorem Holds.move (holds : Holds most bytes s) (call : Call) :
    ∃ reply next, Move s call reply next ∧
      Lifo.step size.toNat (some ⟨most, bytes⟩) call = (reply, next.lifo) := by
  obtain ⟨reply, next, move⟩ := exists_move holds.valid call
  exact ⟨reply, next, move, holds.lifo ▸ move.lifo holds.valid⟩

theorem Holds.insert (value : UInt8) (holds : Holds most bytes s) (room : bytes.length < most) :
    ∃ next, s.push value = some (.ok (), next) ∧ Holds most (value :: bytes) next := by
  obtain ⟨reply, next, move, listed⟩ := holds.move (.push value)
  have accepted : Lifo.step size.toNat (some ⟨most, bytes⟩) (.push value) =
      (.ok none, some ⟨most, value :: bytes⟩) := if_pos room
  obtain ⟨rfl, lifo⟩ := Prod.mk.inj (listed.symm.trans accepted)
  exact ⟨next, Answer.of_silent (step_of_move holds.valid move), move.valid holds.valid, lifo⟩

theorem Holds.full (value : UInt8) (holds : Holds most bytes s) (room : most ≤ bytes.length) :
    s.push value = some (.error .overflow, s) := by
  obtain ⟨reply, next, move, listed⟩ := holds.move (.push value)
  have refused : Lifo.step size.toNat (some ⟨most, bytes⟩) (.push value) =
      (.error .overflow, some ⟨most, bytes⟩) := if_neg (Nat.not_lt_of_le room)
  obtain ⟨rfl, _⟩ := Prod.mk.inj (listed.symm.trans refused)
  cases move.unchanged rfl
  exact Answer.of_silent (step_of_move holds.valid move)

theorem Holds.remove (holds : Holds most (byte :: bytes) s) :
    ∃ next, s.pop = some (.ok byte, next) ∧ Holds most bytes next := by
  obtain ⟨reply, next, move, listed⟩ := holds.move .pop
  obtain ⟨rfl, lifo⟩ := Prod.mk.inj listed
  exact ⟨next, Answer.of_handing (step_of_move holds.valid move), move.valid holds.valid, lifo.symm⟩

theorem Holds.empty (holds : Holds most [] s) : s.pop = some (.error .underflow, s) := by
  obtain ⟨reply, next, move, listed⟩ := holds.move .pop
  obtain ⟨rfl, _⟩ := Prod.mk.inj listed
  cases move.unchanged rfl
  exact Answer.of_withholding (step_of_move holds.valid move)

theorem keeps_discipline (size : Word) : discipline.Keeps (@Holds size) where
  length _ _ := List.length_cons
  insert := Holds.insert
  full := Holds.full
  remove := Holds.remove
  empty := Holds.empty

theorem Valid.holds (valid : s.Valid) (present : s.cursors = some c) :
    Holds (c.sentinel.toNat - c.bottom.toNat) s.bytes s := by
  refine ⟨valid, ?_⟩
  rw [lifo, present, Option.map_some]

theorem Valid.sizes (valid : s.Valid) (present : s.cursors = some c) :
    s.capacity = some (c.sentinel.toNat - c.bottom.toNat) ∧ s.length = some s.bytes.length ∧
      s.bytes.length ≤ c.sentinel.toNat - c.bottom.toNat ∧
      s.isFull = (s.bytes.length == c.sentinel.toNat - c.bottom.toNat) := by
  rcases s with ⟨memory, cursors⟩
  cases present
  have above := UInt16.le_iff_toNat_le.mp valid.within.above
  rw [capacity_eq valid.within, length_eq valid.within, isFull_eq valid.within,
    length_bytes valid.within]
  exact ⟨rfl, rfl, Nat.sub_le_sub_left above _, rfl⟩

theorem Holds.turnover (holds : Holds most bytes s) (values : List UInt8) :
    ∃ filled drained, Bulk.Fills .overflow (most - bytes.length) s values filled ∧
      Bulk.Drains .underflow filled ((values.take (most - bytes.length)).reverse ++ bytes) drained ∧
      ∀ others, ∃ again, Bulk.Fills .overflow most drained others again := by
  obtain ⟨filled, drained, fills, drains, again⟩ := (keeps_discipline size).turnover holds values
  rw [placeAll_eq] at drains
  exact ⟨filled, drained, fills, drains, again⟩

theorem isFull_of_cursors (present : s.cursors = some c) : s.isFull = (c.top == c.bottom) := by
  rw [isFull, present]
  rfl

-- Where cursors are as they were and no slot that was taken has changed, the
-- same bytes are on the stack.
theorem Undisturbed.bytes_eq (undisturbed : Undisturbed c s last) (present : s.cursors = some c)
    (within : c.Within size) : last.bytes = s.bytes := by
  rcases s with ⟨memory, cursors⟩
  rcases last with ⟨memory', cursors'⟩
  cases present
  cases undisturbed.cursors
  refine List.filterMap_congr ?_
  intro slot member
  exact undisturbed.contents slot (.inr ((Cursors.mem_liveSlots within).mp member).1)

theorem Valid.round (valid : s.Valid) (present : s.cursors = some c) (room : c.top ≠ c.bottom)
    (value : UInt8) :
    ∃ held next, s.push value = some (.ok (), held) ∧ held.pop = some (.ok value, next) ∧
      next.Valid ∧ next.cursors = some c ∧ next.bytes = s.bytes := by
  obtain ⟨held, push⟩ := valid.exists_pushing present room value
  obtain ⟨top, moved, _, _, placed, _⟩ := push.pushing present rfl
  have below := UInt16.le_iff_toNat_le.mp (valid c present).below
  have waiting : top ≠ c.sentinel := by
    rintro rfl
    omega
  obtain ⟨byte, next, pop⟩ := (push.valid valid).exists_popping placed waiting
  obtain ⟨_, same, undisturbed⟩ :=
    Undisturbed.pair ⟨placed, fun _ _ => rfl⟩ present push rfl placed pop rfl
  cases same
  exact ⟨held, next, Answer.of_silent (step_of_move valid push),
    Answer.of_handing (step_of_move (push.valid valid) pop), pop.valid (push.valid valid),
    undisturbed.cursors, undisturbed.bytes_eq present (valid c present)⟩

-- The invariant of the loop: all that was given was taken again.
structure Cycled (c : Cursors) (s : Stack size) (given taken : List UInt8) (last : Stack size) : Prop where
  valid : last.Valid
  cursors : last.cursors = some c
  bytes : last.bytes = s.bytes
  taken : taken = given

theorem Valid.rounds (valid : s.Valid) (present : s.cursors = some c) (room : c.top ≠ c.bottom)
    (values : List UInt8) :
    ∃ bytes last, Bulk.Rounds s values bytes last ∧ Cycled c s values bytes last := by
  refine Bulk.rounds_of_round (Cycled c s) ?_ ⟨valid, present, rfl, rfl⟩ values
  intro given taken next value cycled
  obtain ⟨held, last, accepted, handed, kept, cursors, bytes⟩ :=
    cycled.valid.round cycled.cursors room value
  exact ⟨held, value, last, accepted, handed, kept, cursors, bytes.trans cycled.bytes, by
    rw [cycled.taken]⟩

end BoundedBytes.Stack
