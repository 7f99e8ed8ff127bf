import BoundedBytes.Proofs.Queue.Bulk
import BoundedBytes.Proofs.Stack.Bulk

namespace BoundedBytes

open Bulk (Fills Drains Rounds cycle)

-- Wherever the cursors of a container have got to, it takes as many bytes as it
-- says it has room for, gives back all it holds, and then has all of its room.
theorem turnover_exact (size : Word) :
    (∀ (q : Queue size) (c : Queue.Cursors), Reached Queue.anyStep (.new size) q →
      q.cursors = some c → ∃ most count, q.capacity = some most ∧ q.length = some count ∧
        most = c.stop.toNat - c.start.toNat - 1 ∧ count ≤ most ∧
        ∀ values, ∃ filled drained, Fills .full (most - count) q values filled ∧
          Drains .empty filled (q.bytes ++ values.take (most - count)) drained ∧
          ∀ others, ∃ again, Fills .full most drained others again) ∧
    ∀ (s : Stack size) (c : Stack.Cursors), Reached Stack.anyStep (.new size) s →
      s.cursors = some c → ∃ most count, s.capacity = some most ∧ s.length = some count ∧
        most = c.sentinel.toNat - c.bottom.toNat ∧ count ≤ most ∧
        ∀ values, ∃ filled drained, Fills .overflow (most - count) s values filled ∧
          Drains .underflow filled ((values.take (most - count)).reverse ++ s.bytes) drained ∧
          ∀ others, ∃ again, Fills .overflow most drained others again := by
  constructor
  · intro q c path present
    have valid := (Queue.standsFor size).valid_of_reached (Queue.valid_new size) path
    obtain ⟨capacity, length, fits, _⟩ := valid.sizes present
    exact ⟨_, _, capacity, length, rfl, fits, (valid.holds present).turnover⟩
  · intro s c path present
    have valid := (Stack.standsFor size).valid_of_reached (Stack.valid_new size) path
    obtain ⟨capacity, length, fits, _⟩ := valid.sizes present
    exact ⟨_, _, capacity, length, rfl, fits, (valid.holds present).turnover⟩

-- A queue whose tail wraps as it is filled, and a stack off both ends of its
-- array, each with one byte in it and offered more than it has room for.
theorem turnover_exact_rotated :
    (∃ q filled drained : Queue 4, q = ⟨#v[0, 5, 6, 0], some ⟨1, 4, 2, 1, 3⟩⟩ ∧
      filled = ⟨#v[0, 5, 6, 7], some ⟨1, 4, 2, 1, 1⟩⟩ ∧
      drained = ⟨#v[0, 5, 6, 7], some ⟨1, 4, 1, 3, 1⟩⟩ ∧
      Reached Queue.anyStep (.new 4) q ∧ q.capacity = some 2 ∧ q.length = some 1 ∧
      Fills .full 1 q [7, 8] filled ∧ Drains .empty filled [6, 7] drained ∧
      ∀ others, ∃ again, Fills .full 2 drained others again) ∧
    ∃ s filled drained : Stack 4, s = ⟨#v[0, 0, 6, 0], some ⟨3, 1, 2⟩⟩ ∧
      filled = ⟨#v[0, 7, 6, 0], some ⟨3, 1, 1⟩⟩ ∧ drained = ⟨#v[0, 7, 6, 0], some ⟨3, 1, 3⟩⟩ ∧
      Reached Stack.anyStep (.new 4) s ∧ s.capacity = some 2 ∧ s.length = some 1 ∧
      Fills .overflow 1 s [7, 8] filled ∧ Drains .underflow filled [7, 6] drained ∧
      ∀ others, ∃ again, Fills .overflow 2 drained others again := by
  constructor
  · let q : Queue 4 := ⟨#v[0, 5, 6, 0], some ⟨1, 4, 2, 1, 3⟩⟩
    have reached : run Queue.anyStep (.new 4) [.plain (.init 1 4), .plain (.enqueue 5),
        .plain .dequeue, .plain (.enqueue 6)] = some ([.plain (.ok none), .plain (.ok none),
          .plain (.ok (some 5)), .plain (.ok none)], q) := rfl
    obtain ⟨most, count, capacity, length, _, _, turned⟩ :=
      (turnover_exact 4).1 q _ (.run .start reached) rfl
    cases (show q.capacity = some 2 from rfl).symm.trans capacity
    cases (show q.length = some 1 from rfl).symm.trans length
    obtain ⟨filled, drained, fills, drains, again⟩ := turned [7, 8]
    cases fills
    cases drains 3 (by decide)
    exact ⟨q, _, _, rfl, rfl, rfl, .run .start reached, rfl, rfl, rfl, drains, again⟩
  · let s : Stack 4 := ⟨#v[0, 0, 6, 0], some ⟨3, 1, 2⟩⟩
    have reached : run Stack.anyStep (.new 4) [.plain (.init 3 1), .plain (.push 6)] =
        some ([.plain (.ok none), .plain (.ok none)], s) := rfl
    obtain ⟨most, count, capacity, length, _, _, turned⟩ :=
      (turnover_exact 4).2 s _ (.run .start reached) rfl
    cases (show s.capacity = some 2 from rfl).symm.trans capacity
    cases (show s.length = some 1 from rfl).symm.trans length
    obtain ⟨filled, drained, fills, drains, again⟩ := turned [7, 8]
    cases fills
    cases drains 3 (by decide)
    exact ⟨s, _, _, rfl, rfl, rfl, .run .start reached, rfl, rfl, rfl, drains, again⟩

-- A container with room never runs out of it where every insertion is followed
-- by a removal, however many of them there are. The slots of a queue are used
-- in turn. A full container refuses the first round.
theorem rounds_steady (size : Word) :
    (∀ (q : Queue size) (c : Queue.Cursors), Reached Queue.anyStep (.new size) q →
      q.cursors = some c → ∃ most, q.capacity = some most ∧
        (q.bytes.length < most → ∀ values, ∃ last d,
          Rounds q values ((q.bytes ++ values).take values.length) last ∧
            last.bytes = (q.bytes ++ values).drop values.length ∧
            last.length = some q.bytes.length ∧ last.cursors = some d ∧
            c.Turned values.length d) ∧
        (q.isFull = true ↔ q.bytes.length = most) ∧
        (c.stop.toNat = c.start.toNat + 1 → q.isFull = true) ∧
        (q.isFull = true → ∀ value rest, q.enqueue value = some (.error .full, q) ∧
          cycle q (value :: rest) = some ⟨some .full, [], q⟩)) ∧
    ∀ (s : Stack size) (c : Stack.Cursors), Reached Stack.anyStep (.new size) s →
      s.cursors = some c →
        (s.isFull = false → ∀ values, ∃ last, Rounds s values values last ∧
          last.cursors = some c ∧ last.bytes = s.bytes) ∧
        (s.isFull = true → ∀ value rest, s.push value = some (.error .overflow, s) ∧
          cycle s (value :: rest) = some ⟨some .overflow, [], s⟩) := by
  constructor
  · intro q c path present
    have valid := (Queue.standsFor size).valid_of_reached (Queue.valid_new size) path
    have holds := valid.holds present
    obtain ⟨capacity, _, fits, isFull⟩ := valid.sizes present
    refine ⟨_, capacity, ?_, ?_, ?_, ?_⟩
    · intro room
      have roomy := isFull.trans (beq_eq_false_iff_ne.mpr (Nat.ne_of_lt room))
      exact valid.rounds present roomy
    · rw [isFull, beq_iff_eq]
    · intro one
      rw [isFull, beq_iff_eq]
      omega
    · intro full
      rw [isFull, beq_iff_eq] at full
      exact (Queue.keeps_discipline size).stuck holds (Nat.le_of_eq full.symm)
  · intro s c path present
    have valid := (Stack.standsFor size).valid_of_reached (Stack.valid_new size) path
    have holds := valid.holds present
    obtain ⟨_, _, _, isFull⟩ := valid.sizes present
    constructor
    · intro room values
      rw [Stack.isFull_of_cursors present, beq_eq_false_iff_ne] at room
      obtain ⟨_, last, rounds, cycled⟩ := valid.rounds present room values
      cases cycled.taken
      exact ⟨last, rounds, cycled.cursors, cycled.bytes⟩
    · intro full
      rw [isFull, beq_iff_eq] at full
      exact (Stack.keeps_discipline size).stuck holds (Nat.le_of_eq full.symm)

-- More rounds than the ring has slots, each of which fills it for a moment.
theorem rounds_steady_past_wrap :
    (∃ q last : Queue 4, q = ⟨#v[0, 5, 6, 0], some ⟨1, 4, 2, 1, 3⟩⟩ ∧
      last = ⟨#v[0, 8, 9, 10], some ⟨1, 4, 3, 2, 1⟩⟩ ∧ Reached Queue.anyStep (.new 4) q ∧
      q.bytes = [6] ∧ Rounds q [7, 8, 9, 10] [6, 7, 8, 9] last ∧ last.bytes = [10] ∧
      last.length = some 1 ∧ Queue.Cursors.Turned 4 ⟨1, 4, 2, 1, 3⟩ ⟨1, 4, 3, 2, 1⟩) ∧
    (∃ q : Queue 4, q = ⟨#v[0, 0, 0, 0], some ⟨2, 3, 2, 2, 2⟩⟩ ∧ Reached Queue.anyStep (.new 4) q ∧
      q.enqueue 7 = some (.error .full, q) ∧ cycle q [7, 8] = some ⟨some .full, [], q⟩) ∧
    (∃ s last : Stack 4, s = ⟨#v[0, 0, 6, 0], some ⟨3, 1, 2⟩⟩ ∧
      last = ⟨#v[0, 10, 6, 0], some ⟨3, 1, 2⟩⟩ ∧ Reached Stack.anyStep (.new 4) s ∧
      Rounds s [7, 8, 9, 10] [7, 8, 9, 10] last ∧ last.bytes = [6]) ∧
    ∃ s : Stack 4, s = ⟨#v[0, 0, 6, 0], some ⟨3, 2, 2⟩⟩ ∧ Reached Stack.anyStep (.new 4) s ∧
      s.push 7 = some (.error .overflow, s) ∧ cycle s [7, 8] = some ⟨some .overflow, [], s⟩ := by
  refine ⟨?_, ?_, ?_, ?_⟩
  · let q : Queue 4 := ⟨#v[0, 5, 6, 0], some ⟨1, 4, 2, 1, 3⟩⟩
    have reached : run Queue.anyStep (.new 4) [.plain (.init 1 4), .plain (.enqueue 5),
        .plain .dequeue, .plain (.enqueue 6)] = some ([.plain (.ok none), .plain (.ok none),
          .plain (.ok (some 5)), .plain (.ok none)], q) := rfl
    obtain ⟨most, capacity, steady, _⟩ := (rounds_steady 4).1 q _ (.run .start reached) rfl
    cases (show q.capacity = some 2 from rfl).symm.trans capacity
    obtain ⟨last, d, rounds, bytes, length, present, turned⟩ := steady (by decide) [7, 8, 9, 10]
    cases rounds.ran
    cases present
    exact ⟨q, _, rfl, rfl, .run .start reached, rfl, rounds, bytes, length, turned⟩
  · let q : Queue 4 := ⟨#v[0, 0, 0, 0], some ⟨2, 3, 2, 2, 2⟩⟩
    have reached : run Queue.anyStep (.new 4) [.plain (.init 2 3)] =
        some ([.plain (.ok none)], q) := rfl
    obtain ⟨_, _, _, _, one, full⟩ := (rounds_steady 4).1 q _ (.run .start reached) rfl
    exact ⟨q, rfl, .run .start reached, full (one rfl) 7 [8]⟩
  · let s : Stack 4 := ⟨#v[0, 0, 6, 0], some ⟨3, 1, 2⟩⟩
    have reached : run Stack.anyStep (.new 4) [.plain (.init 3 1), .plain (.push 6)] =
        some ([.plain (.ok none), .plain (.ok none)], s) := rfl
    obtain ⟨last, rounds, _, bytes⟩ :=
      ((rounds_steady 4).2 s _ (.run .start reached) rfl).1 rfl [7, 8, 9, 10]
    cases rounds.ran
    exact ⟨s, _, rfl, rfl, .run .start reached, rounds, bytes⟩
  · let s : Stack 4 := ⟨#v[0, 0, 6, 0], some ⟨3, 2, 2⟩⟩
    have reached : run Stack.anyStep (.new 4) [.plain (.init 3 2), .plain (.push 6)] =
        some ([.plain (.ok none), .plain (.ok none)], s) := rfl
    exact ⟨s, rfl, .run .start reached, ((rounds_steady 4).2 s _ (.run .start reached) rfl).2 rfl 7 [8]⟩

end BoundedBytes
