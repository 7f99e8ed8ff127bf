import BoundedBytes.Proofs.Queue.Counts
import BoundedBytes.Proofs.Queue.Refinement

namespace BoundedBytes

-- Only new bounds are measured against the size of the array.
theorem Fifo.observed_of_keepsBounds {call : Queue.Call} (kept : call.keepsBounds = true)
    (size other : Nat) (f : Option Fifo) : observed size f call = observed other f call := by
  cases call with
  | init | initWhole => cases kept
  | enqueue | dequeue | reset => cases f <;> rfl

namespace Queue

-- The same counts in a ring that starts elsewhere.
def Counting.movedTo (n : Counting) (start : Word) : Counting := { n with start := start.toNat }

theorem Counting.tally_movedTo (n : Counting) (start : Word) (call : Call) (reply : Reply) :
    (n.movedTo start).tally call reply = (n.tally call reply).movedTo start := by
  cases call <;> cases reply <;> rfl

-- How far from the start of the ring each cursor is.
def Counting.distance (n : Counting) : Cursors.Field → Nat
  | .start => 0
  | .stop => n.slots
  | .head => n.removed % n.slots
  | .lastRead => (n.removed + n.slots - 1) % n.slots
  | .tail => n.inserted % n.slots

theorem Counting.distance_movedTo (n : Counting) (start : Word) (field : Cursors.Field) :
    (n.movedTo start).distance field = n.distance field := by
  cases field <;> rfl

theorem Counting.Matches.field_eq {n : Counting} {c : Cursors} (matched : n.Matches c)
    (field : Cursors.Field) : (c.field field).toNat = n.start + n.distance field := by
  cases field with
  | start => exact matched.start
  | stop => exact matched.stop
  | head => exact matched.head
  | lastRead => exact matched.lastRead
  | tail => exact matched.tail

-- Cursors of two rings are at the same distances from where the rings start.
def Cursors.Shifted (start start' : Word) (c d : Cursors) : Prop :=
  ∀ field, Word.SameOffset start start' (c.field field) (d.field field)

-- Two queues that differ only in where their rings lie and in what is left in
-- their arrays. One pair of counts places the cursors of both.
structure Alike (start stop start' stop' : Word) {size size' : Word} (q : Queue size)
    (q' : Queue size') : Prop where
  inside : stop ≤ size ∧ stop' ≤ size'
  fifo : q.fifo = q'.fifo
  counted : ∃ n, Counted start stop n q ∧ Counted start' stop' (n.movedTo start') q'

variable {size size' start stop start' stop' : Word} {q ready : Queue size} {q' ready' : Queue size'}
  {call : Call}

theorem Alike.step (alike : Alike start stop start' stop' q q') (kept : call.keepsBounds = true) :
    ∃ answer next next', observed step q call = some (answer, next) ∧
      observed step q' call = some (answer, next') ∧ Alike start stop start' stop' next next' := by
  obtain ⟨n, counted, counted'⟩ := alike.counted
  have valid := counted.valid alike.inside.1
  have valid' := counted'.valid alike.inside.2
  obtain ⟨next, made, _, held⟩ := observed_fifo valid call
  obtain ⟨next', made', _, held'⟩ := observed_fifo valid' call
  rw [← alike.fifo, ← Fifo.observed_of_keepsBounds kept size.toNat] at made' held'
  have move := (step_exact valid).mp (step_of_observed made)
  have move' := (step_exact valid').mp (step_of_observed made')
  refine ⟨_, next, next', made, made', alike.inside, held.trans held'.symm, _,
    move.counted kept counted, ?_⟩
  rw [← Counting.tally_movedTo]
  exact move'.counted kept counted'

theorem alike_of_init (accepted : q.init start stop = some (.ok (), ready))
    (accepted' : q'.init start' stop' = some (.ok (), ready'))
    (slots : stop.toNat - start.toNat = stop'.toNat - start'.toNat) :
    Alike start stop start' stop' ready ready' := by
  obtain ⟨inside, counted⟩ := counted_of_init accepted
  obtain ⟨inside', counted'⟩ := counted_of_init accepted'
  have moved : (Counting.fresh start stop).movedTo start' = Counting.fresh start' stop' := by
    rw [Counting.fresh, Counting.movedTo, slots, Counting.fresh]
  refine ⟨⟨inside, inside'⟩, ?_, _, counted, moved ▸ counted'⟩
  rw [fifo_of_init accepted, fifo_of_init accepted', slots]

theorem Alike.shifted (alike : Alike start stop start' stop' q q') :
    ∃ c d, q.cursors = some c ∧ q'.cursors = some d ∧ c.Shifted start start' d := by
  obtain ⟨n, ⟨c, present, rfl, rfl, turn⟩, d, present', rfl, rfl, turn'⟩ := alike.counted
  refine ⟨c, d, present, present', ?_⟩
  intro field
  have start := turn.start
  have start' := turn'.start
  have place := turn.field_eq field
  have place' := turn'.field_eq field
  rw [Counting.distance_movedTo] at place'
  unfold Word.SameOffset
  omega

theorem run_alike (alike : Alike start stop start' stop' q q') {calls : List Call}
    (kept : ∀ call ∈ calls, call.keepsBounds = true) :
    ∃ answers last last', run (observed step) q calls = some (answers, last) ∧
      run (observed step) q' calls = some (answers, last') ∧
      Alike start stop start' stop' last last' :=
  run_paired (Alike start stop start' stop') (fun member alike => alike.step (kept _ member)) alike

theorem run_shifted (accepted : q.init start stop = some (.ok (), ready))
    (accepted' : q'.init start' stop' = some (.ok (), ready'))
    (slots : stop.toNat - start.toNat = stop'.toNat - start'.toNat) {calls : List Call}
    (kept : ∀ call ∈ calls, call.keepsBounds = true) :
    ∃ answers last last', run (observed step) ready calls = some (answers, last) ∧
      run (observed step) ready' calls = some (answers, last') ∧
      ∃ c d, last.cursors = some c ∧ last'.cursors = some d ∧ c.Shifted start start' d := by
  obtain ⟨answers, last, last', ran, ran', alike⟩ :=
    run_alike (alike_of_init accepted accepted' slots) kept
  exact ⟨answers, last, last', ran, ran', alike.shifted⟩

end Queue

end BoundedBytes
