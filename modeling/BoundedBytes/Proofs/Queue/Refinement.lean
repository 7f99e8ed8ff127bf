import BoundedBytes.Proofs.Queue.Contents
import BoundedBytes.Proofs.Queue.Move
import BoundedBytes.Proofs.Run

namespace BoundedBytes

-- A bounded list that is filled at one end and emptied at the other. It knows
-- neither addresses nor an array, and says what a queue is for. Of its slots
-- one is never used.
structure Fifo where
  slots : Nat
  bytes : List UInt8
deriving DecidableEq

namespace Fifo

-- Before the first bounds there is no list.
def step (size : Nat) : Option Fifo → Queue.Call → Reply × Option Fifo
  | q, .init start stop =>
    if start.toNat < stop.toNat ∧ stop.toNat ≤ size then
      (.ok none, some ⟨stop.toNat - start.toNat, []⟩)
    else (.error .invalidRange, q)
  | q, .initWhole =>
    if 0 < size then (.ok none, some ⟨size, []⟩) else (.error .invalidRange, q)
  | none, .reset => (.ok none, none)
  | none, _ => (.error .uninitialized, none)
  | some q, .enqueue value =>
    if q.bytes.length < q.slots - 1 then (.ok none, some { q with bytes := q.bytes ++ [value] })
    else (.error .full, some q)
  | some q, .dequeue =>
    match q.bytes with
    | [] => (.error .empty, some q)
    | value :: rest => (.ok (some value), some { q with bytes := rest })
  | some q, .reset => (.ok none, some { q with bytes := [] })

def occupancy : Option Fifo → Occupancy
  | none => ⟨0, 0, true, false⟩
  | some q => ⟨q.slots - 1, q.bytes.length, q.bytes.isEmpty, q.bytes.length == q.slots - 1⟩

-- What a run of calls shows: each reply, and how full each call left the list.
def answers (size : Nat) : Option Fifo → List Queue.Call → List (Reply × Occupancy)
  | _, [] => []
  | q, call :: rest =>
    let (reply, next) := step size q call
    (reply, occupancy next) :: answers size next rest

def observed (size : Nat) (f : Option Fifo) (call : Queue.Call) : (Reply × Occupancy) × Option Fifo :=
  let (reply, next) := step size f call
  ((reply, occupancy next), next)

theorem answers_eq_play (size : Nat) (f : Option Fifo) (calls : List Queue.Call) :
    answers size f calls = (play (observed size) f calls).1 := by
  induction calls generalizing f with
  | nil => rfl
  | cons call rest ih =>
    show _ :: answers size _ rest = _
    rw [ih]
    rfl

theorem step_initWhole (size : Word) (f : Option Fifo) :
    step size.toNat f .initWhole = step size.toNat f (.init 0 size) := by
  by_cases room : 0 < size.toNat
  · exact (if_pos room).trans (if_pos ⟨room, Nat.le_refl _⟩).symm
  · exact (if_neg room).trans (if_neg fun right => room right.1).symm

end Fifo

namespace Queue

variable {size : Word} {q next : Queue size} {call : Call} {reply : Reply}

-- The bounded list that a queue stands for.
def fifo (q : Queue size) : Option Fifo :=
  q.cursors.map fun c => ⟨c.stop.toNat - c.start.toNat, q.bytes⟩

theorem fifo_eq {memory : Memory size} {n : Counting} {c : Cursors} (turn : n.Lockstep c) :
    fifo ⟨memory, some c⟩ = some ⟨n.slots, bytes ⟨memory, some c⟩⟩ := by
  have slots : c.stop.toNat - c.start.toNat = n.slots := by
    rw [turn.start, turn.stop, Nat.add_sub_cancel_left]
  simp only [fifo, Option.map_some, slots]

theorem occupancy_fifo (valid : q.Valid) : Container.occupancy q = some (Fifo.occupancy q.fifo) := by
  rcases q with ⟨memory, cursors⟩
  cases cursors with
  | none => rfl
  | some c =>
    obtain ⟨n, turn⟩ := valid.within.lockstep
    have counted : (bytes ⟨memory, some c⟩).length = n.inserted - n.removed :=
      length_bytes turn valid.within.inside
    rw [occupancy_eq turn, fifo_eq turn, Fifo.occupancy, ← counted]
    cases bytes ⟨memory, some c⟩ <;> rfl

theorem Move.fifo (valid : q.Valid) (move : Move q call reply next) :
    Fifo.step size.toNat q.fifo call = (reply, next.fifo) := by
  induction move with
  | bounded order inside behind =>
    have turn := Counting.fresh_lockstep order behind
    have right := And.intro (UInt16.lt_iff_toNat_lt.mp order) (UInt16.le_iff_toNat_le.mp inside)
    rw [fifo_eq turn, bytes_of_met turn rfl]
    exact if_pos right
  | misplaced wrong =>
    rw [UInt16.lt_iff_toNat_lt, UInt16.le_iff_toNat_le] at wrong
    exact if_neg wrong
  | whole move ih =>
    rw [Fifo.step_initWhole]
    exact ih valid
  | unset call needs =>
    cases call with
    | init | initWhole | reset => cases needs
    | enqueue value => rfl
    | dequeue => rfl
  | full met =>
    obtain ⟨n, turn⟩ := valid.within.lockstep
    rw [fifo_eq turn]
    apply if_neg
    rw [length_bytes turn valid.within.inside, turn.lastRead_eq_tail_iff.mp met]
    exact Nat.lt_irrefl _
  | inserted memory value room moved inside =>
    obtain ⟨n, turn⟩ := valid.within.lockstep
    have free := turn.free
    have order := turn.order
    have apart := mt turn.lastRead_eq_tail_iff.mpr room
    rw [fifo_eq turn, fifo_eq (turn.insert room moved), bytes_insert turn room moved inside]
    apply if_pos
    rw [length_bytes turn valid.within.inside]
    show n.inserted - n.removed < n.slots - 1
    omega
  | empty met =>
    obtain ⟨n, turn⟩ := valid.within.lockstep
    rw [fifo_eq turn, bytes_of_met turn met]
    rfl
  | removed memory held moved inside =>
    obtain ⟨n, turn⟩ := valid.within.lockstep
    rw [fifo_eq turn, fifo_eq (turn.remove held moved), bytes_remove turn held moved inside]
    rfl
  | idle => rfl
  | cleared behind =>
    obtain ⟨n, turn⟩ := valid.within.lockstep
    rw [fifo_eq turn, fifo_eq (turn.clear behind), bytes_of_met (turn.clear behind) rfl]
    rfl

theorem fifo_of_init {start stop : Word} (accepted : q.init start stop = some (.ok (), next)) :
    next.fifo = some ⟨stop.toNat - start.toNat, []⟩ := by
  obtain ⟨order, inside, last, behind, rfl⟩ := init_accepted accepted
  have turn := Counting.fresh_lockstep order behind
  rw [fifo_eq turn, bytes_of_met turn rfl]
  rfl

theorem observed_fifo (valid : q.Valid) (call : Call) :
    ∃ next, observed step q call = some ((Fifo.observed size.toNat q.fifo call).1, next) ∧
      next.Valid ∧ next.fifo = (Fifo.observed size.toNat q.fifo call).2 := by
  obtain ⟨reply, next, move⟩ := exists_move valid call
  have kept := move.valid valid
  have made := observed_of_step (step_of_move valid move) (occupancy_fifo kept)
  refine ⟨next, ?_, kept, ?_⟩ <;> rw [Fifo.observed, move.fifo valid]
  exact made

-- The bytes that went into a queue and those that came out of it, each in
-- order, since bounds were set or a reset discarded the rest.
structure Traffic where
  inserted : List UInt8
  removed : List UInt8
deriving DecidableEq

namespace Traffic

def none : Traffic := ⟨[], []⟩

-- Only accepted calls move a byte or discard what is there.
def tally (t : Traffic) : Call → Reply → Traffic
  | .enqueue value, .ok _ => { t with inserted := t.inserted ++ [value] }
  | .dequeue, .ok (some value) => { t with removed := t.removed ++ [value] }
  | .init .., .ok _ | .initWhole, .ok _ | .reset, .ok _ => none
  | _, _ => t

theorem tally_initWhole (start stop : Word) (t : Traffic) (reply : Reply) :
    t.tally .initWhole reply = t.tally (.init start stop) reply := by
  cases reply <;> rfl

-- What went in is what came out, followed by what is still there.
def Conserved (t : Traffic) (q : Queue size) : Prop := t.inserted = t.removed ++ q.bytes

end Traffic

theorem Move.conserved {t : Traffic} (valid : q.Valid) (move : Move q call reply next)
    (balance : t.Conserved q) : (t.tally call reply).Conserved next := by
  induction move with
  | bounded order inside behind =>
    exact (bytes_of_met (Counting.fresh_lockstep order behind) rfl).symm
  | misplaced | full | empty => exact balance
  | whole move ih =>
    rw [Traffic.tally_initWhole 0 size]
    exact ih valid balance
  | unset call needs =>
    cases call with
    | init | initWhole | reset => cases needs
    | enqueue value => exact balance
    | dequeue => exact balance
  | inserted memory value room moved inside =>
    obtain ⟨n, turn⟩ := valid.within.lockstep
    show t.inserted ++ [value] = t.removed ++ bytes _
    rw [bytes_insert turn room moved inside, ← List.append_assoc, ← balance]
  | removed memory held moved inside =>
    obtain ⟨n, turn⟩ := valid.within.lockstep
    show t.inserted = t.removed ++ [_] ++ bytes _
    rw [List.append_assoc, List.singleton_append, ← bytes_remove turn held moved inside]
    exact balance
  | idle => rfl
  | cleared behind =>
    obtain ⟨n, turn⟩ := valid.within.lockstep
    exact (bytes_of_met (turn.clear behind) rfl).symm

-- Whatever is called, no byte is lost, repeated or put out of order.
theorem run_conserved (size : Word) (calls : List Call) :
    ∃ replies last, run step (new size) calls = some (replies, last) ∧
      (account Traffic.tally .none calls replies).Conserved last := by
  have balanced : Traffic.none.Conserved (new size) := rfl
  have kept : ∀ {t : Traffic} {q : Queue size} {call}, call ∈ calls → q.Valid ∧ t.Conserved q →
      ∃ reply next, step q call = some (reply, next) ∧
        next.Valid ∧ (t.tally call reply).Conserved next := by
    intro t q call _ ⟨valid, balance⟩
    obtain ⟨reply, next, move⟩ := exists_move valid call
    exact ⟨reply, next, step_of_move valid move, move.valid valid, move.conserved valid balance⟩
  obtain ⟨replies, last, ran, _, balance⟩ :=
    run_accounted Traffic.tally (fun t q => Valid q ∧ t.Conserved q) kept
      ⟨valid_new size, balanced⟩
  exact ⟨replies, last, ran, balance⟩

-- A queue answers every run of calls as a bounded list does, wherever its ring
-- lies and however often the cursors go round it.
theorem run_as_fifo (size : Word) (calls : List Call) :
    ∃ last, run (observed step) (new size) calls =
        some (Fifo.answers size.toNat none calls, last) ∧
      (account Traffic.tally .none calls
        ((Fifo.answers size.toNat none calls).map Prod.fst)).Conserved last := by
  obtain ⟨last, ran, _, _⟩ := run_simulated (fun q f => Valid q ∧ q.fifo = f)
    (fun call linked => linked.2 ▸ observed_fifo linked.1 call)
    (And.intro (valid_new size) rfl) calls
  rw [← Fifo.answers_eq_play] at ran
  obtain ⟨replies, final, accounted, balance⟩ := run_conserved size calls
  cases accounted.symm.trans (run_of_observed ran)
  exact ⟨last, ran, balance⟩

end Queue

end BoundedBytes
