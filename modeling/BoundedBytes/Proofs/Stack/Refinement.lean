import BoundedBytes.Proofs.Run
import BoundedBytes.Proofs.Stack.Contents
import BoundedBytes.Proofs.Stack.Move

namespace BoundedBytes

-- A bounded list that is used at one end only. It knows neither addresses nor
-- an array, and says what a stack is for.
structure Lifo where
  capacity : Nat
  bytes : List UInt8
deriving DecidableEq

namespace Lifo

-- Before the first bounds there is no list.
def step (size : Nat) : Option Lifo → Stack.Call → Reply × Option Lifo
  | s, .init sentinel bottom =>
    if bottom.toNat < sentinel.toNat ∧ sentinel.toNat ≤ size then
      (.ok none, some ⟨sentinel.toNat - bottom.toNat, []⟩)
    else (.error .invalidRange, s)
  | s, .initWhole =>
    if 0 < size then (.ok none, some ⟨size, []⟩) else (.error .invalidRange, s)
  | none, .reset => (.ok none, none)
  | none, _ => (.error .uninitialized, none)
  | some s, .push value =>
    if s.bytes.length < s.capacity then (.ok none, some { s with bytes := value :: s.bytes })
    else (.error .overflow, some s)
  | some s, .pop =>
    match s.bytes with
    | [] => (.error .underflow, some s)
    | value :: rest => (.ok (some value), some { s with bytes := rest })
  | some s, .peek =>
    match s.bytes with
    | [] => (.error .underflow, some s)
    | value :: _ => (.ok (some value), some s)
  | some s, .reset => (.ok none, some { s with bytes := [] })

def occupancy : Option Lifo → Occupancy
  | none => ⟨0, 0, true, false⟩
  | some s => ⟨s.capacity, s.bytes.length, s.bytes.isEmpty, s.bytes.length == s.capacity⟩

-- What a run of calls shows: each reply, and how full each call left the list.
def answers (size : Nat) : Option Lifo → List Stack.Call → List (Reply × Occupancy)
  | _, [] => []
  | s, call :: rest =>
    let (reply, next) := step size s call
    (reply, occupancy next) :: answers size next rest

def observed (size : Nat) (f : Option Lifo) (call : Stack.Call) : (Reply × Occupancy) × Option Lifo :=
  let (reply, next) := step size f call
  ((reply, occupancy next), next)

theorem answers_eq_play (size : Nat) (f : Option Lifo) (calls : List Stack.Call) :
    answers size f calls = (play (observed size) f calls).1 := by
  induction calls generalizing f with
  | nil => rfl
  | cons call rest ih =>
    show _ :: answers size _ rest = _
    rw [ih]
    rfl

theorem step_initWhole (size : Word) (f : Option Lifo) :
    step size.toNat f .initWhole = step size.toNat f (.init size 0) := by
  by_cases room : 0 < size.toNat
  · exact (if_pos room).trans (if_pos ⟨room, Nat.le_refl _⟩).symm
  · exact (if_neg room).trans (if_neg fun right => room right.1).symm

end Lifo

namespace Stack

variable {size : Word} {s next : Stack size} {call : Call} {reply : Reply} {memory : Memory size}
  {c : Cursors}

-- The bounded list that a stack stands for.
def lifo (s : Stack size) : Option Lifo :=
  s.cursors.map fun c => ⟨c.sentinel.toNat - c.bottom.toNat, s.bytes⟩

theorem lifo_eq (memory : Memory size) (c : Cursors) :
    lifo ⟨memory, some c⟩ = some ⟨c.sentinel.toNat - c.bottom.toNat, bytes ⟨memory, some c⟩⟩ := rfl

theorem occupancy_lifo (valid : s.Valid) : Container.occupancy s = some (Lifo.occupancy s.lifo) := by
  rcases s with ⟨memory, cursors⟩
  cases cursors with
  | none => rfl
  | some c =>
    have counted : (bytes ⟨memory, some c⟩).length = c.sentinel.toNat - c.top.toNat :=
      length_bytes valid.within
    rw [occupancy_eq valid.within, lifo_eq, Lifo.occupancy, ← counted]
    cases bytes ⟨memory, some c⟩ <;> rfl

theorem Move.lifo (valid : s.Valid) (move : Move s call reply next) :
    Lifo.step size.toNat s.lifo call = (reply, next.lifo) := by
  induction move with
  | bounded order inside =>
    have right := And.intro (UInt16.lt_iff_toNat_lt.mp order) (UInt16.le_iff_toNat_le.mp inside)
    rw [lifo_eq, bytes_of_met rfl]
    exact if_pos right
  | misplaced wrong =>
    rw [UInt16.lt_iff_toNat_lt, UInt16.le_iff_toNat_le] at wrong
    exact if_neg wrong
  | whole move ih =>
    rw [Lifo.step_initWhole]
    exact ih valid
  | unset call needs =>
    cases call with
    | init | initWhole | reset => cases needs
    | push value => rfl
    | pop => rfl
    | peek => rfl
  | full met =>
    have within := valid.within
    rw [lifo_eq]
    apply if_neg
    rw [length_bytes within, (top_eq_bottom_iff within).mp met]
    exact Nat.lt_irrefl _
  | pushed memory value room moved inside =>
    have within := valid.within
    have low := UInt16.lt_iff_toNat_lt.mp room
    have high := UInt16.le_iff_toNat_le.mp within.below
    rw [lifo_eq, lifo_eq, bytes_push within moved inside]
    apply if_pos
    rw [length_bytes within]
    exact Nat.sub_lt_sub_left (Nat.lt_of_lt_of_le low high) low
  | empty met | blind met =>
    rw [lifo_eq, bytes_of_met met]
    rfl
  | popped memory held moved inside =>
    rw [lifo_eq, lifo_eq, bytes_pop held moved inside]
    rfl
  | seen memory held inside =>
    obtain ⟨rest, first⟩ := bytes_of_byte held inside
    rw [lifo_eq, first]
    rfl
  | idle => rfl
  | @cleared memory c =>
    have emptied : bytes ⟨memory, some { c with top := c.sentinel }⟩ = [] := bytes_of_met rfl
    rw [lifo_eq, lifo_eq, emptied]
    rfl

theorem lifo_of_init {sentinel bottom : Word}
    (accepted : s.init sentinel bottom = some (.ok (), next)) :
    next.Valid ∧ next.lifo = some ⟨sentinel.toNat - bottom.toNat, []⟩ := by
  obtain ⟨order, inside, rfl⟩ := init_accepted accepted
  refine ⟨(Cursors.within_fresh order inside).valid, ?_⟩
  rw [lifo_eq, bytes_of_met rfl]

theorem observed_lifo (valid : s.Valid) (call : Call) :
    ∃ next, observed step s call = some ((Lifo.observed size.toNat s.lifo call).1, next) ∧
      next.Valid ∧ next.lifo = (Lifo.observed size.toNat s.lifo call).2 := by
  obtain ⟨reply, next, move⟩ := exists_move valid call
  have kept := move.valid valid
  have made := observed_of_step (step_of_move valid move) (occupancy_lifo kept)
  refine ⟨next, ?_, kept, ?_⟩ <;> rw [Lifo.observed, move.lifo valid]
  exact made

-- A stack answers every run of calls as a bounded list does, wherever its
-- slots lie in the array.
theorem run_as_lifo (size : Word) (calls : List Call) :
    ∃ last, run (observed step) (new size) calls =
      some (Lifo.answers size.toNat none calls, last) := by
  obtain ⟨last, ran, _, _⟩ := run_simulated (fun s f => Valid s ∧ s.lifo = f)
    (fun call linked => linked.2 ▸ observed_lifo linked.1 call)
    (And.intro (valid_new size) rfl) calls
  rw [← Lifo.answers_eq_play] at ran
  exact ⟨last, ran⟩

end Stack

end BoundedBytes
