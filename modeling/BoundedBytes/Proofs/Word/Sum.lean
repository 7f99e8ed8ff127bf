import BoundedBytes.Proofs.Word
import Mathlib.Algebra.BigOperators.Group.List.Basic
import Mathlib.Algebra.GroupWithZero.Nat
import Mathlib.Data.List.Induction
import Mathlib.Order.Nat

namespace BoundedBytes.Word

variable {start sum a b : Word} {words other : List Word} {count : Nat}

-- What the words come to, from a start on, in numbers without an end.
def total (start : Word) (words : List Word) : Nat := start.toNat + (words.map UInt16.toNat).sum

-- Moving on by one word after the other, the move of this number is refused. It
-- is the first, for those before it were made.
def StopsAt (start : Word) (words : List Word) (count : Nat) : Prop :=
  ∃ reached word, offsetAll start (words.take count) = .ok reached ∧ words[count]? = some word ∧
    offset reached word = .error .overflow

theorem total_concat (start : Word) (words : List Word) (word : Word) :
    total start (words ++ [word]) = total start words + word.toNat := by
  unfold total
  rw [List.map_append, List.sum_append, List.map_singleton, List.sum_singleton, Nat.add_assoc]

theorem total_perm (start : Word) (perm : words.Perm other) : total start other = total start words := by
  unfold total
  rw [(perm.map UInt16.toNat).sum_eq]

theorem total_take_succ (start : Word) {word : Word} (found : words[count]? = some word) :
    total start (words.take (count + 1)) = total start (words.take count) + word.toNat := by
  rw [List.take_add_one, found]
  exact total_concat start _ word

theorem total_take_le (start : Word) (words : List Word) {few many : Nat} (order : few ≤ many) :
    total start (words.take few) ≤ total start (words.take many) := by
  obtain ⟨rest, whole⟩ := List.take_prefix_take_left (l := words) order
  unfold total
  rw [← whole, List.map_append, List.sum_append, ← Nat.add_assoc]
  exact Nat.le_add_right _ _

theorem addWithCarry_exact (a b : Word) :
    (addWithCarry a b).1.toNat + 65536 * (addWithCarry a b).2.toNat = a.toNat + b.toNat := by
  have boundA := a.toNat_lt
  have boundB := b.toNat_lt
  rw [toNat_addWithCarry, carry_eq]
  by_cases out : 65536 ≤ a.toNat + b.toNat
  · rw [decide_eq_true out, Bool.toNat_true]
    omega
  · rw [decide_eq_false out, Bool.toNat_false]
    omega

theorem addAll_concat (start : Word) (words : List Word) (word : Word) :
    addAll start (words ++ [word]) =
      ((addWithCarry (addAll start words).1 word).1,
        (addAll start words).2 + (addWithCarry (addAll start words).1 word).2.toNat) := by
  unfold addAll
  rw [List.foldl_append]
  rfl

theorem offsetAll_concat (start : Word) (words : List Word) (word : Word) :
    offsetAll start (words ++ [word]) = (offsetAll start words).bind (offset · word) := by
  unfold offsetAll
  rw [List.foldlM_append]
  refine congrArg (Except.bind _) ?_
  funext reached
  cases moved : offset reached word <;> simp [moved]

theorem addAll_exact (start : Word) (words : List Word) :
    (addAll start words).1.toNat + 65536 * (addAll start words).2 = total start words := by
  induction words using List.reverseRecOn with
  | nil => rfl
  | append_singleton words word ih =>
    have step := addWithCarry_exact (addAll start words).1 word
    rw [addAll_concat, total_concat]
    dsimp only
    omega

theorem offset_of_fits (fits : a.toNat + b.toNat ≤ 65535) :
    ∃ sum, offset a b = .ok sum ∧ sum.toNat = a.toNat + b.toNat := by
  have value := toNat_addWithCarry a b
  have carry := carry_eq a b
  rw [decide_eq_false (by omega)] at carry
  refine ⟨(addWithCarry a b).1, ?_, by omega⟩
  rw [offset, show addWithCarry a b = ((addWithCarry a b).1, false) from Prod.ext rfl carry]

theorem offset_eq_overflow_iff : offset a b = .error .overflow ↔ 65535 < a.toNat + b.toNat := by
  constructor
  · intro refused
    by_contra fits
    obtain ⟨sum, moved, _⟩ := offset_of_fits (Nat.le_of_not_lt fits)
    cases refused.symm.trans moved
  · intro out
    have carry := carry_eq a b
    rw [decide_eq_true (Nat.succ_le_of_lt out)] at carry
    rw [offset, show addWithCarry a b = ((addWithCarry a b).1, true) from Prod.ext rfl carry]

theorem offsetAll_of_fits (fits : total start words ≤ 65535) :
    ∃ sum, offsetAll start words = .ok sum ∧ sum.toNat = total start words := by
  induction words using List.reverseRecOn with
  | nil => exact ⟨start, rfl, rfl⟩
  | append_singleton words word ih =>
    rw [total_concat] at fits ⊢
    obtain ⟨reached, moved, position⟩ := ih (by omega)
    obtain ⟨sum, made, value⟩ := offset_of_fits (a := reached) (b := word) (by omega)
    refine ⟨sum, ?_, by omega⟩
    rw [offsetAll_concat, moved]
    exact made

-- Once refused, the address is not moved again and no later word can bring it back.
theorem offsetAll_of_carry (out : 65535 < total start words) :
    offsetAll start words = .error .overflow := by
  induction words using List.reverseRecOn with
  | nil =>
    have bound := start.toNat_lt
    exact absurd out (Nat.not_lt.mpr (Nat.le_of_lt_succ bound))
  | append_singleton words word ih =>
    rw [total_concat] at out
    rw [offsetAll_concat]
    by_cases fits : total start words ≤ 65535
    · obtain ⟨reached, moved, position⟩ := offsetAll_of_fits fits
      rw [moved]
      exact offset_eq_overflow_iff.mpr (by omega)
    · rw [ih (by omega)]
      rfl

theorem offsetAll_eq (start : Word) (words : List Word) :
    offsetAll start words =
      if total start words ≤ 65535 then .ok (UInt16.ofNat (total start words))
      else .error .overflow := by
  by_cases fits : total start words ≤ 65535
  · obtain ⟨sum, moved, value⟩ := offsetAll_of_fits fits
    rw [if_pos fits, moved, ← value, UInt16.ofNat_toNat]
  · rw [if_neg fits]
    exact offsetAll_of_carry (Nat.lt_of_not_le fits)

theorem offsetAll_ok (moved : offsetAll start words = .ok sum) : sum.toNat = total start words := by
  by_cases fits : total start words ≤ 65535
  · obtain ⟨reached, again, position⟩ := offsetAll_of_fits fits
    cases moved.symm.trans again
    exact position
  · cases moved.symm.trans (offsetAll_of_carry (Nat.lt_of_not_le fits))

theorem offsetAll_eq_overflow_iff :
    offsetAll start words = .error .overflow ↔ 65535 < total start words := by
  constructor
  · intro refused
    by_contra fits
    obtain ⟨sum, moved, _⟩ := offsetAll_of_fits (Nat.le_of_not_lt fits)
    cases refused.symm.trans moved
  · exact offsetAll_of_carry

theorem carries_pos_iff : 0 < (addAll start words).2 ↔ 65535 < total start words := by
  have whole := addAll_exact start words
  have bound := (addAll start words).1.toNat_lt
  omega

-- The moves stop where the exact sum first leaves the address space.
theorem stopsAt_iff : StopsAt start words count ↔
    IsLeast {m | 65535 < total start (words.take m)} (count + 1) := by
  constructor
  · rintro ⟨reached, word, moved, found, refused⟩
    have position := offsetAll_ok moved
    have bound := reached.toNat_lt
    have out := offset_eq_overflow_iff.mp refused
    refine ⟨?_, ?_⟩
    · show 65535 < total start (words.take (count + 1))
      rw [total_take_succ start found]
      omega
    · intro m member
      have beyond : 65535 < total start (words.take m) := member
      by_contra early
      have fewer := total_take_le start words (Nat.le_of_lt_succ (Nat.lt_of_not_le early))
      omega
  · intro least
    have beyond : 65535 < total start (words.take (count + 1)) := least.1
    have fits : total start (words.take count) ≤ 65535 := by
      by_contra early
      exact absurd (least.2 (Nat.lt_of_not_le early)) (Nat.not_succ_le_self count)
    cases found : words[count]? with
    | none =>
      rw [List.take_add_one, found, Option.toList_none, List.append_nil] at beyond
      exact absurd beyond (Nat.not_lt.mpr fits)
    | some word =>
      obtain ⟨reached, moved, position⟩ := offsetAll_of_fits fits
      rw [total_take_succ start found] at beyond
      exact ⟨reached, word, moved, found, offset_eq_overflow_iff.mpr (by omega)⟩

theorem exists_stopsAt_iff : (∃ count, StopsAt start words count) ↔ 65535 < total start words := by
  constructor
  · rintro ⟨count, stops⟩
    have beyond : 65535 < total start (words.take (count + 1)) := (stopsAt_iff.mp stops).1
    have part := total_take_le start words (Nat.le_max_left (count + 1) words.length)
    rw [List.take_of_length_le (Nat.le_max_right ..)] at part
    omega
  · intro beyond
    have leaves : ∃ m, 65535 < total start (words.take m) :=
      ⟨words.length, by rw [List.take_length]; exact beyond⟩
    have least := Nat.isLeast_find leaves
    cases first : Nat.find leaves with
    | zero =>
      rw [first] at least
      have atOnce : 65535 < start.toNat := least.1
      have bound := start.toNat_lt
      omega
    | succ count =>
      rw [first] at least
      exact ⟨count, stopsAt_iff.mpr least⟩

theorem addAll_perm (perm : words.Perm other) : addAll start other = addAll start words := by
  have exact := addAll_exact start words
  have exact' := addAll_exact start other
  have same := total_perm start perm
  have bound := (addAll start words).1.toNat_lt
  have bound' := (addAll start other).1.toNat_lt
  apply Prod.ext
  · exact UInt16.toNat_inj.mp (by omega)
  · omega

theorem offsetAll_perm (perm : words.Perm other) : offsetAll start other = offsetAll start words := by
  rw [offsetAll_eq, offsetAll_eq, total_perm start perm]

-- Adding up words is exact. What wraps is made up for by the carries, and a move
-- is refused just where the exact sum leaves the address space. The order of the
-- words decides where that is, but neither whether it is nor what comes out.
theorem sums_exact (start : Word) (words : List Word) :
    (addAll start words).1.toNat + 65536 * (addAll start words).2 = total start words ∧
    offsetAll start words =
      (if total start words ≤ 65535 then .ok (UInt16.ofNat (total start words))
        else .error .overflow) ∧
    (offsetAll start words = .error .overflow ↔ 0 < (addAll start words).2) ∧
    (∀ count, StopsAt start words count ↔
      IsLeast {m | 65535 < total start (words.take m)} (count + 1)) ∧
    (offsetAll start words = .error .overflow ↔ ∃ count, StopsAt start words count) ∧
    ∀ other, words.Perm other →
      addAll start other = addAll start words ∧ offsetAll start other = offsetAll start words := by
  refine ⟨addAll_exact start words, offsetAll_eq start words, ?_, fun _ => stopsAt_iff, ?_,
    fun _ perm => ⟨addAll_perm perm, offsetAll_perm perm⟩⟩
  · exact offsetAll_eq_overflow_iff.trans carries_pos_iff.symm
  · exact offsetAll_eq_overflow_iff.trans exists_stopsAt_iff.symm

-- The same words are refused at the first or at the last of them.
theorem sums_exact_reordered :
    [65535, 1, 2].Perm [1, 2, (65535 : Word)] ∧
    addAll 1 [1, 2, 65535] = addAll 1 [65535, 1, 2] ∧
    offsetAll 1 [1, 2, 65535] = offsetAll 1 [65535, 1, 2] ∧
    addAll 1 [65535, 1, 2] = (3, 1) ∧ offsetAll 1 [65535, 1, 2] = .error .overflow ∧
    StopsAt 1 [65535, 1, 2] 0 ∧ StopsAt 1 [1, 2, 65535] 2 := by
  have perm : [65535, 1, 2].Perm [1, 2, (65535 : Word)] := by decide
  obtain ⟨_, _, _, _, _, reordered⟩ := sums_exact 1 [65535, 1, 2]
  obtain ⟨added, moved⟩ := reordered _ perm
  exact ⟨perm, added, moved, by decide, by decide, ⟨1, 65535, by decide, rfl, by decide⟩,
    ⟨4, 65535, by decide, rfl, by decide⟩⟩

end BoundedBytes.Word
