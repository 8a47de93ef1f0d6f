import Mathlib.Data.Nat.Bitwise
import Mathlib.Tactic.Common

/-!
# Bitmaps with a summary

A set of numbers kept as one bit each in words of `b` bits, with one more word that says which of the `k` words are
not zero. A member is found by the lowest bit of a word or, if the word has none left, by the summary.
-/

namespace Evering.Memory

open Function List Option

variable {b k i j : Nat} {word : Nat → Nat} {summary : Nat} {marked marked' : Nat → Prop}

/-- The number of the lowest bit of `x` that is set, and `b` if there is none. -/
def trailingZeros (b x : Nat) : Nat := ((List.range b).find? x.testBit).getD b

theorem trailingZeros_spec {x : Nat} (ne : x ≠ 0) (lt : x < 2 ^ b) :
    x.testBit (trailingZeros b x) = true ∧ trailingZeros b x < b := by
  obtain ⟨n, set⟩ := Nat.exists_testBit_of_ne_zero ne
  have small : n < b := by
    by_contra le
    rw [Nat.testBit_lt_two_pow (Nat.lt_of_lt_of_le lt (Nat.pow_le_pow_right (by omega) (by omega)))] at set
    cases set
  unfold trailingZeros
  rcases found : (List.range b).find? x.testBit with _ | a
  · have := List.find?_eq_none.mp found n (mem_range.mpr small)
    contradiction
  · exact ⟨List.find?_some found, mem_range.mp (mem_of_find?_eq_some found)⟩

theorem trailingZeros_least {x n : Nat} (lt : n < trailingZeros b x) : x.testBit n = false := by
  unfold trailingZeros at lt
  rcases found : (List.range b).find? x.testBit with _ | a
  · rw [found, getD_none] at lt
    exact Bool.eq_false_iff.mpr (List.find?_eq_none.mp found n (mem_range.mpr lt))
  · rw [found, getD_some] at lt
    simpa using (List.find?_range_eq_some.mp found).2.2 n lt

theorem trailingZeros_le (b x : Nat) : trailingZeros b x ≤ b := by
  unfold trailingZeros
  rcases found : (List.range b).find? x.testBit with _ | a
  · exact Nat.le_refl b
  · exact Nat.le_of_lt (mem_range.mp (mem_of_find?_eq_some found))

theorem trailingZeros_zero (b : Nat) : trailingZeros b 0 = b := by
  have none : (List.range b).find? (0 : Nat).testBit = none := List.find?_eq_none.mpr fun n _ => by simp
  rw [trailingZeros, none, getD_none]

structure Marks (b k : Nat) (word : Nat → Nat) (summary : Nat) (marked : Nat → Prop) : Prop where
  bits : ∀ {j i}, j < k → i < b → ((word j).testBit i = true ↔ marked (j * b + i))
  small : ∀ {j}, j < k → word j < 2 ^ b
  summary : ∀ j, summary.testBit j = true ↔ j < k ∧ word j ≠ 0

theorem Marks.congr {word' : Nat → Nat} (marks : Marks b k word summary marked) (words : ∀ {j}, j < k → word' j = word j)
    (same : ∀ n, marked' n ↔ marked n) : Marks b k word' summary marked' where
  bits := by
    intro j i hj hi
    rw [words hj, same]
    exact marks.bits hj hi
  small := by
    intro j hj
    rw [words hj]
    exact marks.small hj
  summary := by
    intro j
    rw [marks.summary]
    exact and_congr_right fun hj => by rw [words hj]

/-! ### Changing a bit -/

def flipBit (word i : Nat) : Nat := word ^^^ 2 ^ i

/-- The summary after word `j` has changed. -/
def summarise (b summary j before after : Nat) : Nat :=
  if (decide (before = 0)) ≠ (decide (after = 0)) then
    if after = 0 then summary &&& (2 ^ b - 1 - 2 ^ j) else summary ||| 2 ^ j
  else summary

theorem index_injective {j' i' : Nat} (hi : i < b) (hi' : i' < b) (same : j' * b + i' = j * b + i) : j' = j ∧ i' = i := by
  have hj : j' = j := by
    have := congrArg (· / b) same
    simp only [Nat.mul_comm _ b, Nat.mul_add_div (by omega : b > 0), Nat.div_eq_of_lt hi,
      Nat.div_eq_of_lt hi', Nat.add_zero] at this
    exact this
  subst hj
  exact ⟨rfl, by omega⟩

theorem testBit_flipBit (word i i' : Nat) :
    (flipBit word i).testBit i' = if i' = i then !word.testBit i else word.testBit i' := by
  rw [flipBit, Nat.testBit_xor, Nat.testBit_two_pow]
  by_cases same : i' = i
  · subst same
    simp
  · simp [same, Ne.symm same]

theorem testBit_clear (small : summary < 2 ^ b) (hj : j < b) (n : Nat) :
    (summary &&& (2 ^ b - 1 - 2 ^ j)).testBit n = if n = j then false else summary.testBit n := by
  have lt : 2 ^ j < 2 ^ b := Nat.pow_lt_pow_right (by omega) hj
  rw [Nat.sub_sub, Nat.add_comm 1, Nat.testBit_and, Nat.testBit_two_pow_sub_succ lt, Nat.testBit_two_pow]
  by_cases same : n = j
  · subst same
    simp
  · by_cases inside : n < b
    · simp [same, Ne.symm same, inside]
    · have : summary.testBit n = false :=
        Nat.testBit_lt_two_pow (Nat.lt_of_lt_of_le small (Nat.pow_le_pow_right (by omega) (by omega)))
      simp [same, this]

theorem testBit_summarise (small : summary < 2 ^ b) (hj : j < b) {before after : Nat}
    (was : summary.testBit j = true ↔ before ≠ 0) (n : Nat) :
    (summarise b summary j before after).testBit n = if n = j then decide (after ≠ 0) else summary.testBit n := by
  unfold summarise
  by_cases same : n = j
  · subst same
    by_cases h₀ : before = 0 <;> by_cases h₁ : after = 0
    · simpa [h₀, h₁] using was
    · simp [h₀, h₁]
    · simp [h₀, h₁, testBit_clear small hj]
    · simpa [h₀, h₁] using was.mpr h₀
  · by_cases h₀ : before = 0 <;> by_cases h₁ : after = 0 <;>
      simp [h₀, h₁, same, Ne.symm same, testBit_clear small hj]

section

variable (marks : Marks b k word summary marked)

include marks

theorem Marks.summary_lt (le : k ≤ b) : summary < 2 ^ b := by
  refine Nat.lt_pow_two_of_testBit _ fun n hn => ?_
  by_contra set
  rw [Bool.not_eq_false] at set
  have := ((marks.summary n).mp set).1
  omega

theorem Marks.flip (le : k ≤ b) (hj : j < k) (hi : i < b)
    (changed : marked' (j * b + i) ↔ ¬marked (j * b + i)) (others : ∀ n, n ≠ j * b + i → (marked' n ↔ marked n)) :
    Marks b k (update word j (flipBit (word j) i)) (summarise b summary j (word j) (flipBit (word j) i)) marked' where
  bits := by
    intro j' i' hj' hi'
    by_cases same : j' = j
    · subst same
      rw [update_self, testBit_flipBit]
      by_cases here : i' = i
      · subst here
        have := marks.bits hj hi
        rw [if_pos rfl, changed, ← this]
        simp
      · rw [if_neg here, marks.bits hj hi', others _ (by omega)]
    · rw [update_of_ne same, marks.bits hj' hi', others]
      exact fun index => same (index_injective hi hi' index).1
  small := by
    intro j' hj'
    by_cases same : j' = j
    · subst same
      rw [update_self]
      exact Nat.xor_lt_two_pow (marks.small hj) (Nat.pow_lt_pow_right (by omega) hi)
    · rw [update_of_ne same]
      exact marks.small hj'
  summary := by
    intro n
    have was : summary.testBit j = true ↔ word j ≠ 0 := by
      rw [marks.summary]
      exact ⟨fun h => h.2, fun h => ⟨hj, h⟩⟩
    rw [testBit_summarise (marks.summary_lt le) (by omega) was]
    by_cases same : n = j
    · subst same
      simp [hj]
    · rw [if_neg same, update_of_ne same]
      exact marks.summary n

/-! ### Finding a member -/

theorem Marks.here (hj : j < k) (ne : word j >>> i ≠ 0) :
    i + trailingZeros b (word j >>> i) < b ∧ marked (j * b + (i + trailingZeros b (word j >>> i))) := by
  have lt : word j >>> i < 2 ^ b := Nat.lt_of_le_of_lt (Nat.shiftRight_le ..) (marks.small hj)
  obtain ⟨set, -⟩ := trailingZeros_spec ne lt
  rw [Nat.testBit_shiftRight] at set
  have inside : i + trailingZeros b (word j >>> i) < b := by
    by_contra le
    rw [Nat.testBit_lt_two_pow (Nat.lt_of_lt_of_le (marks.small hj) (Nat.pow_le_pow_right (by omega) (by omega)))] at set
    cases set
  exact ⟨inside, (marks.bits hj inside).mp set⟩

theorem Marks.later (le : k ≤ b) {n : Nat} (ne : summary &&& ((2 ^ b - 1) <<< n % 2 ^ b) ≠ 0) :
    n ≤ trailingZeros b (summary &&& ((2 ^ b - 1) <<< n % 2 ^ b)) ∧
      marked (trailingZeros b (summary &&& ((2 ^ b - 1) <<< n % 2 ^ b)) * b +
        trailingZeros b (word (trailingZeros b (summary &&& ((2 ^ b - 1) <<< n % 2 ^ b))))) := by
  have lt : summary &&& ((2 ^ b - 1) <<< n % 2 ^ b) < 2 ^ b :=
    Nat.lt_of_le_of_lt Nat.and_le_left (marks.summary_lt le)
  obtain ⟨set, -⟩ := trailingZeros_spec ne lt
  generalize trailingZeros b (summary &&& ((2 ^ b - 1) <<< n % 2 ^ b)) = j at set ⊢
  rw [Nat.testBit_and, Bool.and_eq_true, Nat.testBit_mod_two_pow, Nat.testBit_shiftLeft] at set
  obtain ⟨bit, mask⟩ := set
  obtain ⟨hj, nonzero⟩ := (marks.summary j).mp bit
  simp only [Bool.and_eq_true, decide_eq_true_eq] at mask
  obtain ⟨set, small⟩ := trailingZeros_spec nonzero (marks.small hj)
  exact ⟨mask.2.1, (marks.bits hj small).mp set⟩

theorem Marks.here_least (hj : j < k) {n : Nat} (ge : i ≤ n) (hn : n < b)
    (lt : n < i + trailingZeros b (word j >>> i)) : ¬marked (j * b + n) := by
  have clear := trailingZeros_least (show n - i < trailingZeros b (word j >>> i) by omega)
  rw [Nat.testBit_shiftRight, show i + (n - i) = n by omega] at clear
  rw [← marks.bits hj hn, clear]
  nofun

theorem Marks.later_least (le : k ≤ b) {n : Nat} (ge : n ≤ j) (hj : j < k)
    (lt : j < trailingZeros b (summary &&& ((2 ^ b - 1) <<< n % 2 ^ b))) : word j = 0 := by
  have clear := trailingZeros_least lt
  rw [Nat.testBit_and, Nat.testBit_mod_two_pow, Nat.testBit_shiftLeft, Nat.testBit_two_pow_sub_one,
    decide_eq_true (by omega : j < b), decide_eq_true (by omega : j ≥ n), decide_eq_true (by omega : j - n < b), Bool.and_true,
      Bool.and_true, Bool.and_true] at clear
  by_contra nonzero
  rw [(marks.summary j).mpr ⟨hj, nonzero⟩] at clear
  cases clear

theorem Marks.empty_word (hj : j < k) (hi : i < b) (zero : word j = 0) : ¬marked (j * b + i) := by
  rw [← marks.bits hj hi, zero, Nat.zero_testBit]
  nofun

end

/-! ### One member -/

theorem Marks.single {n : Nat} (marks : Marks b k word summary (· = n)) (pos : 0 < b) (lt : n / b < k) :
    (∀ {j}, j < k → word j = if j = n / b then 2 ^ (n % b) else 0) ∧ summary = 2 ^ (n / b) := by
  have index : n / b * b + n % b = n := by
    rw [Nat.mul_comm]
    exact Nat.div_add_mod n b
  have words : ∀ {j}, j < k → word j = if j = n / b then 2 ^ (n % b) else 0 := by
    intro j hj
    refine Nat.eq_of_testBit_eq fun i => ?_
    by_cases hi : i < b
    · rw [Bool.eq_iff_iff, marks.bits hj hi]
      split
      · rename_i here
        subst here
        rw [Nat.testBit_two_pow, decide_eq_true_eq]
        omega
      · rename_i other
        simp only [Nat.zero_testBit, Bool.false_eq_true, iff_false]
        intro same
        have both : j * b + i = n / b * b + n % b := by omega
        exact other (index_injective (Nat.mod_lt n pos) hi both).1
    · have small := Nat.mod_lt n pos
      have le : 2 ^ b ≤ 2 ^ i := Nat.pow_le_pow_right (by omega) (by omega)
      rw [Nat.testBit_lt_two_pow (Nat.lt_of_lt_of_le (marks.small hj) le)]
      split
      · rw [Nat.testBit_two_pow]
        simp
        omega
      · simp
  refine ⟨words, Nat.eq_of_testBit_eq fun j => ?_⟩
  rw [Bool.eq_iff_iff, marks.summary, Nat.testBit_two_pow, decide_eq_true_eq]
  constructor
  · intro ⟨hj, nonzero⟩
    rw [words hj] at nonzero
    by_contra other
    exact nonzero (if_neg (Ne.symm other))
  · intro here
    subst here
    refine ⟨lt, ?_⟩
    rw [words lt, if_pos rfl]
    exact Nat.ne_of_gt (Nat.two_pow_pos _)

end Evering.Memory
