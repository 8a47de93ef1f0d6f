import Mathlib.Data.Nat.Find
import Mathlib.Logic.Function.Basic
import Mathlib.Tactic.Common

/-!
# Mixing of words

The steps of a hash that lose nothing: a rotation, and the product with a word that has an inverse. The product also keeps the
lowest bit at which two words differ.
-/

namespace Evering.Word

variable {w : Nat}
variable {r k : Nat} {m x y : BitVec w}

/-- Bit `i` of a word stands at bit `i + r` of its rotation by `r`, past the end at the beginning. -/
theorem getLsbD_of_rotateLeft (x : BitVec w) {i : Nat} (h : r < w) (bound : i < w) :
    (x.rotateLeft r).getLsbD (if i + r < w then i + r else i + r - w) = x.getLsbD i := by
  rw [BitVec.getLsbD_rotateLeft, Nat.mod_eq_of_lt h]
  split
  · rename_i inside
    rw [decide_eq_false (by omega), decide_eq_true inside, cond_false, Bool.true_and, Nat.add_sub_cancel]
  · rw [decide_eq_true (by omega), cond_true]
    congr 1
    omega

theorem rotateLeft_injective (h : r < w) : Function.Injective fun x : BitVec w => x.rotateLeft r := by
  intro x y same
  refine BitVec.eq_of_getLsbD_eq fun i bound => ?_
  rw [← getLsbD_of_rotateLeft x h bound, ← getLsbD_of_rotateLeft y h bound]
  exact congrArg (fun word : BitVec w => word.getLsbD _) same

theorem mul_injective_of_unit (inverse : BitVec w) (unit : m * inverse = 1#w) :
    Function.Injective fun x : BitVec w => x * m := by
  intro x y same
  have times := congrArg (· * inverse) same
  simpa only [BitVec.mul_assoc, unit, BitVec.mul_one] using times

/-! ### Lowest bits -/

theorem exists_lowest_differ (ne : x ≠ y) :
    ∃ t, t < w ∧ x.getLsbD t ≠ y.getLsbD t ∧ ∀ i, i < t → x.getLsbD i = y.getLsbD i := by
  have differ : ∃ i, i < w ∧ x.getLsbD i ≠ y.getLsbD i := by
    by_contra none
    exact ne (BitVec.eq_of_getLsbD_eq fun i lt => not_not.mp fun other => none ⟨i, lt, other⟩)
  obtain ⟨lt, here⟩ := Nat.find_spec differ
  exact ⟨Nat.find differ, lt, here, fun i below => not_not.mp fun other => Nat.find_min differ below ⟨by omega, other⟩⟩

theorem setWidth_eq_iff : x.setWidth k = y.setWidth k ↔ ∀ i, i < k → x.getLsbD i = y.getLsbD i := by
  refine ⟨fun same i lt => ?_, fun bits => BitVec.eq_of_getLsbD_eq fun i lt => ?_⟩
  · simpa [lt] using congrArg (BitVec.getLsbD · i) same
  · simp [lt, bits i lt]

theorem setWidth_mul_eq_iff (inverse : BitVec w) (unit : m * inverse = 1#w) (le : k ≤ w) :
    (x * m).setWidth k = (y * m).setWidth k ↔ x.setWidth k = y.setWidth k := by
  refine ⟨fun same => ?_, fun same => ?_⟩
  · have times := congrArg (· * inverse.setWidth k) same
    simpa only [← BitVec.setWidth_mul _ _ le, BitVec.mul_assoc, unit, BitVec.mul_one] using times
  · rw [BitVec.setWidth_mul _ _ le, BitVec.setWidth_mul _ _ le, same]

end Evering.Word
