import Mathlib.Algebra.Group.Nat.Defs
import Mathlib.Tactic.Common

/-!
# Bisection

A property that holds at one end of an interval and not at the other changes somewhere in between; halving the interval finds such
a place.
-/

namespace Evering

/-- Halves the interval at most `n` times. -/
def bisect (good : Nat → Bool) : Nat → Nat → Nat → Nat
  | 0, low, _ => low
  | n + 1, low, high =>
    if low + 1 < high then
      let middle := low + (high - low) / 2
      if good middle then bisect good n middle high else bisect good n low middle
    else low

theorem bisect_spec {good : Nat → Bool} {n low high : Nat} (first : good low = true) (last : good high = false) (lt : low < high)
    (enough : high - low ≤ 2 ^ n) :
    low ≤ bisect good n low high ∧ good (bisect good n low high) = true ∧ good (bisect good n low high + 1) = false := by
  induction n generalizing low high with
  | zero =>
    obtain rfl : high = low + 1 := by
      rw [Nat.pow_zero] at enough
      omega
    exact ⟨Nat.le_refl low, first, last⟩
  | succ n ih =>
    rw [Nat.pow_succ] at enough
    unfold bisect
    split
    · dsimp only
      split
      · rename_i good_middle
        obtain ⟨le, holds, fails⟩ := ih good_middle last (by omega) (by omega)
        exact ⟨by omega, holds, fails⟩
      · rename_i bad_middle
        exact ih first (Bool.not_eq_true _ ▸ bad_middle) (by omega) (by omega)
    · obtain rfl : high = low + 1 := by omega
      exact ⟨Nat.le_refl low, first, last⟩

/-- If the property holds below every number at which it holds, it holds at no larger one. -/
theorem bisect_greatest {good : Nat → Bool} {n low high : Nat} (first : good low = true) (last : good high = false)
    (lt : low < high) (enough : high - low ≤ 2 ^ n) (down : ∀ {a b}, a ≤ b → good b = true → good a = true) {b : Nat}
    (above : bisect good n low high < b) : good b = false := by
  rw [← Bool.not_eq_true]
  intro holds
  obtain ⟨-, -, fails⟩ := bisect_spec first last lt enough
  rw [down above holds] at fails
  cases fails

end Evering
