import Mathlib.Algebra.Group.Nat.Defs
import Mathlib.Tactic.Common

/-!
# The target of the region

Shared words are `usize` words, so the pointer width of the target bounds every count that is kept in
one: the participants are numbered below `PARTICIPANT_CAPACITY`, one less than the width.
-/

namespace Evering

structure Target where
  /-- `usize::BITS` -/
  bits : Nat
  supported : bits = 32 ∨ bits = 64

def Target.participantCapacity (target : Target) : Nat :=
  target.bits - 1

theorem Target.participantCapacity_le (target : Target) : target.participantCapacity ≤ 63 := by
  have := target.supported
  unfold participantCapacity
  omega

theorem Target.supported_64 : 64 = 32 ∨ 64 = 64 := .inr rfl

theorem Target.zero_lt (target : Target) : 0 < 2 ^ target.bits := Nat.two_pow_pos _

/-- `next_power_of_two` of the standard library, before its overflow check. -/
def nextPowerOfTwo (n : Nat) : Nat :=
  if n ≤ 1 then 1 else 2 ^ ((n - 1).log2 + 1)

def Target.checkedNextPowerOfTwo (target : Target) (n : Nat) : Option Nat :=
  if nextPowerOfTwo n < 2 ^ target.bits then some (nextPowerOfTwo n) else none

end Evering
