import Evering.Target
import Evering.Word.Bits

/-!
# The state word of a Pool slot

A `u32` packs the owner (six bits, zero for none), the allocated bit and the generation. `State.auth`
reads the word as what it says about the slot: free, owned by one participant, or detached into a token.
-/

namespace Evering.Pool

def ownerBits : Nat := 6
def ownerMask : Nat := (1 <<< ownerBits) - 1
def allocatedBit : Nat := 1 <<< ownerBits
def generationShift : Nat := ownerBits + 1
def maxGeneration : Nat := (2 ^ 32 - 1) >>> generationShift

structure State where
  word : Nat
  deriving DecidableEq

namespace State

def free (generation : Nat) : State :=
  ⟨(generation <<< generationShift) % 2 ^ 32⟩

/-- `None` for a generation or an owner that does not fit. -/
def «local» (capacity generation owner : Nat) : Option State :=
  if generation > maxGeneration ∨ owner ≥ capacity then none
  else some ⟨((generation <<< generationShift) % 2 ^ 32) ||| allocatedBit ||| (owner + 1)⟩

def detached (generation : Nat) : State :=
  ⟨((generation <<< generationShift) % 2 ^ 32) ||| allocatedBit⟩

def generation (state : State) : Nat :=
  state.word >>> generationShift

def owner (state : State) : Option Nat :=
  let owner := state.word &&& ownerMask
  if owner = 0 then none else some (owner - 1)

def allocated (state : State) : Bool :=
  state.word &&& allocatedBit != 0

def canonical (state : State) : Bool :=
  state.allocated || state.owner.isNone

end State

/-- What a state word says about its slot. -/
inductive Auth
  | free (generation : Nat)
  | owned (generation owner : Nat)
  | detached (generation : Nat)
  deriving DecidableEq

namespace Auth

def generation : Auth → Nat
  | free g => g
  | owned g _ => g
  | detached g => g

def word : Auth → State
  | free g => ⟨g * 128⟩
  | owned g p => ⟨g * 128 + 64 + (p + 1)⟩
  | detached g => ⟨g * 128 + 64⟩

/-- Fields that fit the word. -/
def Fits (capacity : Nat) : Auth → Prop
  | free g => g ≤ maxGeneration
  | owned g p => g ≤ maxGeneration ∧ p < capacity
  | detached g => g ≤ maxGeneration

end Auth

def State.auth (state : State) : Auth :=
  if state.allocated then
    match state.owner with
    | some p => .owned state.generation p
    | none => .detached state.generation
  else .free state.generation

theorem maxGeneration_eq : maxGeneration = 33554431 := by decide

variable {g capacity p : Nat} {x : Auth}

theorem shifted_generation (h : g ≤ maxGeneration) : (g <<< generationShift) % 2 ^ 32 = g <<< 7 ∧ g <<< 7 = g * 128 := by
  rw [maxGeneration_eq] at h
  have shift : g <<< 7 = g * 128 := Nat.shiftLeft_eq g 7
  refine ⟨?_, shift⟩
  rw [show generationShift = 7 from rfl, shift]
  omega

theorem State.free_eq (h : g ≤ maxGeneration) : State.free g = (Auth.free g).word := by
  obtain ⟨fits, shift⟩ := shifted_generation h
  simp only [State.free, Auth.word, fits, shift]

theorem State.detached_eq (h : g ≤ maxGeneration) : State.detached g = (Auth.detached g).word := by
  obtain ⟨fits, shift⟩ := shifted_generation h
  simp only [State.detached, Auth.word, fits]
  rw [Word.shiftLeft_or _ (by decide), show allocatedBit = 64 from rfl]
  rfl

theorem State.local_eq (small : capacity ≤ 63) (h : g ≤ maxGeneration)
    (hp : p < capacity) : State.local capacity g p = some (Auth.owned g p).word := by
  obtain ⟨fits, shift⟩ := shifted_generation h
  have bits : 64 ||| (p + 1) = 64 + (p + 1) := by
    have := Word.shiftLeft_or (n := 6) 1 (show p + 1 < 2 ^ 6 by omega)
    simpa using this
  have flagged : allocatedBit ||| (p + 1) = 64 + (p + 1) := bits
  simp only [State.local, Auth.word, fits]
  rw [if_neg (by omega), Nat.or_assoc, flagged, Word.shiftLeft_or _ (by omega)]
  simp only [Option.some.injEq, State.mk.injEq]
  omega

theorem State.local_none (h : maxGeneration < g ∨ capacity ≤ p) : State.local capacity g p = none := by
  simp only [State.local]
  rw [if_pos (by omega)]

theorem State.of_local_eq_some {state : State} (small : capacity ≤ 63) (h : State.local capacity g p = some state) :
    (Auth.owned g p).Fits capacity ∧ state = (Auth.owned g p).word := by
  by_cases fits : g ≤ maxGeneration ∧ p < capacity
  · rw [State.local_eq small fits.1 fits.2, Option.some.injEq] at h
    exact ⟨fits, h.symm⟩
  · rw [State.local_none (by omega)] at h
    cases h

/-! ### Fields of an encoded word -/

theorem State.generation_eq (state : State) : state.generation = state.word / 128 :=
  Nat.shiftRight_eq_div_pow state.word 7

theorem State.owner_eq (state : State) : state.owner = if state.word % 64 = 0 then none else some (state.word % 64 - 1) := by
  simp only [State.owner, ownerMask, ownerBits, Word.and_ones]
  rfl

theorem State.allocated_eq (state : State) : state.allocated = decide (state.word / 64 % 2 = 1) := by
  simp only [State.allocated, allocatedBit, ownerBits, Word.and_bit]
  rcases Nat.mod_two_eq_zero_or_one (state.word / 64) with h | h <;> simp [h]

variable {capacity : Nat}

theorem Auth.word_generation (small : capacity ≤ 63) {x : Auth}
    (fits : x.Fits capacity) : x.word.generation = x.generation := by
  rw [State.generation_eq]
  cases x with
  | free g => simp only [Auth.word, Auth.generation]; omega
  | owned g p => simp only [Auth.Fits] at fits; simp only [Auth.word, Auth.generation]; omega
  | detached g => simp only [Auth.word, Auth.generation]; omega

def Auth.owner : Auth → Option Nat
  | owned _ p => some p
  | _ => none

def Auth.allocated : Auth → Bool
  | free _ => false
  | _ => true

theorem Auth.word_owner (small : capacity ≤ 63) (fits : x.Fits capacity) : x.word.owner = x.owner := by
  rw [State.owner_eq]
  cases x with
  | free g => rw [if_pos (by simp only [Auth.word]; omega)]; rfl
  | owned g p =>
    simp only [Auth.Fits] at fits
    rw [if_neg (by simp only [Auth.word]; omega)]
    simp only [Auth.word, Auth.owner, Option.some.injEq]
    omega
  | detached g => rw [if_pos (by simp only [Auth.word]; omega)]; rfl

theorem Auth.word_allocated (small : capacity ≤ 63) {x : Auth} (fits : x.Fits capacity) : x.word.allocated = x.allocated := by
  rw [State.allocated_eq]
  cases x with
  | free g => exact decide_eq_false (by simp only [Auth.word]; omega)
  | owned g p =>
    simp only [Auth.Fits] at fits
    exact decide_eq_true (by simp only [Auth.word]; omega)
  | detached g => exact decide_eq_true (by simp only [Auth.word]; omega)

theorem Auth.word_canonical (small : capacity ≤ 63) {x : Auth} (fits : x.Fits capacity) : x.word.canonical = true := by
  rw [State.canonical, word_allocated small fits, word_owner small fits]
  cases x <;> rfl

theorem Auth.auth_word (small : capacity ≤ 63) (fits : x.Fits capacity) : x.word.auth = x := by
  rw [State.auth, word_allocated small fits, word_owner small fits, word_generation small fits]
  cases x <;> rfl

end Evering.Pool
