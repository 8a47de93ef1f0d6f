import Evering.Target
import Evering.Word.Bits

/-!
# The word of a channel role

Each of the two roles of a channel has a `usize` word that packs the terminal bit, the participant that owns
the role (zero for none) and the generation. A word and its three fields determine each other.
-/

namespace Evering.Channel

variable (T : Target)

/-- `ROLE_SLOT_BITS`, the trailing zeros of `usize::BITS` -/
def roleSlotBits : Nat := T.bits.log2

def roleGenerationShift : Nat := 1 + roleSlotBits T

def roleSlotMask : Nat := ((1 <<< roleSlotBits T) - 1) <<< 1

def maxGeneration : Nat := (2 ^ T.bits - 1) >>> roleGenerationShift T

structure RoleWord where
  raw : Nat
  fits : raw < 2 ^ T.bits
  deriving DecidableEq

theorem roleSlotBits_eq : (T.bits = 32 ∧ roleSlotBits T = 5) ∨ (T.bits = 64 ∧ roleSlotBits T = 6) := by
  unfold roleSlotBits
  rcases T.supported with bits | bits
  · exact .inl ⟨bits, by rw [bits]; decide⟩
  · exact .inr ⟨bits, by rw [bits]; decide⟩

theorem participantCapacity_eq : T.participantCapacity + 1 = 2 ^ roleSlotBits T := by
  unfold Target.participantCapacity
  rcases roleSlotBits_eq T with ⟨bits, slotBits⟩ | ⟨bits, slotBits⟩ <;> rw [bits, slotBits] <;> rfl

theorem roleGenerationShift_eq : 2 ^ roleGenerationShift T = 2 * 2 ^ roleSlotBits T := by
  unfold roleGenerationShift
  rw [Nat.pow_add]

theorem maxGeneration_eq : (maxGeneration T + 1) * 2 ^ roleGenerationShift T = 2 ^ T.bits := by
  unfold maxGeneration roleGenerationShift
  rcases roleSlotBits_eq T with ⟨bits, slotBits⟩ | ⟨bits, slotBits⟩ <;> rw [bits, slotBits] <;> decide

variable {T}

theorem pack_eq (generation : Nat) {slot : Nat} (terminal : Bool) (small : slot < 2 ^ roleSlotBits T) :
    (generation <<< roleGenerationShift T) ||| (slot <<< 1) ||| terminal.toNat =
      generation * 2 ^ roleGenerationShift T + (slot * 2 + terminal.toNat) := by
  have low : terminal.toNat < 2 ^ 1 := Bool.toNat_lt terminal
  have shift := roleGenerationShift_eq T
  rw [Nat.or_assoc, Word.shiftLeft_or slot low, Word.shiftLeft_or _ (by omega), Nat.pow_one]

theorem pack_lt {generation slot : Nat} (terminal : Bool) (le : generation ≤ maxGeneration T)
    (small : slot < 2 ^ roleSlotBits T) :
    (generation <<< roleGenerationShift T) ||| (slot <<< 1) ||| terminal.toNat < 2 ^ T.bits := by
  have low := Bool.toNat_lt terminal
  have shift := roleGenerationShift_eq T
  have next : (generation + 1) * 2 ^ roleGenerationShift T ≤ 2 ^ T.bits := by
    rw [← maxGeneration_eq]
    exact Nat.mul_le_mul_right _ (by omega)
  rw [Nat.succ_mul] at next
  rw [pack_eq generation terminal small]
  omega

theorem pack_some_lt {generation p : Nat} {terminal : Bool} (le : ¬generation > maxGeneration T)
    (small : p < T.participantCapacity) :
    (generation <<< roleGenerationShift T) ||| ((p + 1) <<< 1) ||| terminal.toNat < 2 ^ T.bits := by
  have := participantCapacity_eq T
  exact pack_lt terminal (by omega) (by omega)

theorem pack_none_lt {generation : Nat} {terminal : Bool} (le : ¬generation > maxGeneration T) :
    (generation <<< roleGenerationShift T) ||| (0 <<< 1) ||| terminal.toNat < 2 ^ T.bits :=
  pack_lt terminal (by omega) (Nat.two_pow_pos _)

namespace RoleWord

/-- `RoleWord::new`; `None` for a generation or a participant that does not fit -/
def new (generation : Nat) (participant : Option Nat) (terminal : Bool) : Option (RoleWord T) :=
  if large : generation > maxGeneration T then none
  else
    match participant with
    | some p =>
      if small : p < T.participantCapacity then
        some ⟨(generation <<< roleGenerationShift T) ||| ((p + 1) <<< 1) ||| terminal.toNat, pack_some_lt large small⟩
      else none
    | none => some ⟨(generation <<< roleGenerationShift T) ||| (0 <<< 1) ||| terminal.toNat, pack_none_lt large⟩

def generation (word : RoleWord T) : Nat := word.raw >>> roleGenerationShift T

def owner (word : RoleWord T) : Option Nat :=
  let slot := (word.raw &&& roleSlotMask T) >>> 1
  if slot = 0 then none else some (slot - 1)

def terminal (word : RoleWord T) : Bool := decide (word.raw &&& 1 ≠ 0)

/-- `RoleWord::parts` -/
def parts (word : RoleWord T) : Nat × Option Nat × Bool := (word.generation, word.owner, word.terminal)

/-- `RoleWord::next_unowned`; the generation of a word has room for `checked_add(1)` -/
def nextUnowned (word : RoleWord T) (terminal : Bool) : Option (RoleWord T) :=
  new (word.generation + 1) none terminal

/-! ### Words and their fields -/

theorem generation_le (word : RoleWord T) : word.generation ≤ maxGeneration T := by
  unfold generation maxGeneration
  rw [Nat.shiftRight_eq_div_pow, Nat.shiftRight_eq_div_pow]
  have fits := word.fits
  exact Nat.div_le_div_right (by omega)

theorem owner_lt (word : RoleWord T) {p : Nat} (owned : word.owner = some p) : p < T.participantCapacity := by
  have capacity := participantCapacity_eq T
  unfold owner roleSlotMask at owned
  rw [Word.and_ones_shift] at owned
  have small : word.raw / 2 ^ 1 % 2 ^ roleSlotBits T < 2 ^ roleSlotBits T := Nat.mod_lt _ (Nat.two_pow_pos _)
  simp only at owned
  split at owned
  · cases owned
  · simp only [Option.some.injEq] at owned
    omega

/-- The slot number that stands for a participant. -/
def slotOf : Option Nat → Nat
  | none => 0
  | some p => p + 1

theorem slotOf_owner (word : RoleWord T) : slotOf word.owner = word.raw / 2 % 2 ^ roleSlotBits T := by
  unfold owner roleSlotMask
  rw [Word.and_ones_shift, Nat.pow_one]
  simp only
  split
  · simpa [slotOf] using Eq.symm ‹_›
  · simp only [slotOf]
    omega

theorem raw_eq (word : RoleWord T) : word.raw =
    word.generation * 2 ^ roleGenerationShift T + (slotOf word.owner * 2 + word.terminal.toNat) := by
  have low : word.terminal.toNat = word.raw % 2 := by
    unfold terminal
    rw [Nat.and_one_is_mod]
    rcases Nat.mod_two_eq_zero_or_one word.raw with even | odd
    · simp [even]
    · simp [odd]
  have shift := roleGenerationShift_eq T
  have halves : word.raw / 2 / 2 ^ roleSlotBits T = word.generation := by
    unfold generation
    rw [Nat.shiftRight_eq_div_pow, shift, Nat.div_div_eq_div_mul]
  have split := Nat.div_add_mod (word.raw / 2) (2 ^ roleSlotBits T)
  rw [halves] at split
  rw [low, slotOf_owner, shift, Nat.mul_left_comm, Nat.mul_comm word.generation]
  omega

theorem parts_injective {word word' : RoleWord T} (same : word.parts = word'.parts) : word = word' := by
  simp only [parts, Prod.mk.injEq] at same
  obtain ⟨generation, owner, terminal⟩ := same
  have raw := raw_eq word
  rw [generation, owner, terminal, ← raw_eq word'] at raw
  cases word
  cases word'
  simp only at raw
  subst raw
  rfl

theorem fields_of_raw {word : RoleWord T} {generation slot : Nat} {terminal : Bool} (small : slot < 2 ^ roleSlotBits T)
    (raw : word.raw = (generation <<< roleGenerationShift T) ||| (slot <<< 1) ||| terminal.toNat) :
    word.generation = generation ∧ slotOf word.owner = slot ∧ word.terminal = terminal := by
  rw [pack_eq generation terminal small] at raw
  have low := Bool.toNat_lt terminal
  have shift := roleGenerationShift_eq T
  have half : word.raw / 2 = 2 ^ roleSlotBits T * generation + slot := by
    rw [raw, shift, Nat.mul_left_comm, Nat.mul_comm generation]
    omega
  refine ⟨?_, ?_, ?_⟩
  · unfold RoleWord.generation
    rw [Nat.shiftRight_eq_div_pow, shift, ← Nat.div_div_eq_div_mul, half, Nat.mul_add_div (Nat.two_pow_pos _),
      Nat.div_eq_of_lt small, Nat.add_zero]
  · rw [slotOf_owner, half, Nat.mul_add_mod, Nat.mod_eq_of_lt small]
  · have parity : word.raw % 2 = terminal.toNat := by
      rw [raw, shift, Nat.mul_left_comm]
      omega
    unfold RoleWord.terminal
    rw [Nat.and_one_is_mod, parity]
    cases terminal <;> simp

theorem slotOf_injective {p q : Option Nat} (same : slotOf p = slotOf q) : p = q := by
  cases p <;> cases q <;> simp_all [slotOf]

theorem parts_of_new {generation : Nat} {participant : Option Nat} {terminal : Bool} {word : RoleWord T}
    (made : new generation participant terminal = some word) :
    word.generation = generation ∧ word.owner = participant ∧ word.terminal = terminal := by
  unfold new at made
  have capacity := participantCapacity_eq T
  split at made
  · cases made
  cases participant with
  | none =>
    simp only [Option.some.injEq] at made
    have raw : word.raw = (generation <<< roleGenerationShift T) ||| (0 <<< 1) ||| terminal.toNat := by
      rw [← made]
    obtain ⟨first, second, third⟩ := fields_of_raw (Nat.two_pow_pos _) raw
    exact ⟨first, slotOf_injective second, third⟩
  | some p =>
    simp only at made
    split at made
    · simp only [Option.some.injEq] at made
      have raw : word.raw = (generation <<< roleGenerationShift T) ||| ((p + 1) <<< 1) ||| terminal.toNat := by
        rw [← made]
      obtain ⟨first, second, third⟩ := fields_of_raw (by omega) raw
      exact ⟨first, slotOf_injective second, third⟩
    · cases made

theorem new_isSome {generation : Nat} (le : generation ≤ maxGeneration T) (terminal : Bool) :
    (new generation none terminal : Option (RoleWord T)).isSome = true := by
  unfold new
  rw [dif_neg (by omega)]
  rfl

/-- `RoleWord::new(generation, None, true).unwrap()` for the generation of a word -/
def retired (word : RoleWord T) : RoleWord T :=
  (new word.generation none true).get (new_isSome word.generation_le true)

/-- The word after its owner has left: terminal words stay terminal, and the last generation ends in one. -/
def released (word : RoleWord T) : RoleWord T :=
  if word.terminal then word.retired else (word.nextUnowned false).getD word.retired

theorem retired_parts (word : RoleWord T) :
    word.retired.generation = word.generation ∧ word.retired.owner = none ∧ word.retired.terminal = true :=
  parts_of_new (Option.some_get _).symm

end RoleWord

end Evering.Channel
