import Evering.Target
import Evering.Word.Bits

/-!
# The control word of a queue slot

A `u16` packs who has the slot (nobody, a producer, nobody but with a position to consume, a consumer),
whether its value is complete, the participant that took it and the one that repairs it (both plus one,
zero for none). `Control` is what a canonical word says.
-/

namespace Evering.Queue

def empty : Nat := 0
def producer : Nat := 1
def available : Nat := 2
def consumer : Nat := 3
def baseMask : Nat := 0b11
def completeBit : Nat := 1 <<< 2
def sourceShift : Nat := 3
def sourceMask : Nat := 0x3f <<< sourceShift
def reaperShift : Nat := 9
def reaperMask : Nat := 0x3f <<< reaperShift
def reservedMask : Nat := 1 <<< 15

def owned (base : Nat) (complete : Bool) (owner : Nat) : Nat :=
  base ||| (if complete then completeBit else 0) ||| ((owner + 1) <<< sourceShift)

def base (control : Nat) : Nat :=
  control &&& baseMask

def source (control : Nat) : Nat :=
  (control &&& sourceMask) >>> sourceShift

def reaper (control : Nat) : Nat :=
  (control &&& reaperMask) >>> reaperShift

def canonical (capacity control : Nat) : Bool :=
  if control &&& reservedMask ≠ 0 then false
  else if base control = empty then decide (control = empty)
  else if base control = producer ∨ base control = consumer then
    decide (source control ≠ 0 ∧ source control ≤ capacity ∧ reaper control ≤ capacity)
  else decide (source control = 0 ∧ reaper control = 0)

/-- `control & !REAPER_MASK` on a `u16`. -/
def clearReaper (control : Nat) : Nat :=
  control &&& (0xffff ^^^ reaperMask)

/-- What a control word says. The reaper is the participant number plus one, or zero. -/
inductive Control
  | empty
  | producer (complete : Bool) (source reaper : Nat)
  | available (complete : Bool)
  | consumer (complete : Bool) (source reaper : Nat)
  deriving DecidableEq

namespace Control

def word : Control → Nat
  | empty => 0
  | producer complete source reaper => 1 + complete.toNat * 4 + (source + 1) * 8 + reaper * 512
  | available complete => 2 + complete.toNat * 4
  | consumer complete source reaper => 3 + complete.toNat * 4 + (source + 1) * 8 + reaper * 512

/-- Participant numbers below the capacity. -/
def Fits (capacity : Nat) : Control → Prop
  | empty => True
  | producer _ source reaper => source < capacity ∧ reaper ≤ capacity
  | available _ => True
  | consumer _ source reaper => source < capacity ∧ reaper ≤ capacity

end Control

theorem base_eq (control : Nat) : base control = control % 4 :=
  Word.and_ones control 2

theorem source_eq (control : Nat) : source control = control / 8 % 64 :=
  Word.and_ones_shift control 6 3

theorem reaper_eq (control : Nat) : reaper control = control / 512 % 64 :=
  Word.and_ones_shift control 6 9

theorem complete_eq (control : Nat) : control &&& completeBit = control / 4 % 2 * 4 :=
  Word.and_bit control 2

theorem reserved_eq (control : Nat) : control &&& reservedMask = control / 32768 % 2 * 32768 :=
  Word.and_bit control 15

/-! ### Words of canonical controls -/

variable {capacity : Nat}

theorem owned_eq {base p : Nat} {complete : Bool} (hb : base < 4) :
    owned base complete p = base + complete.toNat * 4 + (p + 1) * 8 := by
  have low : base ||| (if complete then completeBit else 0) = base + complete.toNat * 4 := by
    cases complete
    · simp
    · have := Word.or_shiftLeft (n := 2) 1 (show base < 2 ^ 2 from hb)
      simp only [Bool.toNat_true, if_true]
      rw [show completeBit = 1 <<< 2 from rfl, this]
      omega
  have bound : base + complete.toNat * 4 < 2 ^ 3 := by
    have := complete.toNat_le
    omega
  rw [owned, low, show sourceShift = 3 from rfl, Word.or_shiftLeft _ bound]
  omega

theorem owned_producer (complete : Bool) (p : Nat) : owned producer complete p = (Control.producer complete p 0).word := by
  rw [owned_eq (by decide)]
  simp [Control.word, producer]

theorem owned_consumer (complete : Bool) (p : Nat) : owned consumer complete p = (Control.consumer complete p 0).word := by
  rw [owned_eq (by decide)]
  simp [Control.word, consumer]

namespace Control

/-- The base, completeness, source field and reaper field of the word. -/
def fields : Control → Nat × Bool × Nat × Nat
  | empty => (0, false, 0, 0)
  | producer complete source reaper => (1, complete, source + 1, reaper)
  | available complete => (2, complete, 0, 0)
  | consumer complete source reaper => (3, complete, source + 1, reaper)

theorem word_eq (x : Control) : x.word = x.fields.1 + x.fields.2.1.toNat * 4 + x.fields.2.2.1 * 8 + x.fields.2.2.2 * 512 := by
  cases x <;> simp [word, fields]

/-- The control a word is read as. -/
def ofWord (w : Nat) : Control :=
  let complete := decide (w &&& completeBit ≠ 0)
  if base w = Queue.producer then producer complete (source w - 1) (reaper w)
  else if base w = Queue.available then available complete
  else if base w = Queue.consumer then consumer complete (source w - 1) (reaper w)
  else empty

/-- The control is in somebody's hands. -/
def isOwned : Control → Bool
  | producer .. => true
  | consumer .. => true
  | _ => false

/-- The same control under another reaper. -/
def withReaper (r : Nat) : Control → Control
  | producer complete source _ => producer complete source r
  | consumer complete source _ => consumer complete source r
  | x => x

section Word

variable (small : capacity ≤ 63) {x : Control} (fits : x.Fits capacity)

include small fits

theorem fields_lt : x.fields.1 < 4 ∧ x.fields.2.2.1 < 64 ∧ x.fields.2.2.2 < 64 := by
  cases x <;> simp only [fields, Fits] at * <;> omega

theorem read_word : x.fields = (base x.word, decide (x.word &&& completeBit ≠ 0), source x.word, reaper x.word) := by
  obtain ⟨hb, hs, hr⟩ := fields_lt small fits
  have hc := x.fields.2.1.toNat_le
  have hw := word_eq x
  have flag : x.fields.2.1 = decide (x.word &&& completeBit ≠ 0) := by
    rw [complete_eq, show x.word / 4 % 2 = x.fields.2.1.toNat by omega]
    cases x.fields.2.1 <;> rfl
  have hb' : x.fields.1 = base x.word := by rw [base_eq]; omega
  have hs' : x.fields.2.2.1 = source x.word := by rw [source_eq]; omega
  have hr' : x.fields.2.2.2 = reaper x.word := by rw [reaper_eq]; omega
  rw [← flag, ← hb', ← hs', ← hr']

theorem ofWord_word : ofWord x.word = x := by
  have read := read_word small fits
  simp only [Prod.ext_iff] at read
  obtain ⟨hb, hc, hs, hr⟩ := read
  rw [ofWord, ← hb, ← hc, ← hs, ← hr]
  cases x <;> rfl

theorem base_word : base x.word = x.fields.1 := by
  rw [read_word small fits]

theorem source_word : source x.word = x.fields.2.2.1 := by
  rw [read_word small fits]

theorem reaper_word : reaper x.word = x.fields.2.2.2 := by
  rw [read_word small fits]

theorem complete_word : (x.word &&& completeBit ≠ 0) ↔ x.fields.2.1 = true := by
  rw [read_word small fits, decide_eq_true_iff]

theorem word_lt : x.word < 32768 := by
  obtain ⟨hb, hs, hr⟩ := fields_lt small fits
  have hc := x.fields.2.1.toNat_le
  have hw := word_eq x
  omega

theorem canonical_word : canonical capacity x.word = true := by
  have reserved : ¬x.word &&& reservedMask ≠ 0 := by
    rw [reserved_eq, Nat.div_eq_of_lt (word_lt small fits)]
    simp
  rw [canonical, if_neg reserved, base_word small fits, source_word small fits, reaper_word small fits]
  cases x with
  | empty => rfl
  | available c => rfl
  | producer c p r =>
    have : p + 1 ≤ capacity ∧ r ≤ capacity := fits
    simp [fields, Queue.empty, Queue.producer, this]
  | consumer c p r =>
    have : p + 1 ≤ capacity ∧ r ≤ capacity := fits
    simp [fields, Queue.empty, Queue.producer, Queue.consumer, this]

theorem withReaper_word (owned : x.isOwned = true) (r : Nat) : (x.withReaper r).word = x.word % 512 + r * 512 := by
  obtain ⟨hb, hs, hr⟩ := fields_lt small fits
  have hc := x.fields.2.1.toNat_le
  have hw := word_eq x
  have hw' := word_eq (x.withReaper r)
  have same : (x.withReaper r).fields = (x.fields.1, x.fields.2.1, x.fields.2.2.1, r) := by
    cases x <;> first | rfl | cases owned
  simp only [same] at hw'
  omega

theorem or_reaper (owned : x.isOwned = true) (vacant : reaper x.word = 0) (r : Nat) :
    x.word ||| (r <<< reaperShift) = (x.withReaper r).word := by
  have low : x.word < 2 ^ 9 := by
    have := word_lt small fits
    rw [reaper_eq] at vacant
    omega
  rw [withReaper_word small fits owned, show reaperShift = 9 from rfl, Word.or_shiftLeft _ low]
  omega

theorem clearReaper_or_reaper (owned : x.isOwned = true) (r : Nat) :
    clearReaper x.word ||| (r <<< reaperShift) = (x.withReaper r).word := by
  have low : clearReaper x.word = x.word % 512 := by
    rw [clearReaper, show 0xffff ^^^ reaperMask = ((1 <<< 9) - 1) ||| reservedMask by decide,
      Nat.and_or_distrib_left, Word.and_ones, reserved_eq, Nat.div_eq_of_lt (word_lt small fits)]
    simp
  have lt : x.word % 512 < 2 ^ 9 := Nat.mod_lt _ (by omega)
  rw [withReaper_word small fits owned, low, show reaperShift = 9 from rfl, Word.or_shiftLeft _ lt]
  omega

end Word

end Control

end Evering.Queue
