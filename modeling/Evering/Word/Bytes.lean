import Mathlib.Algebra.Group.Nat.Defs
import Mathlib.Data.List.Basic
import Mathlib.Tactic.Common

/-!
# Numbers as bytes

Numbers in a fixed number of bytes, the lowest byte first, and the fields of a byte string.
-/

namespace Evering.Word

open List

/-- `to_le_bytes` of a number in `n` bytes -/
def toLe : Nat → Nat → List UInt8
  | 0, _ => []
  | n + 1, x => UInt8.ofNat x :: toLe n (x / 256)

/-- `from_le_bytes` -/
def ofLe : List UInt8 → Nat
  | [] => 0
  | byte :: bytes => byte.toNat + 256 * ofLe bytes

@[simp] theorem length_toLe (n x : Nat) : (toLe n x).length = n := by
  induction n generalizing x with
  | zero => rfl
  | succ n ih => simp [toLe, ih]

variable {n offset : Nat} {front rest : List UInt8}

theorem ofLe_toLe {x : Nat} (lt : x < 256 ^ n) : ofLe (toLe n x) = x := by
  induction n generalizing x with
  | zero => simpa [toLe, ofLe, eq_comm] using lt
  | succ n ih =>
    rw [Nat.pow_succ'] at lt
    simp only [toLe, ofLe, ih (Nat.div_lt_of_lt_mul lt), UInt8.toNat_ofNat']
    omega

variable {bytes : List UInt8}

theorem toLe_ofLe (length : bytes.length = n) : toLe n (ofLe bytes) = bytes := by
  induction bytes generalizing n with
  | nil =>
    subst length
    rfl
  | cons byte bytes ih =>
    subst length
    have small := byte.toNat_lt
    have low : UInt8.ofNat (byte.toNat + 256 * ofLe bytes) = byte := by
      apply UInt8.toNat_inj.mp
      rw [UInt8.toNat_ofNat']
      omega
    rw [ofLe, length_cons, toLe, low, show (byte.toNat + 256 * ofLe bytes) / 256 = ofLe bytes by omega, ih rfl]

theorem ofLe_lt (bytes : List UInt8) : ofLe bytes < 256 ^ bytes.length := by
  induction bytes with
  | nil => simp [ofLe]
  | cons byte bytes ih =>
    have small := byte.toNat_lt
    rw [ofLe, length_cons, Nat.pow_succ']
    omega

/-! ### Fields -/

/-- `bytes[offset..offset + n]` -/
def field (bytes : List UInt8) (offset n : Nat) : List UInt8 := (bytes.drop offset).take n

theorem length_field (inside : offset + n ≤ bytes.length) : (field bytes offset n).length = n := by
  rw [field, length_take, length_drop]
  omega

theorem drop_eq_field (bytes : List UInt8) (offset n : Nat) :
    bytes.drop offset = field bytes offset n ++ bytes.drop (offset + n) := by
  rw [field, ← drop_drop, take_append_drop]

theorem field_all (length : bytes.length = n) : field bytes 0 n = bytes := by
  simp [field, ← length]

theorem field_append_left (length : front.length = n) : field (front ++ rest) 0 n = front := by
  simp [field, ← length]

theorem field_append_right (past : front.length ≤ offset) :
    field (front ++ rest) offset n = field rest (offset - front.length) n := by
  simp [field, drop_append, drop_eq_nil_of_le past]

/-- A zeroed buffer of `size` bytes with `bytes` read into its front. -/
def fill (size : Nat) (bytes : List UInt8) : List UInt8 := bytes ++ List.replicate (size - bytes.length) 0

theorem field_fill {offset n : Nat} (size : Nat) (inside : offset + n ≤ bytes.length) :
    field (fill size bytes) offset n = field bytes offset n := by
  rw [field, fill, drop_append_of_le_length (by omega), take_append_of_le_length (by rw [length_drop]; omega), field]

/-! ### Chunks -/

/-- The first `count` chunks of `n` bytes. -/
def chunks (n : Nat) : Nat → List UInt8 → List (List UInt8)
  | 0, _ => []
  | count + 1, bytes => bytes.take n :: chunks n count (bytes.drop n)

def chunksExact (n : Nat) (bytes : List UInt8) : List (List UInt8) := chunks n (bytes.length / n) bytes

theorem length_words (n : Nat) (words : List Nat) : (words.flatMap (toLe n)).length = words.length * n := by
  induction words with
  | nil => simp
  | cons word words ih => rw [flatMap_cons, length_append, ih, length_toLe, length_cons, Nat.succ_mul, Nat.add_comm]

theorem chunks_words (n : Nat) (words : List Nat) (more : Nat) (rest : List UInt8) :
    chunks n (words.length + more) (words.flatMap (toLe n) ++ rest) = words.map (toLe n) ++ chunks n more rest := by
  induction words with
  | nil => simp
  | cons word words ih =>
    rw [length_cons, Nat.add_right_comm, chunks, flatMap_cons, append_assoc, take_left' (length_toLe n word),
      drop_left' (length_toLe n word), ih, map_cons, cons_append]

theorem chunks_replicate (n count extra : Nat) :
    chunks n count (List.replicate (count * n + extra) 0) = List.replicate count (List.replicate n 0) := by
  induction count with
  | zero => rfl
  | succ count ih =>
    rw [chunks, take_replicate, drop_replicate, replicate_succ, ← ih, Nat.succ_mul]
    congr 2
    · omega
    · congr 1
      omega

@[simp] theorem ofLe_replicate (n : Nat) : ofLe (List.replicate n 0) = 0 := by
  induction n with
  | zero => rfl
  | succ n ih => simp [replicate_succ, ofLe, ih]

theorem exists_words {count : Nat} (length : bytes.length = count * n) :
    ∃ words : List Nat, words.length = count ∧ words.flatMap (toLe n) = bytes ∧ ∀ word ∈ words, word < 256 ^ n := by
  induction count generalizing bytes with
  | zero => exact ⟨[], rfl, by simpa [eq_comm] using length, by simp⟩
  | succ count ih =>
    rw [Nat.succ_mul] at length
    have whole : (bytes.take n).length = n := by
      rw [length_take]
      omega
    obtain ⟨words, counted, same, small⟩ := @ih (bytes.drop n) (by rw [length_drop]; omega)
    refine ⟨ofLe (bytes.take n) :: words, by rw [length_cons, counted], ?_, ?_⟩
    · rw [flatMap_cons, toLe_ofLe whole, same, take_append_drop]
    · have := ofLe_lt (bytes.take n)
      rw [whole] at this
      exact forall_mem_cons.mpr ⟨this, small⟩

end Evering.Word
