import Evering.Word.Bytes

/-!
# The frame of a hand-off

A process hands resources to another with one control message: a magic, the length of the bootstrap bytes and the number of
resources as two sixteen-bit numbers, then the bootstrap. Both systems use this frame; they differ in how the resources
themselves travel.
-/

namespace Evering.Handoff

open Word List

def maxBootstrap : Nat := 4096

def maxResources : Nat := 8

/-- `*b"EVR1"` -/
def handoffMagic : List UInt8 := [69, 86, 82, 49]

def header : Nat := 8

structure Bootstrap where
  bytes : List UInt8
  length_le : bytes.length ≤ maxBootstrap

structure TooLarge where
  len : Nat
  max : Nat

def Bootstrap.new (bytes : List UInt8) : Except TooLarge Bootstrap :=
  if large : bytes.length > maxBootstrap then .error { len := bytes.length, max := maxBootstrap }
  else .ok ⟨bytes, Nat.not_lt.mp large⟩

theorem Bootstrap.new_bytes (bootstrap : Bootstrap) : Bootstrap.new bootstrap.bytes = .ok bootstrap :=
  dif_neg (Nat.not_lt.mpr bootstrap.length_le)

theorem Bootstrap.bytes_of_new {bytes : List UInt8} {bootstrap : Bootstrap} (built : Bootstrap.new bytes = .ok bootstrap) :
    bootstrap.bytes = bytes := by
  unfold Bootstrap.new at built
  split at built <;> cases built
  rfl

inductive Errno
  | enobufs
  | other (code : Nat)
  deriving DecidableEq

inductive ErrorKind
  | invalidData
  | invalidInput
  | writeZero
  deriving DecidableEq

/-- `io::Error` -/
inductive Error
  | new (kind : ErrorKind) (message : String)
  | os (errno : Errno)
  deriving DecidableEq

def invalid (message : String) : Error := .new .invalidData message

theorem ite_error_eq_ok {α : Type} {c : Prop} [Decidable c] {error : Error} {rest : Except Error α} {value : α} :
    (if c then .error error else rest) = .ok value ↔ ¬ c ∧ rest = .ok value := by
  split <;> simp_all

/-- The header and the bootstrap, as both `send`s write them. -/
def frame (bootstrap : Bootstrap) (count : Nat) : List UInt8 :=
  handoffMagic ++ (toLe 2 bootstrap.bytes.length ++ (toLe 2 count ++ bootstrap.bytes))

/-- `u16::from_le_bytes([bytes[4], bytes[5]])` -/
def lenOf (bytes : List UInt8) : Nat := ofLe (field bytes 4 2)

/-- `u16::from_le_bytes([bytes[6], bytes[7]])` -/
def declaredOf (bytes : List UInt8) : Nat := ofLe (field bytes 6 2)

@[simp] theorem length_frame (bootstrap : Bootstrap) (count : Nat) :
    (frame bootstrap count).length = header + bootstrap.bytes.length := by
  simp [frame, handoffMagic, header]
  omega

theorem header_fill {bytes : List UInt8} (size : Nat) (inside : 8 ≤ bytes.length) : lenOf (fill size bytes) = lenOf bytes ∧
    declaredOf (fill size bytes) = declaredOf bytes ∧ (fill size bytes).take 4 = bytes.take 4 :=
  ⟨congrArg ofLe (field_fill size (by omega)), congrArg ofLe (field_fill size inside), @field_fill _ 0 4 size (by omega)⟩

theorem frame_reads (bootstrap : Bootstrap) {count : Nat} (few : count ≤ maxResources) (rest : List UInt8) :
    (frame bootstrap count ++ rest).take 4 = handoffMagic ∧ lenOf (frame bootstrap count ++ rest) = bootstrap.bytes.length ∧
      declaredOf (frame bootstrap count ++ rest) = count ∧
      field (frame bootstrap count ++ rest) header bootstrap.bytes.length = bootstrap.bytes := by
  have le := bootstrap.length_le
  have len : ofLe (toLe 2 bootstrap.bytes.length) = bootstrap.bytes.length := ofLe_toLe (Nat.lt_of_le_of_lt le (by decide))
  have counted : ofLe (toLe 2 count) = count := ofLe_toLe (Nat.lt_of_le_of_lt few (by decide))
  have magic : handoffMagic.length = 4 := rfl
  refine ⟨?_, ?_, ?_, ?_⟩
  · rw [frame, append_assoc, take_left' magic]
  · simp [lenOf, frame, field_append_right, field_append_left, magic, len]
  · simp [declaredOf, frame, field_append_right, field_append_left, magic, counted]
  · simp [header, frame, field_append_right, field_append_left, magic]

theorem eq_frame {bytes : List UInt8} (magic : bytes.take 4 = handoffMagic) (inside : header + lenOf bytes ≤ bytes.length)
    (bootstrap : Bootstrap) (same : bootstrap.bytes = field bytes header (lenOf bytes)) :
    bytes = frame bootstrap (declaredOf bytes) ++ bytes.drop (header + lenOf bytes) := by
  unfold header at inside same
  have len : bootstrap.bytes.length = lenOf bytes := by rw [same, length_field inside]
  rw [frame, len, same, ← magic, lenOf, declaredOf, toLe_ofLe (length_field (by omega)), toLe_ofLe (length_field (by omega))]
  simp only [append_assoc]
  rw [show bytes.take 4 = field bytes 0 4 from rfl]
  conv_lhs => rw [← @drop_zero _ bytes, drop_eq_field bytes 0 4, drop_eq_field bytes _ 2, drop_eq_field bytes _ 2,
    drop_eq_field bytes _ (lenOf bytes)]
  rfl

end Evering.Handoff
