import Evering.Channel.Role
import Evering.Word.Bytes

/-!
# The bytes of a port and of a pool's name

Ports and pool names travel between processes as bytes. The format is the same for both pointer widths: words are
written as eight bytes, and reading one back fails when it does not fit the local word.
-/

namespace Evering.Wire

open Word List Option

variable (T : Target)

/-- `dir::Id` -/
@[ext] structure Id where
  high : BitVec 64
  low : BitVec 64
  slab : BitVec 32
  entry : BitVec 32
  generation : BitVec T.bits

/-- `channel::Port`: an `Id` with the capacity of the channel, and the role the port is for. -/
structure Port where
  inner : Id T
  capacity : BitVec T.bits
  part : Channel.Port T

def idBytes : Nat := 32

def portBytes : Nat := 49

/-- `usize::try_from` of a `u64` -/
def tryUsize (x : Nat) : Option (BitVec T.bits) :=
  if x < 2 ^ T.bits then some (BitVec.ofNat T.bits x) else none

def u64At (bytes : List UInt8) (offset : Nat) : Nat := ofLe (field bytes offset 8)

variable {T}

def Id.toBytes (id : Id T) : List UInt8 :=
  toLe 8 id.high.toNat ++ (toLe 8 id.low.toNat ++ (toLe 4 id.slab.toNat ++ (toLe 4 id.entry.toNat ++ toLe 8 id.generation.toNat)))

variable (T) in
def Id.fromBytes (bytes : List UInt8) : Option (Id T) :=
  if bytes.length ≠ idBytes then none
  else do
    let generation ← tryUsize T (u64At bytes 24)
    some {
      high := BitVec.ofNat 64 (u64At bytes 0)
      low := BitVec.ofNat 64 (u64At bytes 8)
      slab := BitVec.ofNat 32 (ofLe (field bytes 16 4))
      entry := BitVec.ofNat 32 (ofLe (field bytes 20 4))
      generation }

def Port.toBytes (port : Port T) : List UInt8 :=
  port.inner.toBytes ++ (toLe 8 port.capacity.toNat ++ ([UInt8.ofNat port.part.role] ++ toLe 8 port.part.generation))

variable (T) in
def Port.fromBytes (bytes : List UInt8) : Option (Port T) :=
  if bytes.length ≠ portBytes then none
  else do
    let inner ← Id.fromBytes T (bytes.take idBytes)
    let capacity ← tryUsize T (u64At bytes 32)
    let generation ← tryUsize T (u64At bytes 41)
    let part ← Channel.Port.fromParts T (bytes.getD 40 0).toNat generation.toNat
    some { inner, capacity, part }

/-- `PoolId`: the `Id` of a pool's storage. -/
structure PoolId (T : Target) where
  id : Id T

def PoolId.toBytes (pool : PoolId T) : List UInt8 := pool.id.toBytes

variable (T) in
def PoolId.fromBytes (bytes : List UInt8) : Option (PoolId T) := (Id.fromBytes T bytes).map PoolId.mk

/-! ### Words -/

theorem two_pow_bits_le : 2 ^ T.bits ≤ 256 ^ 8 := by
  rcases T.supported with bits | bits <;> rw [bits] <;> decide

theorem u64At_lt (bytes : List UInt8) (offset : Nat) (inside : offset + 8 ≤ bytes.length) : u64At bytes offset < 2 ^ 64 := by
  have := ofLe_lt (field bytes offset 8)
  rwa [length_field inside] at this

theorem u64At_take (bytes : List UInt8) {offset n : Nat} (inside : offset + 8 ≤ n) :
    u64At (bytes.take n) offset = u64At bytes offset := by
  rw [u64At, field, drop_take, take_take, Nat.min_eq_left (by omega), u64At, field]

variable {x role generation : Nat} {port : Port T}

theorem tryUsize_eq_some {word : BitVec T.bits} : tryUsize T x = some word ↔ word.toNat = x := by
  unfold tryUsize
  split
  case isTrue fits => rw [Option.some.injEq, ← BitVec.toNat_inj, BitVec.toNat_ofNat, Nat.mod_eq_of_lt fits, eq_comm]
  case isFalse large =>
    have := word.isLt
    simp only [reduceCtorEq, false_iff]
    omega

theorem tryUsize_isSome : (tryUsize T x).isSome ↔ x < 2 ^ T.bits := by
  unfold tryUsize
  split <;> simp_all

@[simp] theorem tryUsize_toNat (word : BitVec T.bits) : tryUsize T word.toNat = some word :=
  tryUsize_eq_some.mpr rfl

@[simp] theorem ofLe_toLe_usize (word : BitVec T.bits) : ofLe (toLe 8 word.toNat) = word.toNat :=
  ofLe_toLe (lt_of_lt_of_le word.isLt two_pow_bits_le)

/-! ### Names -/

@[simp] theorem Id.length_toBytes (id : Id T) : id.toBytes.length = idBytes := by
  simp [Id.toBytes, idBytes]

theorem Id.fromBytes_toBytes (id : Id T) : Id.fromBytes T id.toBytes = some id := by
  have high : ofLe (toLe 8 id.high.toNat) = id.high.toNat := ofLe_toLe id.high.isLt
  have low : ofLe (toLe 8 id.low.toNat) = id.low.toNat := ofLe_toLe id.low.isLt
  have slab : ofLe (toLe 4 id.slab.toNat) = id.slab.toNat := ofLe_toLe id.slab.isLt
  have entry : ofLe (toLe 4 id.entry.toNat) = id.entry.toNat := ofLe_toLe id.entry.isLt
  rw [Id.fromBytes, if_neg (not_not.mpr id.length_toBytes)]
  simp [Id.toBytes, u64At, field_append_left, field_append_right, field_all, high, low, slab, entry]

variable {bytes : List UInt8}

theorem Id.toBytes_fromBytes {id : Id T} (decoded : Id.fromBytes T bytes = some id) : id.toBytes = bytes := by
  unfold Id.fromBytes at decoded
  split at decoded
  case isTrue => cases decoded
  case isFalse length =>
    replace length : bytes.length = 32 := not_not.mp length
    obtain ⟨generation, word, built⟩ := bind_eq_some_iff.mp decoded
    cases built
    have fits (offset n : Nat) (inside : offset + n ≤ 32) : toLe n (ofLe (field bytes offset n)) = field bytes offset n :=
      toLe_ofLe (length_field (by omega))
    have small (offset : Nat) (inside : offset + 4 ≤ 32) : ofLe (field bytes offset 4) < 2 ^ 32 := by
      have := ofLe_lt (field bytes offset 4)
      rwa [length_field (by omega)] at this
    simp only [Id.toBytes, BitVec.toNat_ofNat, tryUsize_eq_some.mp word, Nat.mod_eq_of_lt (small 16 (by omega)),
      Nat.mod_eq_of_lt (small 20 (by omega)), Nat.mod_eq_of_lt (u64At_lt bytes 0 (by omega)),
      Nat.mod_eq_of_lt (u64At_lt bytes 8 (by omega))]
    simp only [u64At, fits 0 8 (by omega), fits 8 8 (by omega), fits 16 4 (by omega), fits 20 4 (by omega), fits 24 8 (by omega)]
    -- the fields follow each other
    conv_rhs => rw [← @drop_zero _ bytes, drop_eq_field bytes 0 8, drop_eq_field bytes _ 8, drop_eq_field bytes _ 4,
      drop_eq_field bytes _ 4, drop_eq_field bytes _ 8, drop_eq_nil_of_le (by omega), append_nil]

/-! ### Ports -/

theorem fromParts_eq_some {part : Channel.Port T} (built : Channel.Port.fromParts T role generation = some part) :
    part.role = role ∧ part.generation = generation := by
  unfold Channel.Port.fromParts at built
  split at built
  · cases built
  · cases built
    exact ⟨rfl, rfl⟩

@[simp] theorem fromParts_part (part : Channel.Port T) : Channel.Port.fromParts T part.role part.generation = some part := by
  have := part.role_lt
  have := part.generation_pos
  have := part.generation_le
  rw [Channel.Port.fromParts, dif_neg (by omega)]

theorem fromParts_isSome :
    (Channel.Port.fromParts T role generation).isSome ↔ role < 2 ∧ 1 ≤ generation ∧ generation ≤ Channel.maxGeneration T := by
  unfold Channel.Port.fromParts
  split <;> simp <;> omega

theorem maxGeneration_lt : Channel.maxGeneration T < 2 ^ T.bits :=
  lt_of_le_of_lt (Nat.shiftRight_le _ _) (Nat.sub_one_lt (Nat.two_pow_pos _).ne')

theorem Port.fromBytes_toBytes (port : Port T) : Port.fromBytes T port.toBytes = some port := by
  have generation := lt_of_le_of_lt port.part.generation_le maxGeneration_lt
  have word : ofLe (toLe 8 port.part.generation) = port.part.generation := ofLe_toLe (lt_of_lt_of_le generation two_pow_bits_le)
  have role : (UInt8.ofNat port.part.role).toNat = port.part.role := by
    have := port.part.role_lt
    rw [UInt8.toNat_ofNat']
    omega
  have length : port.toBytes.length = portBytes := by simp [Port.toBytes, idBytes, portBytes]
  have first : port.toBytes.take idBytes = port.inner.toBytes := take_left' port.inner.length_toBytes
  have capacity : u64At port.toBytes 32 = port.capacity.toNat := by
    simp [Port.toBytes, u64At, idBytes, field_append_left, field_append_right]
  have byte : (port.toBytes.getD 40 0).toNat = port.part.role := by
    simpa [Port.toBytes, idBytes, List.getElem?_append] using role
  have last : u64At port.toBytes 41 = port.part.generation := by
    have rest : field ([UInt8.ofNat port.part.role] ++ toLe 8 port.part.generation) 1 8 = toLe 8 port.part.generation :=
      field_all (length_toLe 8 _)
    simpa [Port.toBytes, u64At, idBytes, field_append_right, word] using congrArg ofLe rest
  have fits : tryUsize T port.part.generation = some (BitVec.ofNat T.bits port.part.generation) := if_pos generation
  simp [Port.fromBytes, -getD_eq_getElem?_getD, length, first, capacity, byte, last, fits, Id.fromBytes_toBytes,
    Nat.mod_eq_of_lt generation]

theorem Port.fromBytes_eq_some (decoded : Port.fromBytes T bytes = some port) :
    bytes.length = 49 ∧ Id.fromBytes T (bytes.take 32) = some port.inner ∧ port.capacity.toNat = u64At bytes 32 ∧
      port.part.role = (bytes.getD 40 0).toNat ∧ port.part.generation = u64At bytes 41 := by
  unfold Port.fromBytes at decoded
  split at decoded
  case isTrue => cases decoded
  case isFalse length =>
    obtain ⟨inner, name, decoded⟩ := bind_eq_some_iff.mp decoded
    obtain ⟨capacity, holds, decoded⟩ := bind_eq_some_iff.mp decoded
    obtain ⟨generation, word, decoded⟩ := bind_eq_some_iff.mp decoded
    obtain ⟨part, parts, built⟩ := bind_eq_some_iff.mp decoded
    cases built
    have ⟨role, same⟩ := fromParts_eq_some parts
    exact ⟨not_not.mp length, name, tryUsize_eq_some.mp holds, role, same.trans (tryUsize_eq_some.mp word)⟩

theorem Port.toBytes_fromBytes (decoded : Port.fromBytes T bytes = some port) : port.toBytes = bytes := by
  have ⟨length, name, capacity, role, generation⟩ := Port.fromBytes_eq_some decoded
  have byte : field bytes 40 1 = [bytes.getD 40 0] := by
    rw [field, drop_eq_getElem_cons (by omega), take_succ_cons, take_zero, getD_eq_getElem _ _ (by omega)]
  rw [Port.toBytes, Id.toBytes_fromBytes name, capacity, role, generation, UInt8.ofNat_toNat, ← byte, u64At, u64At,
    toLe_ofLe (length_field (by omega)), toLe_ofLe (length_field (by omega)), show bytes.take 32 = field bytes 0 32 from rfl]
  conv_rhs => rw [← @drop_zero _ bytes, drop_eq_field bytes 0 32, drop_eq_field bytes _ 8, drop_eq_field bytes _ 1,
    drop_eq_field bytes _ 8, drop_eq_nil_of_le (by omega), append_nil]

theorem Id.fromBytes_isSome : (Id.fromBytes T bytes).isSome ↔ bytes.length = idBytes ∧ u64At bytes 24 < 2 ^ T.bits := by
  unfold Id.fromBytes
  split
  case isTrue other => simp [other]
  case isFalse length => simp [not_not.mp length, isSome_bind, ← tryUsize_isSome]

/-- Port and pool names are canonical: what is written reads back, what is read writes back, and a port is read from every
byte string of its length with a role, a generation in range and words that fit. -/
theorem bytes_canonical (T : Target) :
    (∀ port : Port T, Port.fromBytes T port.toBytes = some port) ∧
    (∀ pool : PoolId T, PoolId.fromBytes T pool.toBytes = some pool) ∧
    (∀ bytes port, Port.fromBytes T bytes = some port → port.toBytes = bytes) ∧
    (∀ bytes pool, PoolId.fromBytes T bytes = some pool → pool.toBytes = bytes) ∧
    ∀ bytes, (Port.fromBytes T bytes).isSome ↔
      bytes.length = portBytes ∧ (bytes.getD 40 0).toNat < 2 ∧
      (1 ≤ u64At bytes 41 ∧ u64At bytes 41 ≤ Channel.maxGeneration T) ∧
      u64At bytes 24 < 2 ^ T.bits ∧ u64At bytes 32 < 2 ^ T.bits ∧ u64At bytes 41 < 2 ^ T.bits := by
  refine ⟨Port.fromBytes_toBytes, fun pool => ?_, fun _ _ => Port.toBytes_fromBytes, fun bytes pool decoded => ?_,
    fun bytes => ?_⟩
  · rw [PoolId.fromBytes, PoolId.toBytes, Id.fromBytes_toBytes, map_some]
  · obtain ⟨id, name, rfl⟩ := map_eq_some_iff.mp decoded
    exact Id.toBytes_fromBytes name
  · constructor
    · intro accepted
      obtain ⟨port, decoded⟩ := isSome_iff_exists.mp accepted
      have ⟨length, name, capacity, role, generation⟩ := Port.fromBytes_eq_some decoded
      have ⟨_, inner⟩ := Id.fromBytes_isSome.mp (isSome_of_eq_some name)
      rw [u64At_take bytes (by omega)] at inner
      rw [← role, ← generation, ← capacity]
      exact ⟨length, port.part.role_lt, ⟨port.part.generation_pos, port.part.generation_le⟩, inner, port.capacity.isLt,
        lt_of_le_of_lt port.part.generation_le maxGeneration_lt⟩
    · rintro ⟨length, role, range, inner, capacity, generation⟩
      rw [← u64At_take bytes (show 24 + 8 ≤ idBytes by decide)] at inner
      have short : (bytes.take idBytes).length = idBytes := by
        rw [length_take, length]
        decide
      obtain ⟨id, name⟩ := isSome_iff_exists.mp (Id.fromBytes_isSome.mpr ⟨short, inner⟩)
      obtain ⟨part, parts⟩ := isSome_iff_exists.mp (fromParts_isSome.mpr ⟨role, range⟩)
      have holds : tryUsize T (u64At bytes 32) = some _ := if_pos capacity
      have word : tryUsize T (u64At bytes 41) = some _ := if_pos generation
      simp [Port.fromBytes, -getD_eq_getElem?_getD, length, name, holds, word, Nat.mod_eq_of_lt generation, parts]

end Evering.Wire
