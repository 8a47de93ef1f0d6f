import Evering.Session.Open
import Evering.Talc.Claim
import Evering.Talc.Sizes

/-!
# Constructing a session

Where `create_with` can stop with a panic: at the assertion of `with_bound`, and in a debug build at arithmetic that leaves
the word. The header reservations use checked operations; the geometry of the heap and its claim do not.
-/

namespace Evering.Talc

namespace Geometry

/-- `Geometry::new` -/
def new (T : Target) (extent linearShift exponentialLog divisionsLog : Nat) : Option Geometry :=
  if extent < minChunkSize T ∨ linearShift > exponentialLog ∨ exponentialLog ≥ T.bits ∨ exponentialLog > extent.log2 ∨
      divisionsLog > maxDivisionsLog then none
  else
    let geometry := candidate extent.log2 exponentialLog linearShift divisionsLog
    if geometry.bins > 2 ^ 16 - 1 then none else if geometry.validate T extent then some geometry else none

/-- The geometry that `auto` validates -/
def tried (T : Target) (extent : Nat) : Option Geometry :=
  let exponentialLog := min extent.log2 defaultExponentialLog
  let maxBins := min (min (budget extent * 8 / canonicalBinBits) (T.bits * T.bits)) (2 ^ 16 - 1)
  let linearShift := min minLinearShift exponentialLog
  autoShifts extent.log2 exponentialLog maxBins (exponentialLog + 1 - linearShift) linearShift

/-- The fields are private: a geometry is built by `new` or by `auto`, for whatever extent. -/
def Built (T : Target) (G : Geometry) : Prop :=
  ∃ extent < span T, tried T extent = some G ∨ ∃ linearShift exponentialLog divisionsLog,
    new T extent linearShift exponentialLog divisionsLog = some G

/-- Nothing that `validate` and `bin` compute leaves the word. -/
structure Calm (T : Target) (G : Geometry) : Prop where
  shifts : G.linearShift ≤ G.exponentialLog ∧ G.exponentialLog < T.bits ∧ G.divisionsLog < T.bits
  exponential : G.linear ≤ G.bins
  covered : 1 ≤ G.exponentialLog + (G.bins - G.linear) / G.divisions
  metadata : G.metadataBytes T + minMetadata < span T
  index : G.linear + T.bits * G.divisions + G.divisions < span T

variable {T : Target} {G : Geometry}

theorem metadataBytes_le (few : G.bins ≤ 2 ^ 16 - 1) : G.metadataBytes T ≤ 2 ^ 21 := by
  have w := bits_eq T
  have words : G.availabilityWords T.bits ≤ 2 ^ 16 := by
    refine Nat.div_le_of_le_mul ?_
    have := Nat.mul_le_mul_right (2 ^ 16) (show 32 ≤ T.bits by omega)
    omega
  have bins := Nat.mul_le_mul few (show 2 * wordBytes T ≤ 16 by omega)
  have avails := Nat.mul_le_mul words (show wordBytes T ≤ 8 by omega)
  unfold metadataBytes
  omega

theorem calm_candidate {maxLog exponentialLog linearShift divisionsLog : Nat} (low : linearShift ≤ exponentialLog)
    (high : exponentialLog ≤ maxLog) (lt : maxLog < T.bits) (small : divisionsLog ≤ maxDivisionsLog)
    (few : (candidate maxLog exponentialLog linearShift divisionsLog).bins ≤ 2 ^ 16 - 1) :
    (candidate maxLog exponentialLog linearShift divisionsLog).Calm T := by
  have w := bits_eq T
  have large : 2 ^ 32 ≤ span T := Nat.pow_le_pow_right (by decide) (by omega)
  have metadata := metadataBytes_le (T := T) few
  have divisions : 2 ^ divisionsLog ≤ 8 := Nat.pow_le_pow_right (n := 2) (by decide) small
  have product := Nat.mul_le_mul (show T.bits ≤ 64 by omega) divisions
  simp only [maxDivisionsLog] at small
  refine ⟨⟨low, by simp only [candidate]; omega, by simp only [candidate]; omega⟩, Nat.le_add_right .., ?_, ?_, ?_⟩
  · simp only [candidate, Geometry.divisions, Nat.add_sub_cancel_left]
    rw [Nat.mul_div_cancel _ (Nat.two_pow_pos _)]
    omega
  · simp only [minMetadata]
    omega
  · simp only [candidate, Geometry.divisions] at few ⊢
    omega

theorem Built.calm (built : G.Built T) : G.Calm T := by
  obtain ⟨extent, lt, made⟩ := built
  have log : extent.log2 < T.bits := by
    by_cases zero : extent = 0
    · have := bits_eq T
      rw [zero, Nat.log2_zero]
      omega
    · exact (Nat.log2_lt zero).mpr lt
  rcases made with auto | ⟨linearShift, exponentialLog, divisionsLog, made⟩
  · obtain ⟨s, d, -, high, small, rfl, few⟩ := autoShifts_some auto
    exact calm_candidate (by omega) (Nat.min_le_left ..) log small (few.trans (Nat.min_le_right ..))
  · unfold new at made
    split at made
    · cases made
    · simp only [Option.ite_none_left_eq_some, Option.ite_none_right_eq_some, Option.some.injEq] at made
      obtain ⟨few, -, rfl⟩ := made
      exact calm_candidate (by omega) (by omega) log (by omega) (by omega)

end Geometry

end Evering.Talc

namespace Evering.Session.Opening

open Interleave Header

variable {S : Sizes}

/-- Nothing that the geometry of the heap and its claim compute leaves the word. -/
structure Calm (M : Map S.target) (options : Option Talc.Geometry) : Prop where
  geometry : ∀ G, options = some G ∨ Talc.Geometry.tried S.target (heapBytes S M.size) = some G → G.Calm S.target
  /-- the pointers, up to the end of the claimed memory -/
  claim : heapEnd S < M.size →
    M.base + place S.heap (dirEnd S) + S.inner + 4 * Talc.wordBytes S.target + heapBytes S M.size < 2 ^ S.target.bits
  /-- what is subtracted from the size after it was compared with the metadata -/
  rest : ∀ (G : Talc.Geometry) st p size, G.metadataBytes S.target + 2 * Talc.wordBytes S.target ≤ size →
    (Talc.claimMetadata S.target G st (p + Talc.wordBytes S.target)).2 + Talc.wordBytes S.target - p ≤ size

variable {M : Map S.target} {region : Nat} {options : Option Talc.Geometry} {join : Option Nat}

theorem reserve_ne_assertion {header : HeaderSize S.target} {offset : Nat} : reserve M header offset ≠ .error .assertion := by
  unfold reserve
  dsimp only
  split_ifs <;> nofun

theorem createWith_asserts (stops : (createWith M region options join (.zero S)).2 = .error .assertion) :
    join.isSome = true ∧ M.size = heapEnd S := by
  unfold createWith admitSession at stops
  rcases first : reserve M S.root 0 with error | ⟨offset₁, next₁⟩
  · simp only [first] at stops
    cases stops
    exact (reserve_ne_assertion first).elim
  obtain ⟨rfl, end₁, le₁⟩ := (reserve_eq_ok (Nat.zero_le _)).mp first
  obtain rfl : next₁ = rootEnd S := end₁
  simp only [first] at stops
  split at stops
  · cases stops
  split at stops
  · cases stops
  refine ⟨rfl, ?_⟩
  rcases second : reserve M S.dir (rootEnd S) with error | ⟨offset₂, next₂⟩
  · simp only [second] at stops
    cases stops
    exact (reserve_ne_assertion second).elim
  obtain ⟨rfl, end₂, le₂⟩ := (reserve_eq_ok le₁).mp second
  obtain rfl : next₂ = dirEnd S := end₂
  simp only [second] at stops
  split at stops
  · cases stops
  rcases third : reserve M S.heap (dirEnd S) with error | ⟨offset₃, next₃⟩
  · simp only [third] at stops
    cases stops
    exact (reserve_ne_assertion third).elim
  obtain ⟨rfl, end₃, le₃⟩ := (reserve_eq_ok le₂).mp third
  obtain rfl : next₃ = heapEnd S := end₃
  simp only [third] at stops
  split at stops
  · omega
  · split at stops <;> cases stops

/-- On a zeroed region the root and the directory are admitted. -/
theorem plain_admitted {target : Target} (header : HeaderSize target) (magic : Nat) (slot : Option Nat)
    (region offset address : Nat) : ∃ s, (admitHeader (L := plain target header magic) slot ()
      ⟨region, offset, true⟩ address 2).solo
      (fun _ => 0) 0 (.init _) = (s, .ok ()) := by
  cases slot <;> exact ⟨_, rfl⟩

theorem createWith_asserts_at {slot : Nat} (ends : M.size = heapEnd S) :
    (createWith M region options (some slot) (.zero S)).2 = .error .assertion := by
  have le₃ : dirEnd S ≤ heapEnd S := Nat.le_trans (le_place S.heap _) (Nat.le_add_right ..)
  have le₂ : rootEnd S ≤ dirEnd S := Nat.le_trans (le_place S.dir _) (Nat.le_add_right ..)
  have first : reserve M S.root 0 = .ok (_, rootEnd S) := (reserve_eq_ok (Nat.zero_le _)).mpr ⟨rfl, rfl, by omega⟩
  have second : reserve M S.dir (rootEnd S) = .ok (_, dirEnd S) := (reserve_eq_ok (by omega)).mpr ⟨rfl, rfl, by omega⟩
  have third : reserve M S.heap (dirEnd S) = .ok (_, heapEnd S) := (reserve_eq_ok (by omega)).mpr ⟨rfl, rfl, by omega⟩
  obtain ⟨root, admitted⟩ := plain_admitted S.root 0xABCD none region (place S.root 0) (M.base + place S.root 0)
  obtain ⟨dir, admitted'⟩ := plain_admitted S.dir 0xD1EC (some slot) region (place S.dir (rootEnd S))
    (M.base + place S.dir (rootEnd S))
  unfold createWith admitSession Heads.zero
  simp only [first, second, third, admitted, admitted', if_pos (show M.size - heapEnd S = 0 by omega)]

theorem calm_of_built (inside : S.inner + 3 * Talc.wordBytes S.target ≤ S.heap.size)
    (built : ∀ G, options = some G → G.Built S.target) : Calm M options := by
  refine ⟨?_, ?_, ?_⟩
  · rintro G (given | auto)
    · exact (built G given).calm
    · refine Talc.Geometry.Built.calm ⟨heapBytes S M.size, ?_, .inl auto⟩
      have room := M.room
      have large : 0 < pageSize := by decide
      refine Nat.lt_of_le_of_lt (Nat.min_le_left ..) ?_
      unfold Talc.span
      omega
  · intro fits
    have room := M.room
    have word := Talc.bits_eq S.target
    have large : 8 < pageSize := by decide
    unfold heapBytes
    unfold heapEnd at fits ⊢
    omega
  · intro G st p size fits
    rw [Talc.metadataBytes_eq] at fits
    simp only [Talc.claimMetadata]
    omega

/-- **No panic.** `create_with` returns and nothing that it computes leaves the word, whatever geometry the options have,
exactly if the mapping does not end with the header of the heap or the root has no slot to join. -/
theorem create_never_panics (S : Sizes) (M : Map S.target) (inside : S.inner + 3 * Talc.wordBytes S.target ≤ S.heap.size)
    (region : Nat) (options : Option Talc.Geometry) (built : ∀ G, options = some G → G.Built S.target) (join : Option Nat) :
    ((createWith M region options join (.zero S)).2 ≠ .error .assertion ∧ Calm M options) ↔
      (join.isSome = true → M.size ≠ heapEnd S) := by
  constructor
  · rintro ⟨returns, -⟩ joined ends
    obtain ⟨slot, rfl⟩ := Option.isSome_iff_exists.mp joined
    exact returns (createWith_asserts_at ends)
  · intro spare
    refine ⟨fun stops => ?_, calm_of_built inside built⟩
    obtain ⟨joined, ends⟩ := createWith_asserts stops
    exact spare joined ends

/-- A mapping one byte longer than the headers -/
theorem create_never_panics_short : (createWith (S := pageHeaders) ⟨0x100000, 1537, by decide, by decide⟩ 7 none (some 0)
    (.zero _)).2 ≠
    .error .assertion :=
  ((create_never_panics pageHeaders ⟨0x100000, 1537, by decide, by decide⟩ (by decide) 7 none nofun (some 0)).mpr (by decide)).1

/-- A mapping that ends with the headers -/
theorem create_panics : (createWith (S := pageHeaders) ⟨0x100000, 1536, by decide, by decide⟩ 7 none (some 0) (.zero _)).2 =
    .error .assertion := by
  decide +kernel

end Evering.Session.Opening
