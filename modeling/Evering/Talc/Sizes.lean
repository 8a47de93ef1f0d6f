import Evering.Talc.Bins

/-!
# Sizes and bins

Small sizes have bins of equal width; from a power of two on every octave is divided evenly. The larger of two sizes has the
larger bin, as long as the shift that finds the division of an octave loses no bit. `auto` chooses how fine the bins are within
a budget for the metadata, which it computes without the words of the bitmap rounded up.
-/

namespace Evering.Talc

open List Option

namespace Geometry

variable {T : Target} {G : Geometry} {extent s t : Nat}

/-! ### Larger sizes have larger bins -/

/-- The bin of a size before it is cut to the number of bins, with no bit lost -/
def index (G : Geometry) (size : Nat) : Nat :=
  if size < 2 ^ G.exponentialLog then (size - 1) / 2 ^ G.linearShift
  else G.linear + (size.log2 - G.exponentialLog) * G.divisions + (size - 2 ^ size.log2) * G.divisions / 2 ^ size.log2

theorem octave_bounds (pos : 0 < s) : 2 ^ s.log2 ≤ s ∧ s < 2 * 2 ^ s.log2 := by
  have ne : s ≠ 0 := by omega
  refine ⟨Nat.log2_self_le ne, ?_⟩
  rw [← Nat.pow_succ']
  exact Nat.lt_log2_self

/-- The shift that finds the division of an octave loses no bit. -/
def Kept (G : Geometry) (T : Target) (size : Nat) : Prop :=
  2 ^ G.exponentialLog ≤ size → (size - 2 ^ size.log2) * 2 ^ G.divisionsLog < 2 ^ T.bits

theorem kept_of_log2 (pos : 0 < s) (fits : s.log2 + G.divisionsLog ≤ T.bits) : G.Kept T s := by
  intro _
  have bounds := octave_bounds pos
  calc (s - 2 ^ s.log2) * 2 ^ G.divisionsLog
      < 2 ^ s.log2 * 2 ^ G.divisionsLog := Nat.mul_lt_mul_of_pos_right (by omega) (Nat.two_pow_pos _)
    _ = 2 ^ (s.log2 + G.divisionsLog) := (Nat.pow_add ..).symm
    _ ≤ 2 ^ T.bits := Nat.pow_le_pow_right (by decide) fits

theorem bin_eq (pos : 0 < s) (kept : G.Kept T s) : G.bin T s = min (G.index s) (G.bins - 1) := by
  unfold bin index divisions span
  rw [Nat.max_eq_left pos]
  simp only [Nat.shiftLeft_eq, Nat.shiftRight_eq_div_pow]
  by_cases small : s < 2 ^ G.exponentialLog
  · rw [if_pos small, if_pos small]
  · rw [if_neg small, if_neg small, Nat.mod_eq_of_lt (kept (Nat.le_of_not_lt small))]

theorem division_lt (pos : 0 < s) : (s - 2 ^ s.log2) * G.divisions / 2 ^ s.log2 < G.divisions := by
  have bounds := octave_bounds pos
  rw [Nat.div_lt_iff_lt_mul (Nat.two_pow_pos _), Nat.mul_comm G.divisions]
  exact Nat.mul_lt_mul_of_pos_right (by omega) (Nat.two_pow_pos _)

theorem log2_mono (pos : 0 < s) (le : s ≤ t) : s.log2 ≤ t.log2 :=
  (Nat.le_log2 (by omega)).mpr (Nat.le_trans (octave_bounds pos).1 le)

theorem index_mono (linear : G.linear = 2 ^ (G.exponentialLog - G.linearShift)) (shift : G.linearShift ≤ G.exponentialLog)
    (pos : 0 < s) (le : s ≤ t) : G.index s ≤ G.index t := by
  unfold index
  by_cases small : t < 2 ^ G.exponentialLog
  · rw [if_pos (by omega), if_pos small]
    exact Nat.div_le_div_right (by omega)
  rw [if_neg small]
  split
  · -- the bins of equal width come first
    rename_i small
    have inside : (s - 1) / 2 ^ G.linearShift < G.linear := by
      rw [linear, Nat.div_lt_iff_lt_mul (Nat.two_pow_pos _), ← Nat.pow_add, Nat.sub_add_cancel shift]
      omega
    rw [Nat.add_assoc]
    exact Nat.le_add_right_of_le (Nat.le_of_lt inside)
  · rcases Nat.lt_or_eq_of_le (log2_mono pos le) with before | same
    · -- an earlier octave ends before the later one begins
      have last := division_lt (G := G) pos
      have octaves : (s.log2 - G.exponentialLog) * G.divisions + G.divisions ≤ (t.log2 - G.exponentialLog) * G.divisions := by
        rw [← Nat.succ_mul]
        rename_i large
        have above : G.exponentialLog ≤ s.log2 := (Nat.le_log2 (by omega)).mpr (by omega)
        exact Nat.mul_le_mul_right _ (by omega)
      calc _ ≤ G.linear + (s.log2 - G.exponentialLog) * G.divisions + G.divisions :=
            Nat.add_le_add_left (Nat.le_of_lt last) _
        _ ≤ G.linear + (t.log2 - G.exponentialLog) * G.divisions := by
            rw [Nat.add_assoc]
            exact Nat.add_le_add_left octaves _
        _ ≤ _ := Nat.le_add_right ..
    · rw [same]
      have inner : (s - 2 ^ t.log2) * G.divisions / 2 ^ t.log2 ≤ (t - 2 ^ t.log2) * G.divisions / 2 ^ t.log2 :=
        Nat.div_le_div_right (Nat.mul_le_mul_right _ (by omega))
      exact Nat.add_le_add_left inner _

theorem shape_of_validate (valid : G.validate T extent = true) : 0 < G.bins ∧ G.linearShift ≤ G.exponentialLog ∧
    G.linear = 2 ^ (G.exponentialLog - G.linearShift) ∧ G.divisionsLog ≤ maxDivisionsLog := by
  unfold validate at valid
  simp only [Bool.and_eq_true, Bool.not_eq_true', Bool.or_eq_false_iff, decide_eq_false_iff_not, bne_eq_false_iff_eq,
    beq_eq_false_iff_ne, ne_eq] at valid
  obtain ⟨⟨⟨⟨first, second⟩, -⟩, -⟩, -⟩ := valid
  exact ⟨by omega, by omega, second.1, by omega⟩

theorem bin_le_bin_of_kept (valid : G.validate T extent = true) (pos : 1 ≤ s) (le : s ≤ t) (first : G.Kept T s)
    (second : G.Kept T t) : G.bin T s ≤ G.bin T t := by
  obtain ⟨-, shift, linear, -⟩ := shape_of_validate valid
  rw [bin_eq pos first, bin_eq (show 0 < t by omega) second]
  have mono := index_mono linear shift pos le
  omega

theorem bin_le_bin (valid : G.validate T extent = true) (pos : 1 ≤ s) (le : s ≤ t) (kept : t.log2 + G.divisionsLog ≤ T.bits) :
    G.bin T s ≤ G.bin T t := by
  have larger := log2_mono pos le
  exact bin_le_bin_of_kept valid pos le (kept_of_log2 pos (by omega)) (kept_of_log2 (show 0 < t by omega) kept)

/-- The first size of an octave whose shift leaves the word -/
def firstLost (G : Geometry) (T : Target) : Nat :=
  2 ^ max G.exponentialLog (T.bits - G.divisionsLog + 1) + 2 ^ (T.bits - G.divisionsLog)

theorem word_eq (small : G.divisionsLog ≤ maxDivisionsLog) :
    2 ^ T.bits = 2 ^ (T.bits - G.divisionsLog) * 2 ^ G.divisionsLog := by
  have := T.supported
  unfold maxDivisionsLog at small
  rw [← Nat.pow_add, Nat.sub_add_cancel (by omega)]

theorem kept_of_lt (small : G.divisionsLog ≤ maxDivisionsLog) (pos : 0 < s) (before : s < G.firstLost T) : G.Kept T s := by
  intro large
  by_contra lost
  have bounds := octave_bounds pos
  have above : G.exponentialLog ≤ s.log2 := (Nat.le_log2 (by omega)).mpr large
  rw [Nat.not_lt, word_eq small] at lost
  have far : 2 ^ (T.bits - G.divisionsLog) ≤ s - 2 ^ s.log2 := Nat.le_of_mul_le_mul_right lost (Nat.two_pow_pos _)
  have later : T.bits - G.divisionsLog < s.log2 := (Nat.pow_lt_pow_iff_right (a := 2) (by decide)).mp (by omega)
  have first : 2 ^ max G.exponentialLog (T.bits - G.divisionsLog + 1) ≤ 2 ^ s.log2 :=
    Nat.pow_le_pow_right (by decide) (by omega)
  unfold firstLost at before
  omega

theorem bins_of_validate (valid : G.validate T extent = true) : G.exponentialLog ≤ extent.log2 ∧
    (G.bins = 1 ∨ G.linear + (extent.log2 - G.exponentialLog + 1) * G.divisions ≤ G.bins) := by
  have ⟨_, shift, linear, _⟩ := shape_of_validate valid
  unfold validate at valid
  simp only [Bool.and_eq_true, Bool.not_eq_true', Bool.or_eq_false_iff, decide_eq_false_iff_not, bne_eq_false_iff_eq,
    Nat.not_lt] at valid
  obtain ⟨⟨⟨⟨-, -, enough⟩, log⟩, whole⟩, covered, -⟩ := valid
  refine ⟨log, ?_⟩
  obtain ⟨octaves, exponential⟩ := Nat.dvd_of_mod_eq_zero whole
  rw [exponential, Nat.mul_div_cancel_left _ (show 0 < G.divisions from Nat.two_pow_pos _)] at covered
  rw [Nat.mul_comm] at exponential
  rcases Nat.eq_zero_or_pos (G.exponentialLog + octaves) with none_ | some_
  · -- the subtraction wraps: without an octave there are the bins of equal width only
    obtain ⟨flat, rfl⟩ := Nat.add_eq_zero_iff.mp none_
    rw [flat, Nat.zero_sub, Nat.pow_zero] at linear enough
    exact .inl (by omega)
  · have last : extent.log2 ≤ G.exponentialLog + octaves - 1 := by
      rw [Nat.sub_add_comm some_, Nat.add_mod_right] at covered
      exact Nat.le_trans covered (Nat.mod_le ..)
    have := Nat.mul_le_mul_right G.divisions (show extent.log2 - G.exponentialLog + 1 ≤ octaves by omega)
    exact .inr (by omega)

theorem bin_drops_at (valid : G.validate T extent = true) (more : G.bins ≠ 1) (word : extent < 2 ^ T.bits)
    (lost : G.firstLost T ≤ extent) : G.bin T (G.firstLost T) < G.bin T (G.firstLost T - 1) := by
  obtain ⟨-, -, -, small⟩ := shape_of_validate valid
  obtain ⟨-, one | bins⟩ := bins_of_validate valid
  · exact absurd one more
  obtain ⟨octave, is_octave⟩ : ∃ octave, octave = max G.exponentialLog (T.bits - G.divisionsLog + 1) := ⟨_, rfl⟩
  have first : G.firstLost T = 2 ^ octave + 2 ^ (T.bits - G.divisionsLog) := by rw [is_octave]; rfl
  have supported := T.supported
  unfold maxDivisionsLog at small
  have far : 2 ^ (T.bits - G.divisionsLog) < 2 ^ octave := Nat.pow_lt_pow_right (by decide) (by omega)
  have pos : 0 < 2 ^ (T.bits - G.divisionsLog) := Nat.two_pow_pos _
  have log {x : Nat} (low : 2 ^ octave ≤ x) (high : x < 2 * 2 ^ octave) : x.log2 = octave :=
    (Nat.log2_eq_iff (by omega)).mpr ⟨low, by rwa [Nat.pow_succ']⟩
  have below : octave < T.bits := (Nat.pow_lt_pow_iff_right (a := 2) (by decide)).mp (by omega)
  have start : 2 ^ G.exponentialLog ≤ 2 ^ octave := Nat.pow_le_pow_right (by decide) (by omega)
  have last : octave ≤ extent.log2 := (Nat.le_log2 (by omega)).mpr (by omega)
  -- the shift of the first size is the span of the word, the one before keeps its bits
  have here : G.bin T (G.firstLost T) = min (G.linear + (octave - G.exponentialLog) * G.divisions) (G.bins - 1) := by
    have shifted : (G.firstLost T - 2 ^ octave) <<< G.divisionsLog % span T = 0 := by
      rw [first, Nat.add_sub_cancel_left, Nat.shiftLeft_eq, ← word_eq small]
      exact Nat.mod_self _
    unfold bin
    simp only [Nat.max_eq_left (show 1 ≤ G.firstLost T by omega), if_neg (show ¬G.firstLost T < 2 ^ G.exponentialLog by omega),
      log (x := G.firstLost T) (by omega) (by omega), shifted, Nat.zero_shiftRight, Nat.add_zero]
  have before : G.Kept T (G.firstLost T - 1) := kept_of_lt small (by omega) (by omega)
  rw [here, bin_eq (by omega) before]
  unfold index
  rw [if_neg (by omega), log (x := G.firstLost T - 1) (by omega) (by omega)]
  have division : 1 ≤ (G.firstLost T - 1 - 2 ^ octave) * G.divisions / 2 ^ octave := by
    rw [Nat.le_div_iff_mul_le (Nat.two_pow_pos _), Nat.one_mul,
      show G.firstLost T - 1 - 2 ^ octave = 2 ^ (T.bits - G.divisionsLog) - 1 by omega, Nat.sub_one_mul]
    show 2 ^ octave ≤ 2 ^ (T.bits - G.divisionsLog) * 2 ^ G.divisionsLog - 2 ^ G.divisionsLog
    rw [← word_eq small]
    have whole : 2 ^ (octave + 1) ≤ 2 ^ T.bits := Nat.pow_le_pow_right (by decide) below
    have few : 2 ^ G.divisionsLog ≤ 2 ^ octave := Nat.pow_le_pow_right (by decide) (by omega)
    rw [Nat.pow_succ] at whole
    omega
  have room : (octave - G.exponentialLog) * G.divisions + 2 ≤ (extent.log2 - G.exponentialLog + 1) * G.divisions := by
    have two : 2 ^ 1 ≤ G.divisions := Nat.pow_le_pow_right (by decide) (by omega)
    calc _ ≤ (octave - G.exponentialLog) * G.divisions + G.divisions := Nat.add_le_add_left two _
      _ = (octave - G.exponentialLog + 1) * G.divisions := (Nat.succ_mul ..).symm
      _ ≤ _ := Nat.mul_le_mul_right _ (by omega)
  omega

/-- **Larger sizes have larger bins**, in a geometry that is accepted for an extent, exactly if there is one bin only or the
extent ends before the first size whose shift leaves the word. -/
theorem bin_monotone (valid : G.validate T extent = true) (word : extent < 2 ^ T.bits) :
    (∀ s t, 1 ≤ s → s ≤ t → t ≤ extent → G.bin T s ≤ G.bin T t ∧ G.bin T t < G.bins) ↔
      G.bins = 1 ∨ extent < 2 ^ max G.exponentialLog (T.bits - G.divisionsLog + 1) + 2 ^ (T.bits - G.divisionsLog) := by
  obtain ⟨some_, -, -, small⟩ := shape_of_validate valid
  have inside (t : Nat) : G.bin T t < G.bins := Nat.lt_of_le_of_lt (Nat.min_le_right ..) (by omega)
  constructor
  · intro mono
    by_contra fails
    rw [not_or, Nat.not_lt] at fails
    have drops := bin_drops_at valid fails.1 word fails.2
    have pos : 0 < 2 ^ (T.bits - G.divisionsLog) := Nat.two_pow_pos _
    have pos' : 0 < 2 ^ max G.exponentialLog (T.bits - G.divisionsLog + 1) := Nat.two_pow_pos _
    have := (mono (G.firstLost T - 1) (G.firstLost T) (by unfold firstLost; omega) (Nat.sub_le ..) fails.2).1
    omega
  · rintro (one | before) s t pos le last
    · have := inside s
      have := inside t
      exact ⟨by omega, inside t⟩
    · exact ⟨bin_le_bin_of_kept valid pos le (kept_of_lt small pos (by unfold firstLost; omega))
        (kept_of_lt small (by omega) (by unfold firstLost; omega)), inside t⟩

/-- The automatic geometry of a heap of 512 MiB with addresses of 32 bits -/
theorem bin_monotone_narrow : (⟨224, 64, 4, 10, 3, 0⟩ : Geometry).bin ⟨32, .inl rfl⟩ 1000 ≤
    (⟨224, 64, 4, 10, 3, 0⟩ : Geometry).bin ⟨32, .inl rfl⟩ 0x20000000 ∧
    (⟨224, 64, 4, 10, 3, 0⟩ : Geometry).bin ⟨32, .inl rfl⟩ 0x20000000 < 224 :=
  (@bin_monotone _ _ 0x20000000 (by decide) (by decide)).mpr (by decide) _ _ (by decide) (by decide) (by decide)

/-- A heap of 2 GiB less one byte with addresses of 32 bits and its automatic geometry: the third quarter of the last octave
has the bin of the first. -/
theorem bin_drops : auto ⟨32, .inl rfl⟩ 0x7FFFFFFF = some ⟨232, 64, 4, 10, 3, 0⟩ ∧
    (⟨232, 64, 4, 10, 3, 0⟩ : Geometry).validate ⟨32, .inl rfl⟩ 0x7FFFFFFF = true ∧
    (⟨232, 64, 4, 10, 3, 0⟩ : Geometry).bin ⟨32, .inl rfl⟩ 0x5FFFFFFF = 227 ∧
    (⟨232, 64, 4, 10, 3, 0⟩ : Geometry).bin ⟨32, .inl rfl⟩ 0x60000000 = 224 := by
  decide

/-! ### The geometry of an extent -/

def wide : Target := ⟨64, Target.supported_64⟩

section Auto

variable {maxLog exponentialLog maxBins linearShift n : Nat}

theorem autoDivisions_some (h : autoDivisions maxLog exponentialLog maxBins linearShift n = some G) :
    ∃ d ≤ n, G = candidate maxLog exponentialLog linearShift d ∧ G.bins ≤ maxBins := by
  induction n with
  | zero =>
    unfold autoDivisions at h
    simp only [ite_none_right_eq_some, Option.some.injEq] at h
    obtain ⟨fits, rfl⟩ := h
    exact ⟨0, Nat.le_refl 0, rfl, fits⟩
  | succ n ih =>
    unfold autoDivisions at h
    simp only at h
    split at h
    · rename_i fits
      cases h
      exact ⟨n + 1, Nat.le_refl _, rfl, fits⟩
    · obtain ⟨d, le, same, fits⟩ := ih h
      exact ⟨d, Nat.le_succ_of_le le, same, fits⟩

theorem autoDivisions_isSome (fits : (candidate maxLog exponentialLog linearShift 0).bins ≤ maxBins) :
    (autoDivisions maxLog exponentialLog maxBins linearShift n).isSome = true := by
  induction n with
  | zero =>
    unfold autoDivisions
    simp only [if_pos fits, isSome_some]
  | succ n ih =>
    unfold autoDivisions
    simp only
    split
    · rfl
    · exact ih

theorem autoShifts_some (h : autoShifts maxLog exponentialLog maxBins n linearShift = some G) :
    ∃ s d, linearShift ≤ s ∧ s < linearShift + n ∧ d ≤ maxDivisionsLog ∧ G = candidate maxLog exponentialLog s d ∧
      G.bins ≤ maxBins := by
  induction n generalizing linearShift with
  | zero => cases h
  | succ n ih =>
    unfold autoShifts at h
    split at h
    · rename_i found
      cases h
      obtain ⟨d, le, same, fits⟩ := autoDivisions_some found
      exact ⟨linearShift, d, Nat.le_refl _, by omega, le, same, fits⟩
    · obtain ⟨s, d, low, high, le, same, fits⟩ := ih h
      exact ⟨s, d, by omega, by omega, le, same, fits⟩

theorem autoShifts_isSome (fits : (candidate maxLog exponentialLog (linearShift + n) 0).bins ≤ maxBins) :
    (autoShifts maxLog exponentialLog maxBins (n + 1) linearShift).isSome = true := by
  induction n generalizing linearShift with
  | zero =>
    rw [Nat.add_zero] at fits
    obtain ⟨G, found⟩ := isSome_iff_exists.mp (autoDivisions_isSome (n := maxDivisionsLog) fits)
    unfold autoShifts
    rw [found]
    rfl
  | succ n ih =>
    unfold autoShifts
    split
    · rfl
    · exact ih (by rwa [Nat.add_right_comm, Nat.add_assoc])

end Auto

section Budget

theorem budget_bounds (extent : Nat) : minMetadata ≤ budget extent ∧ budget extent ≤ maxMetadata ∧
    (extent / 1024 ≤ budget extent ∨ budget extent = maxMetadata) ∧
    (budget extent ≤ extent / 1024 ∨ budget extent = minMetadata) := by
  unfold budget minMetadata maxMetadata metadataRatioShift
  rw [Nat.shiftRight_eq_div_pow]
  simp only
  split
  · omega
  · split <;> omega

theorem metadataBytes_wide (G : Geometry) : G.metadataBytes wide = 16 * G.bins + (G.bins + 63) / 64 * 8 := by
  unfold metadataBytes availabilityWords wordBytes wide
  simp only
  omega

/-- A candidate whose bins are within the budget leaves room for chunks, so `validate` accepts it. -/
theorem candidate_validates {d : Nat} (least : 1024 ≤ extent) (lt : extent < 2 ^ 64) (high : s ≤ 10) (small : d ≤ 3)
    (fits : (candidate extent.log2 10 s d).bins ≤ budget extent * 8 / 129) :
    (candidate extent.log2 10 s d).validate wide extent = true := by
  have log : 10 ≤ extent.log2 := (Nat.le_log2 (by omega)).mpr least
  have log' : extent.log2 < 64 := (Nat.log2_lt (by omega)).mpr lt
  have budgets := budget_bounds extent
  unfold minMetadata maxMetadata at budgets
  have bytes := metadataBytes_wide (candidate extent.log2 10 s d)
  have bins : (candidate extent.log2 10 s d).bins = 2 ^ (10 - s) + (extent.log2 - 10 + 1) * 2 ^ d := rfl
  have linear : 0 < 2 ^ (10 - s) := Nat.two_pow_pos _
  have divisions : 0 < 2 ^ d := Nat.two_pow_pos _
  have octaves : (candidate extent.log2 10 s d).bins - (candidate extent.log2 10 s d).linear =
      (extent.log2 - 10 + 1) * 2 ^ d := Nat.add_sub_cancel_left ..
  have words : (candidate extent.log2 10 s d).availabilityWords wide.bits ≤ 64 := by
    show ((candidate extent.log2 10 s d).bins + 64 - 1) / 64 ≤ 64
    omega
  have room : (candidate extent.log2 10 s d).metadataBytes wide + 512 ≤ extent := by
    rw [bytes]
    omega
  have covered : (10 + (extent.log2 - 10 + 1) * 2 ^ d / 2 ^ d + span wide - 1) % span wide = extent.log2 := by
    rw [Nat.mul_div_cancel _ divisions]
    show (10 + (extent.log2 - 10 + 1) + 2 ^ 64 - 1) % 2 ^ 64 = _
    omega
  have positive : 0 < (candidate extent.log2 10 s d).bins := by
    rw [bins]
    omega
  have inside : (candidate extent.log2 10 s d).bin wide extent < (candidate extent.log2 10 s d).bins :=
    Sound.bin_lt ⟨positive, words⟩ extent
  have ten : 10 < 64 := by decide
  unfold validate
  simp only [octaves]
  simp only [Bool.and_eq_true, Bool.not_eq_true', Bool.or_eq_false_iff, decide_eq_false_iff_not, bne_eq_false_iff_eq,
    beq_eq_false_iff_ne, ne_eq, Nat.not_lt, ge_iff_le, Nat.not_le]
  refine ⟨⟨⟨⟨⟨⟨⟨⟨⟨⟨⟨⟨?_, rfl⟩, by omega⟩, ?_⟩, by exact high⟩, by exact ten⟩, small⟩, words⟩, room⟩, rfl, ?_⟩, log⟩, ?_⟩, ?_,
    inside⟩
  · show 32 ≤ extent
    omega
  · omega
  · show 2 ^ (10 - s) ≤ (candidate extent.log2 10 s d).bins
    rw [bins]
    omega
  · exact Nat.mul_mod_left ..
  · exact Nat.le_of_eq covered.symm

/-- The extents, in KiB, at which the bitmap, rounded up to whole words, exceeds the budget -/
def overBudget : List Nat :=
  [581, 582, 583, 678, 679, 839, 1210, 1211, 1212, 1213, 1214, 1215, 1387, 1388, 1389, 1390, 1391, 1742, 1743, 2580, 2581, 2582,
    2583]

/-- From 512 KiB to 4 MiB the choice uses up all bins it may have only with these numbers of bins. -/
theorem tight_bins : (∀ n < 64, 31 ≤ n ∧ (autoShifts 19 10 n 7 4).map (·.bins) = some n → n ∈ [36, 42, 52]) ∧
    (∀ n < 128, 63 ≤ n ∧ (autoShifts 20 10 n 7 4).map (·.bins) = some n → n ∈ [75, 86, 108]) ∧
    ∀ n < 254, 127 ≤ n ∧ (autoShifts 21 10 n 7 4).map (·.bins) = some n → n ∈ [160] := by
  decide +kernel

theorem metadataBytes_le_of_loose {b : Nat} (loose : G.bins < b * 8 / 129) : G.metadataBytes wide ≤ b := by
  rw [metadataBytes_wide]
  omega

/-- The choice of `auto`, which `validate` accepts -/
structure Chosen (extent s d : Nat) : Prop where
  low : 4 ≤ s
  high : s ≤ 10
  small : d ≤ maxDivisionsLog
  fits : (candidate extent.log2 10 s d).bins ≤ budget extent * 8 / 129
  first : autoShifts extent.log2 10 (budget extent * 8 / 129) 7 4 = some (candidate extent.log2 10 s d)
  auto : auto wide extent = some (candidate extent.log2 10 s d)
  valid : (candidate extent.log2 10 s d).validate wide extent = true

theorem exists_chosen (least : 1024 ≤ extent) (lt : extent < 2 ^ 64) : ∃ s d, Chosen extent s d := by
  have log : 10 ≤ extent.log2 := (Nat.le_log2 (by omega)).mpr least
  have log' : extent.log2 < 64 := (Nat.log2_lt (by omega)).mpr lt
  have octave := octave_bounds (show 0 < extent by omega)
  have budgets := budget_bounds extent
  unfold minMetadata maxMetadata at budgets
  have limit : min (min (budget extent * 8 / canonicalBinBits) (wide.bits * wide.bits)) (2 ^ 16 - 1) =
    budget extent * 8 / 129 := by
    show min (min (budget extent * 8 / 129) (64 * 64)) (2 ^ 16 - 1) = _
    omega
  have coarsest : (candidate extent.log2 10 (4 + 6) 0).bins ≤ budget extent * 8 / 129 := by
    show 2 ^ 0 + (extent.log2 - 10 + 1) * 2 ^ 0 ≤ _
    by_cases large : 20 ≤ extent.log2
    · have : 2 ^ 20 ≤ extent := Nat.le_trans (Nat.pow_le_pow_right (by decide) large) octave.1
      omega
    · omega
  obtain ⟨g, chosen⟩ := isSome_iff_exists.mp (autoShifts_isSome coarsest)
  obtain ⟨s, d, low, high, small, rfl, fits⟩ := autoShifts_some chosen
  have valid := candidate_validates least lt (by omega) small fits
  refine ⟨s, d, low, by omega, small, fits, chosen, ?_, valid⟩
  have enough : ¬extent < minChunkSize wide := by
    show ¬extent < 32
    omega
  have ten : min extent.log2 defaultExponentialLog = 10 := Nat.min_eq_right log
  unfold Geometry.auto
  simp only [if_neg enough, limit, ten]
  show Option.filter _ (autoShifts extent.log2 10 (budget extent * 8 / 129) 7 4) = _
  rw [chosen]
  exact if_pos valid

theorem Chosen.within_budget {d : Nat} (least : 1024 ≤ extent) (lt : extent < 2 ^ 64) (chosen : Chosen extent s d)
    (spare : extent / 1024 ∉ overBudget) : (candidate extent.log2 10 s d).metadataBytes wide ≤ budget extent := by
  have log' : extent.log2 < 64 := (Nat.log2_lt (by omega)).mpr lt
  have octave := octave_bounds (show 0 < extent by omega)
  have budgets := budget_bounds extent
  unfold minMetadata maxMetadata at budgets
  have above {k : Nat} (le : k ≤ extent.log2) : 2 ^ k ≤ extent := Nat.le_trans (Nat.pow_le_pow_right (by decide) le) octave.1
  have below {k : Nat} (le : extent.log2 < k) : extent < 2 ^ k := (Nat.log2_lt (by omega)).mp le
  have fits := chosen.fits
  have bins : (candidate extent.log2 10 s d).bins = 2 ^ (10 - s) + (extent.log2 - 10 + 1) * 2 ^ d := rfl
  have linear : 2 ^ (10 - s) ≤ 64 :=
    Nat.pow_le_pow_right (n := 2) (by decide) (show 10 - s ≤ 6 by have := chosen.low; omega)
  have divisions : (extent.log2 - 10 + 1) * 2 ^ d ≤ (extent.log2 - 10 + 1) * 8 :=
    Nat.mul_le_mul_left _ (Nat.pow_le_pow_right (n := 2) (by decide) chosen.small)
  by_cases early : extent.log2 < 19
  · have := below early
    rw [metadataBytes_wide]
    omega
  by_cases late : 22 ≤ extent.log2
  · have := above late
    rw [metadataBytes_wide]
    by_cases latest : 24 ≤ extent.log2
    · have := above latest
      omega
    · omega
  rcases Nat.lt_or_eq_of_le fits with loose | tight
  · exact metadataBytes_le_of_loose loose
  have := above (Nat.le_of_not_lt early)
  have := below (Nat.lt_of_not_le late)
  have exact_ : budget extent = extent / 1024 := by omega
  have choice : (autoShifts extent.log2 10 (budget extent * 8 / 129) 7 4).map (·.bins) = some (budget extent * 8 / 129) := by
    rw [chosen.first, ← tight]
    rfl
  have listed : budget extent * 8 / 129 ∈ [36, 42, 52, 75, 86, 108, 160] := by
    obtain log | log | log : extent.log2 = 19 ∨ extent.log2 = 20 ∨ extent.log2 = 21 := by omega
    all_goals rw [log] at choice octave
    · have := tight_bins.1 _ (by omega) ⟨by omega, choice⟩
      simp only [mem_cons, not_mem_nil, or_false] at this ⊢
      omega
    · have := tight_bins.2.1 _ (by omega) ⟨by omega, choice⟩
      simp only [mem_cons, not_mem_nil, or_false] at this ⊢
      omega
    · have := tight_bins.2.2 _ (by omega) ⟨by omega, choice⟩
      simp only [mem_cons, not_mem_nil, or_false] at this ⊢
      omega
  unfold overBudget at spare
  simp only [mem_cons, not_mem_nil, or_false, not_or] at listed spare
  rw [metadataBytes_wide]
  omega

theorem log2_kib (least : 1024 ≤ extent) : extent.log2 = (extent / 1024).log2 + 10 := by
  have octave := octave_bounds (show 0 < extent / 1024 by omega)
  rw [Nat.log2_eq_iff (by omega), Nat.pow_add, Nat.pow_add, Nat.pow_add]
  omega

theorem overBudget_exceeds : ∀ kib ∈ overBudget, budget (kib * 1024) = kib ∧
    ((autoShifts (kib.log2 + 10) 10 (kib * 8 / 129) 7 4).map (metadataBytes wide)).any (kib < ·) = true := by
  decide +kernel

theorem Chosen.exceeds {d : Nat} (least : 1024 ≤ extent) (chosen : Chosen extent s d) (listed : extent / 1024 ∈ overBudget) :
    budget extent < (candidate extent.log2 10 s d).metadataBytes wide := by
  obtain ⟨same, exceeds⟩ := overBudget_exceeds _ listed
  have floor : budget extent = budget (extent / 1024 * 1024) := by
    unfold budget metadataRatioShift
    simp only [Nat.shiftRight_eq_div_pow]
    rw [show (2 : Nat) ^ 10 = 1024 from rfl, Nat.mul_div_cancel _ (by decide : 0 < 1024)]
  rw [same] at floor
  rw [← log2_kib least, ← floor, chosen.first] at exceeds
  simpa using exceeds

/-- **The automatic geometry** is accepted by `validate`, and its metadata are within the budget exactly for the extents that are
not listed: at those a choice without a bin to spare has a bitmap that does not fill its last word. -/
theorem auto_within_budget (least : 1024 ≤ extent) (lt : extent < 2 ^ 64) : ∃ g, auto wide extent = some g ∧
    g.validate wide extent = true ∧ (g.metadataBytes wide ≤ budget extent ↔ extent / 1024 ∉ overBudget) := by
  obtain ⟨s, d, chosen⟩ := exists_chosen least lt
  refine ⟨_, chosen.auto, chosen.valid, fun within listed => ?_, chosen.within_budget least lt⟩
  exact absurd (chosen.exceeds least listed) (Nat.not_lt.mpr within)

theorem auto_within_budget_mebibyte : ∃ g, auto wide 0x100000 = some g ∧ g.validate wide 0x100000 = true ∧
    g.metadataBytes wide ≤ 1024 := by
  obtain ⟨g, chosen, valid, within⟩ := @auto_within_budget 0x100000 (by decide) (by decide)
  exact ⟨g, chosen, valid, within.mpr (by decide)⟩

/-- 1210 KiB: 75 bins are chosen, which take 1200 bytes and two words of the bitmap; the budget is 1210 bytes. -/
theorem auto_over_budget : 1024 ≤ 1239040 ∧ auto wide 1239040 = some ⟨75, 64, 4, 10, 0, 0⟩ ∧
    (⟨75, 64, 4, 10, 0, 0⟩ : Geometry).metadataBytes wide = 1216 ∧ budget 1239040 = 1210 := by
  decide

end Budget

end Geometry

end Evering.Talc
