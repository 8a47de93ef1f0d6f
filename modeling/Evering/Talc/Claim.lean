import Evering.Talc.Operations

/-!
# Claiming

`claim` writes the metadata and makes one free chunk of the rest. What the metadata says of one free chunk is written out
in `Single`; a heap without blocks is of this form.
-/

namespace Evering.Talc

open Memory Function List

variable {V : Mapping} {T : Target} {G : Geometry} {st : TalcMeta} {F : Nat → Option Nat} {lists : Nat → List Nat}
  {p n i j o : Nat} {m : Words} {segs : List Seg}

/-! ### Empty metadata -/

theorem zeroWords_self (T : Target) (m : Words) (p : Nat) (lt : j < n) : zeroWords T m p n (p + j * wordBytes T) = 0 := by
  have w := bits_eq T
  induction n with
  | zero => cases lt
  | succ n ih =>
    unfold zeroWords
    by_cases last : j = n
    · rw [last, update_self]
    · rw [update_of_ne, ih (by omega)]
      intro same
      exact last (Nat.eq_of_mul_eq_mul_right (by omega : 0 < wordBytes T) (by omega))

theorem emptySlots_self (T : Target) (m : Words) (p : Nat) (lt : j < n) :
    emptySlots T m p n (p + j * (2 * wordBytes T)) = 0 := by
  have w := bits_eq T
  induction n with
  | zero => cases lt
  | succ n ih =>
    rw [emptySlots, writeLink]
    by_cases last : j = n
    · rw [last, update_self]
    · rw [update_of_ne, ih (by omega)]
      intro same
      exact last (Nat.eq_of_mul_eq_mul_right (by omega : 0 < 2 * wordBytes T) (by omega))

theorem emptySlots_below (T : Target) (m : Words) (lt : o < p) : emptySlots T m p n o = m o := by
  induction n with
  | zero => rfl
  | succ n ih =>
    rw [emptySlots, writeLink]
    rw [update_of_ne (by omega), ih]

theorem Geometry.validate_sound {extent : Nat} (valid : G.validate T extent = true) :
    G.Sound T ∧ G.metadataBytes T + minMetadata ≤ extent := by
  unfold validate at valid
  simp only [Bool.and_eq_true, Bool.not_eq_true', Bool.or_eq_false_iff, decide_eq_false_iff_not, beq_eq_false_iff_ne,
    ne_eq, Nat.not_lt] at valid
  obtain ⟨⟨⟨⟨⟨⟨⟨⟨⟨⟨⟨⟨-, -⟩, bins⟩, -⟩, -⟩, -⟩, -⟩, words⟩, room⟩, -⟩, -⟩, -⟩, -⟩ := valid
  exact ⟨⟨Nat.pos_of_ne_zero bins, by omega⟩, by omega⟩

theorem Config.validated_validate {conf : Config} (valid : conf.validated T = some G) : G.validate T conf.size = true := by
  unfold validated at valid
  split at valid
  · split at valid
    · rename_i ok
      cases valid
      exact ok
    · cases valid
  · unfold Geometry.auto at valid
    split at valid
    · cases valid
    · exact (Option.filter_eq_some_iff.mp valid).2

/-! ### The heap after a claim -/

def Config.start (T : Target) (conf : Config) : Nat := roundUp T (3 * wordBytes T + conf.forward)

def Config.limit (T : Target) (conf : Config) : Nat := conf.start T + conf.size / wordBytes T * wordBytes T

def Config.first (T : Target) (G : Geometry) (conf : Config) : Nat := conf.start T + G.metadataBytes T + 2 * wordBytes T

/-- The heap has no blocks: the metadata and one free chunk. -/
def claimed (T : Target) (G : Geometry) (conf : Config) : List Seg :=
  [⟨conf.start T, conf.first T G - conf.start T, .pinned⟩, ⟨conf.first T G, conf.limit T - conf.first T G, .free⟩]

theorem metadataBytes_eq (T : Target) (G : Geometry) : G.metadataBytes T =
    G.bins * (2 * wordBytes T) + G.availabilityWords T.bits * wordBytes T := rfl

theorem claimMetadata_binned (st : TalcMeta) (summary : st.summary = 0) (p : Nat) :
    Binned T G (claimMetadata T G st p).1 (fun _ => none) fun _ => [] := by
  have w := bits_eq T
  unfold claimMetadata
  refine ⟨Nat.le_refl _, nofun, nofun, nofun, ?_, fun _ => nodup_nil, ?_, nofun, nofun, ?_⟩
  · intro i lt
    exact if_pos (emptySlots_self T _ _ lt)
  · intro i b lt
    simp
  · have word : ∀ {j}, j < G.availabilityWords T.bits →
        emptySlots T (zeroWords T st.mem p (G.availabilityWords T.bits)) (p + G.availabilityWords T.bits * wordBytes T)
          G.bins (p + j * wordBytes T) = 0 := by
      intro j lt
      have := Nat.mul_le_mul_right (wordBytes T) (Nat.succ_le_of_lt lt)
      rw [Nat.succ_mul] at this
      rw [emptySlots_below T _ (by omega)]
      exact zeroWords_self T _ _ lt
    constructor
    · intro j i hj hi
      show Nat.testBit (emptySlots ..) i = true ↔ _
      unfold TalcMeta.availPtr
      rw [word hj]
      simp
    · intro j hj
      show emptySlots .. < _
      unfold TalcMeta.availPtr
      rw [word hj]
      exact Nat.two_pow_pos _
    · intro j
      rw [summary]
      simp only [Nat.zero_testBit, Bool.false_eq_true, false_iff, not_and]
      intro hj
      exact fun nonzero => nonzero (word hj)

theorem Config.words (T : Target) (G : Geometry) (conf : Config) :
    conf.start T % wordBytes T = 0 ∧ conf.first T G % wordBytes T = 0 ∧ conf.limit T % wordBytes T = 0 := by
  have start : conf.start T % wordBytes T = 0 := Nat.mul_mod_left ..
  have bytes : G.metadataBytes T % wordBytes T = 0 := by
    rw [metadataBytes_eq, ← Nat.mul_assoc, ← Nat.add_mul]
    exact Nat.mul_mod_left ..
  refine ⟨start, ?_, ?_⟩
  · rw [Config.first, Nat.add_mod, Nat.mul_mod_left, Nat.add_mod (conf.start T), start, bytes]
    simp
  · rw [Config.limit, Nat.add_mod, start, Nat.mul_mod_left]
    simp

theorem claim_eq {conf : Config} (accepted : claim V (.null V.target m) conf = some st)
    (maps : V.Maps (conf.limit V.target)) : ∃ G st₀, conf.validated V.target = some G ∧ G.Sound V.target ∧
      conf.first V.target G + 4 * wordBytes V.target ≤ conf.limit V.target ∧ st₀.summary = 0 ∧
      st = ((claimMetadata V.target G st₀ (conf.start V.target + wordBytes V.target)).1.insertFree V.target G
        (conf.first V.target G) (conf.limit V.target - conf.first V.target G)).write
        (conf.first V.target G - wordBytes V.target) (Tag.new (conf.start V.target) true) := by
  have w := bits_eq V.target
  unfold claim at accepted
  simp only at accepted
  rcases valid : conf.validated V.target with _ | G
  · rw [valid] at accepted
    cases accepted
  rw [valid] at accepted
  obtain ⟨sound, room⟩ := Geometry.validate_sound (Config.validated_validate valid)
  have size : conf.size < conf.size / wordBytes V.target * wordBytes V.target + wordBytes V.target := by
    have := Nat.div_add_mod conf.size (wordBytes V.target)
    have := Nat.mod_lt conf.size (show 0 < wordBytes V.target by omega)
    rw [Nat.mul_comm]
    omega
  have bytes := metadataBytes_eq V.target G
  have inside := maps.inside
  have past := le_roundUp V.target (3 * wordBytes V.target + conf.forward)
  have is_limit : conf.limit V.target = conf.start V.target + conf.size / wordBytes V.target * wordBytes V.target := rfl
  have is_first : conf.first V.target G = conf.start V.target + G.metadataBytes V.target + 2 * wordBytes V.target := rfl
  have is_start : conf.start V.target = roundUp V.target (3 * wordBytes V.target + conf.forward) := rfl
  unfold Geometry.minMetadata at room
  have base : V.alignUp (add V.target (3 * wordBytes V.target) conf.forward) (wordBytes V.target) =
      conf.start V.target := by
    rw [add_eq (by omega), alignUp_word maps (by omega)]
    rfl
  simp only [base] at accepted
  rw [if_neg (by simp [TalcMeta.null]), if_neg (by omega)] at accepted
  generalize at_start : (TalcMeta.null V.target m).write (conf.start V.target) (Tag.new 0 true) = st₀ at accepted
  have acme : (claimMetadata V.target G st₀ (conf.start V.target + wordBytes V.target)).2 =
      conf.first V.target G - wordBytes V.target := by
    unfold claimMetadata
    simp only
    omega
  have free_size : conf.size / wordBytes V.target * wordBytes V.target - (conf.first V.target G - conf.start V.target) =
      conf.limit V.target - conf.first V.target G := by omega
  rw [acme, Nat.sub_add_cancel (by omega), free_size,
    if_pos (by unfold minChunkSize nodeBytes; omega), Option.some.injEq] at accepted
  refine ⟨G, st₀, rfl, sound, by omega, ?_, accepted.symm⟩
  rw [← at_start]
  rfl

theorem Binned.claimed (binned : Binned T G st (fun _ => none) fun _ => []) (sound : G.Sound T)
    {start first limit : Nat} (words : start % wordBytes T = 0 ∧ first % wordBytes T = 0 ∧ limit % wordBytes T = 0)
    (avails : st.avails = start + wordBytes T) (bins : st.bins = st.avails + G.availabilityWords T.bits * wordBytes T)
    (is_first : first = st.bins + G.bins * (2 * wordBytes T) + wordBytes T) (room : first + 4 * wordBytes T ≤ limit)
    (inside : limit < span T) : Heap T G start limit
      ((st.insertFree T G first (limit - first)).write (first - wordBytes T) (Tag.new start true))
      (update (fun _ => none) first (some (limit - first))) (update (fun _ => []) (G.bin T (limit - first)) [first])
      [⟨start, first - start, .pinned⟩, ⟨first, limit - first, .free⟩] := by
  have w := bits_eq T
  have one : 2 * wordBytes T ≤ G.bins * (2 * wordBytes T) := Nat.le_mul_of_pos_left _ sound.pos
  have fresh : Fresh T G st (fun _ => none) first (limit - first) := ⟨by omega, by omega, by omega, fun _ _ is => by cases is⟩
  have same : ∀ {o}, o ≠ first - wordBytes T →
      ((st.insertFree T G first (limit - first)).write (first - wordBytes T) (Tag.new start true)).mem o =
        (st.insertFree T G first (limit - first)).mem o := fun ne => update_of_ne ne ..
  have avails' : ((st.insertFree T G first (limit - first)).write (first - wordBytes T) (Tag.new start true)).avails =
      st.avails := insertFree_avails st first (limit - first)
  have bins' : ((st.insertFree T G first (limit - first)).write (first - wordBytes T) (Tag.new start true)).bins =
      st.bins := insertFree_bins st first (limit - first)
  have acme : (Seg.mk start (first - start) .pinned).acme = first := by
    simp only [Seg.acme]
    omega
  have acme' : (Seg.mk first (limit - first) .free).acme = limit := by
    simp only [Seg.acme]
    omega
  refine ⟨⟨rfl, by rw [acme]; simp only; omega, acme.symm, by rw [acme']; simp only; omega, acme'⟩, inside, ?_, ?_,
    ⟨?_, trivial, trivial⟩, ?_, ?_, ⟨⟨?_, ?_⟩, [⟨first, limit - first, .free⟩], ?_, ?_⟩⟩
  · obtain ⟨start_word, first_word, limit_word⟩ := words
    intro seg mem
    rcases mem_pair.mp mem with here | here <;> subst here
    · exact ⟨start_word, Nat.sub_mod_eq_zero_of_mod_eq (first_word.trans start_word.symm), by simp only; omega, by simp⟩
    · exact ⟨first_word, Nat.sub_mod_eq_zero_of_mod_eq (limit_word.trans first_word.symm), by simp only; omega, by simp⟩
  · exact isChain_pair.mpr fun both => by cases both.1
  · show update _ _ _ _ = _
    rw [acme]
    exact update_self ..
  · intro b s
    by_cases here : b = first
    · subst here
      simp [eq_comm]
    · simp [here]
  · refine (binned.insert sound fresh).frame rfl rfl rfl (fun o inMeta => same ?_) fun b s is_free o low high => same ?_
    · unfold TalcMeta.InMeta at inMeta
      rw [insertFree_bins] at inMeta
      omega
    · by_cases here : b = first
      · omega
      · rw [update_of_ne here] at is_free
        cases is_free
  · exact avails'.trans avails
  · rw [bins', avails', bins]
  · unfold metaSeg
    rw [bins', ← is_first]
  · intro seg mem
    rw [mem_singleton.mp mem]
    simp

theorem claim_heap {conf : Config} (accepted : claim V (.null V.target m) conf = some st)
    (maps : V.Maps (conf.limit V.target)) : ∃ G F lists, conf.validated V.target = some G ∧ G.Sound V.target ∧
      Heap V.target G (conf.start V.target) (conf.limit V.target) st F lists (claimed V.target G conf) := by
  obtain ⟨G, st₀, valid, sound, room, summary, is_st⟩ := claim_eq accepted maps
  have inside := maps.inside
  have binned := claimMetadata_binned (T := V.target) (G := G) st₀ summary (conf.start V.target + wordBytes V.target)
  have heap := binned.claimed sound (Config.words V.target G conf) rfl rfl ?_ room (by omega)
  · rw [← is_st] at heap
    exact ⟨G, _, _, valid, sound, heap⟩
  · show conf.start V.target + (_ + _) + _ = _
    unfold claimMetadata
    simp only
    omega

/-! ### One free chunk -/

/-- The metadata says that the heap from `first` on is one free chunk, in its bin. -/
structure Single (T : Target) (G : Geometry) (start first limit : Nat) (st : TalcMeta) : Prop where
  places : st.avails = start + wordBytes T ∧ st.bins = st.avails + G.availabilityWords T.bits * wordBytes T
  tag : st.mem (first - wordBytes T) = Tag.new start true
  sizes : st.mem (first + nodeBytes T) = limit - first ∧ st.mem (limit - wordBytes T) = limit - first
  root : readLink (wordBytes T) st.mem (st.slot T (G.bin T (limit - first))) = some first
  node : readLink (wordBytes T) st.mem first = none ∧
    st.mem (first + 2 * wordBytes T) = st.slot T (G.bin T (limit - first))
  others : ∀ {i}, i < G.bins → i ≠ G.bin T (limit - first) → readLink (wordBytes T) st.mem (st.slot T i) = none
  avails : ∀ {j}, j < G.availabilityWords T.bits → st.mem (st.availPtr T j) =
    if j = G.bin T (limit - first) / T.bits then 2 ^ (G.bin T (limit - first) % T.bits) else 0
  summary : st.summary = 2 ^ (G.bin T (limit - first) / T.bits)

section Single

variable {start first limit : Nat}

theorem Heap.segs_eq (heap : Heap T G start limit st F lists segs) (none : blocks segs = [])
    (is_first : first = st.bins + G.bins * (2 * wordBytes T) + wordBytes T) (lt : first < limit) :
    segs = [⟨start, first - start, .pinned⟩, ⟨first, limit - first, .free⟩] := by
  obtain ⟨places, rest, shape, others⟩ := heap.rooted
  subst shape
  have acme : (metaSeg T G start st).acme = first := by
    simp only [metaSeg, Seg.acme]
    omega
  have tiles := heap.tiles.2.2
  rw [acme] at tiles
  have free : ∀ seg ∈ rest, seg.isFree = true := by
    intro seg mem
    obtain ⟨b, s, use⟩ := seg
    cases use with
    | free => rfl
    | pinned => exact absurd rfl (others _ mem)
    | block ptr size =>
      have listed : (ptr, size) ∈ blocks (metaSeg T G start st :: rest) :=
        mem_filterMap.mpr ⟨_, mem_cons_of_mem _ mem, rfl⟩
      rw [none] at listed
      cases listed
  rcases rest with _ | ⟨⟨b, s, use⟩, _ | ⟨y, rest⟩⟩
  · have : first = limit := tiles
    omega
  · obtain ⟨base, -, last⟩ := tiles
    have is_free : use = .free := by simpa [Seg.isFree] using free _ (mem_singleton.mpr rfl)
    simp only [Seg.acme] at base last
    have last : b + s = limit := last
    have size : limit - first = s := by omega
    rw [size, ← base, ← is_free, metaSeg, ← is_first, base]
  · have chain := (isChain_cons_cons.mp (List.IsChain.tail heap.alternate)).1
    exact absurd ⟨free _ (mem_cons_self ..), free y (by simp)⟩ chain

theorem Heap.single (heap : Heap T G start limit st F lists segs) (sound : G.Sound T) (none : blocks segs = [])
    (is_first : first = st.bins + G.bins * (2 * wordBytes T) + wordBytes T) (lt : first < limit) :
    Single T G start first limit st := by
  have w := bits_eq T
  have shape := heap.segs_eq none is_first lt
  subst shape
  have binned := heap.binned
  have is_free : F first = some (limit - first) := (heap.spans _ _).mpr (by simp)
  have only : ∀ {b s}, F b = some s → b = first ∧ s = limit - first := by
    intro b s free
    simpa using (heap.spans b s).mp free
  have bin_lt := sound.bin_lt (limit - first)
  have others : ∀ {i}, i < G.bins → i ≠ G.bin T (limit - first) → lists i = [] := by
    intro i hi ne
    refine eq_nil_iff_forall_not_mem.mpr fun b mem => ?_
    obtain ⟨s, free, bin⟩ := (binned.member hi).mp mem
    rw [(only free).2] at bin
    exact ne bin.symm
  have mine : lists (G.bin T (limit - first)) = [first] := by
    have mem : first ∈ lists (G.bin T (limit - first)) := (binned.member bin_lt).mpr ⟨_, is_free, rfl⟩
    refine perm_singleton.mp ((perm_ext_iff_of_nodup (binned.nodup bin_lt) (nodup_singleton _)).mpr ?_)
    intro b
    rw [mem_singleton]
    constructor
    · intro mem
      obtain ⟨s, free, -⟩ := (binned.member bin_lt).mp mem
      exact (only free).1
    · intro same
      exact same ▸ mem
  have linked := binned.linked bin_lt
  rw [mine] at linked
  have marked : ∀ i, i = G.bin T (limit - first) ↔ i < G.bins ∧ lists i ≠ [] := by
    intro i
    constructor
    · intro same
      subst same
      exact ⟨bin_lt, by rw [mine]; simp⟩
    · intro ⟨hi, nonempty⟩
      by_contra ne
      exact nonempty (others hi ne)
  have marks := binned.marks.congr (fun _ => rfl) marked
  obtain ⟨words, summary⟩ := marks.single (by omega) (Geometry.word_lt bin_lt)
  have acme : (Seg.mk start (first - start) .pinned).acme = first := by
    have := (heap.rooted).1
    simp only [Seg.acme]
    omega
  refine ⟨heap.rooted.1, ?_, ⟨binned.low is_free, ?_⟩, linked.1, ⟨linked.2.2, linked.2.1⟩, fun hi ne => ?_, words, summary⟩
  · have tag := heap.row.1
    unfold Seg.TagAt at tag
    simp only [acme] at tag
    exact tag
  · have := binned.high is_free
    rwa [Nat.add_sub_cancel' (by omega)] at this
  · have := (binned.linked hi).root
    rwa [others hi ne] at this

end Single

end Evering.Talc
