import Evering.Pool.Alone
import Evering.Pool.Recorded

/-!
# Reserving a block

`PoolRef::claim` computes the smallest class whose blocks are large enough from two logarithms, and goes from there through the
slots of each class in turn, from a start of its own and around the end. Without interference it takes the first slot that is free
and has a generation left.
-/

namespace Evering.Pool

open Interleave Function List Option

variable {pool : Storage} {oracle : Nat → Nat} {p : Nat} {s : Shared}

/-! ### Probing -/

/-- The slot is free and has a generation left. -/
def State.Reservable (state : State) : Prop := state.allocated = false ∧ state.generation < maxGeneration

instance (state : State) : Decidable state.Reservable := inferInstanceAs (Decidable (_ ∧ _))

/-- The Pool after a participant has reserved a slot -/
def Shared.reserve (s : Shared) (p cls slot : Nat) : Shared :=
  let generation := (s.word cls slot).generation + 1
  ((s.setWord cls slot (Auth.owned generation p).word).addAllocation ⟨p, cls, slot, generation⟩ false).logClaim cls
    slot generation

theorem probe_alone {cls slot : Nat} (canonical : (s.word cls slot).canonical = true) (fits : (s.word cls slot).word < 2 ^ 32)
    (owner : p < pool.capacity) : (probe pool p cls slot).Post oracle s fun s' r =>
      if (s.word cls slot).Reservable then s' = s.reserve p cls slot ∧ r = some s.nextAllocation else s' = s ∧ r = none := by
  have small := pool.target.participantCapacity_le
  have most := State.generation_le fits
  rw [maxGeneration_eq] at most
  have next : min ((s.word cls slot).generation + 1) (2 ^ 32 - 1) = (s.word cls slot).generation + 1 := by omega
  refine .after_read ?_
  dsimp only
  rw [next]
  by_cases reservable : (s.word cls slot).Reservable
  · have loc : State.local pool.capacity ((s.word cls slot).generation + 1) p =
        some (Auth.owned ((s.word cls slot).generation + 1) p).word := State.local_eq small reservable.2 owner
    have passes : ((s.word cls slot).canonical && !(s.word cls slot).allocated &&
        decide ((s.word cls slot).generation < maxGeneration)) = true := by
      rw [canonical, reservable.1, decide_eq_true reservable.2]
      rfl
    rw [loc]
    dsimp only
    rw [if_pos passes]
    refine .action ?_
    rw [if_pos reservable, if_pos rfl]
    exact ⟨rfl, rfl⟩
  · split
    · refine .done ?_
      rw [if_neg reservable]
      exact ⟨rfl, rfl⟩
    · rw [if_neg]
      · refine .done ?_
        rw [if_neg reservable]
        exact ⟨rfl, rfl⟩
      · rw [Bool.and_eq_true, Bool.and_eq_true, Bool.not_eq_true', decide_eq_true_eq]
        exact fun h => reservable ⟨h.1.2, h.2⟩

theorem probeAll_alone {slots : List (Nat × Nat)}
    (canonical : ∀ x ∈ slots, (s.word x.1 x.2).canonical = true ∧ (s.word x.1 x.2).word < 2 ^ 32) (owner : p < pool.capacity) :
    (probeAll pool p slots).Post oracle s fun s' r =>
      (s' = s ∧ r = .error .unavailable ∧ ∀ x ∈ slots, ¬(s.word x.1 x.2).Reservable) ∨
      ∃ pre cls slot post, slots = pre ++ (cls, slot) :: post ∧ (∀ x ∈ pre, ¬(s.word x.1 x.2).Reservable) ∧
        (s.word cls slot).Reservable ∧ s' = s.reserve p cls slot ∧ r = .ok s.nextAllocation := by
  induction slots with
  | nil => exact .done (.inl ⟨rfl, rfl, nofun⟩)
  | cons x slots ih =>
    obtain ⟨cls, slot⟩ := x
    obtain ⟨first, rest⟩ := forall_mem_cons.mp canonical
    refine .bind (probe_alone first.1 first.2 owner) fun s₁ r probed => ?_
    split at probed
    · rename_i reservable
      obtain ⟨rfl, rfl⟩ := probed
      exact .done (.inr ⟨[], cls, slot, slots, rfl, nofun, reservable, rfl, rfl⟩)
    · rename_i passed
      obtain ⟨rfl, rfl⟩ := probed
      refine .mono (ih rest) ?_
      rintro s₂ r (⟨same, failed, none⟩ | ⟨pre, cls', slot', post, rfl, before, reservable, after, ok⟩)
      · exact .inl ⟨same, failed, forall_mem_cons.mpr ⟨passed, none⟩⟩
      · exact .inr ⟨(cls, slot) :: pre, cls', slot', post, rfl, forall_mem_cons.mpr ⟨passed, before⟩, reservable, after, ok⟩

/-! ### The slots in order -/

theorem probes_cover {start slots slot : Nat} (lt : start < slots) (inside : slot < slots) :
    ∃ probe < slots, (start + probe) % slots = slot := by
  by_cases after : start ≤ slot
  · refine ⟨slot - start, by omega, ?_⟩
    rw [Nat.add_sub_cancel' after, Nat.mod_eq_of_lt inside]
  · refine ⟨slot + slots - start, by omega, ?_⟩
    rw [show start + (slot + slots - start) = slot + slots by omega, Nat.add_mod_right, Nat.mod_eq_of_lt inside]

theorem mem_drop_zipIdx {α : Type} {xs : List α} {k i : Nat} {x : α} : (x, i) ∈ xs.zipIdx.drop k ↔ k ≤ i ∧ xs[i]? = some x := by
  rw [mem_iff_getElem?]
  simp only [List.getElem?_drop, List.getElem?_zipIdx, map_eq_some_iff, Prod.mk.injEq, Nat.zero_add]
  constructor
  · rintro ⟨j, y, at_j, rfl, rfl⟩
    exact ⟨Nat.le_add_right k j, at_j⟩
  · rintro ⟨le, at_i⟩
    exact ⟨i - k, x, by rwa [Nat.add_sub_cancel' le], rfl, Nat.add_sub_cancel' le⟩

theorem mem_probes_iff {preferred i slot : Nat} : (i, slot) ∈ probes pool preferred ↔
    preferred ≤ i ∧ ∃ cls, pool.classes[i]? = some cls ∧ slot < cls.slots := by
  unfold probes
  rw [mem_flatMap]
  constructor
  · rintro ⟨⟨cls, index⟩, mem, probed⟩
    obtain ⟨probe, lt, same⟩ := mem_map.mp probed
    cases same
    obtain ⟨le, at_i⟩ := mem_drop_zipIdx.mp mem
    exact ⟨le, cls, at_i, Nat.mod_lt _ (Nat.zero_lt_of_lt (mem_range.mp lt))⟩
  · rintro ⟨le, cls, at_i, lt⟩
    refine ⟨(cls, i), mem_drop_zipIdx.mpr ⟨le, at_i⟩, mem_map.mpr ?_⟩
    obtain ⟨probe, inside, reached⟩ :=
      probes_cover (Nat.mod_lt (i * 0x9e37 % 2 ^ pool.target.bits) (Nat.zero_lt_of_lt lt)) lt
    exact ⟨probe, mem_range.mpr inside, congrArg (i, ·) reached⟩

theorem probes_sorted (pool : Storage) (preferred : Nat) : (probes pool preferred).Pairwise fun x y => x.1 ≤ y.1 := by
  have sorted : (pool.classes.zipIdx.drop preferred).Pairwise fun x y => x.2 ≤ y.2 := by
    refine List.Pairwise.sublist (drop_sublist ..) (pairwise_iff_getElem.mpr fun i j hi hj lt => ?_)
    rw [getElem_zipIdx, getElem_zipIdx]
    dsimp only
    omega
  unfold probes
  refine pairwise_flatMap.mpr ⟨fun x _ => pairwise_map.mpr (pairwise_of_forall fun _ _ => Nat.le_refl _), ?_⟩
  refine sorted.imp fun {x y} le a here b there => ?_
  obtain ⟨_, -, rfl⟩ := mem_map.mp here
  obtain ⟨_, -, rfl⟩ := mem_map.mp there
  exact le

/-! ### The preferred class -/

theorem nextPowerOfTwo_le_two_pow {m k : Nat} : nextPowerOfTwo m ≤ 2 ^ k ↔ m ≤ 2 ^ k := by
  refine ⟨Nat.le_trans (Extent.le_nextPowerOfTwo m), fun le => ?_⟩
  unfold nextPowerOfTwo
  split
  · exact Nat.one_le_two_pow
  · refine Nat.pow_le_pow_right (by decide) ((Nat.log2_lt (by omega)).mpr ?_)
    omega

theorem preferred_le_iff {m f i : Nat} : (max (nextPowerOfTwo m) (2 ^ f)).log2 - (2 ^ f).log2 ≤ i ↔ m ≤ 2 ^ f * 2 ^ i := by
  have is_power : nextPowerOfTwo m = 2 ^ (nextPowerOfTwo m).log2 := beq_iff_eq.mp (Extent.nextPowerOfTwo_power m)
  rw [← Nat.pow_add, ← nextPowerOfTwo_le_two_pow, is_power]
  generalize (nextPowerOfTwo m).log2 = k
  rw [Nat.pow_le_pow_iff_right (by decide), Nat.log2_two_pow]
  rcases Nat.le_total k f with le | le
  · rw [Nat.max_eq_right (Nat.pow_le_pow_right (by decide) le), Nat.log2_two_pow]
    omega
  · rw [Nat.max_eq_left (Nat.pow_le_pow_right (by decide) le), Nat.log2_two_pow]
    omega

namespace Extent

variable {target : Target} {header : AllocLayout} {bound : Nat} {range : Option (BlockRange target)} {geometry : Geometry}

/-- `Class::payload`, in a mapping of the Pool at `base` -/
def Class.address (cls : Class) (base slot : Nat) : Nat := base + (cls.payload + slot * cls.bytes)

/-- Every slot of a class is taken or used up. -/
def Class.Exhausted (s : Shared) (i : Nat) (cls : Class) : Prop :=
  ∀ slot < cls.slots, (s.word i slot).allocated = true ∨ (s.word i slot).generation = maxGeneration

structure Reserved (geometry : Geometry) (target : Target) (p size align : Nat) (s s' : Shared) (i slot : Nat) (cls : Class) :
    Prop where
  there : geometry.classes[i]? = some cls
  inside : slot < cls.slots
  room : max size align ≤ cls.bytes
  free : (s.word i slot).allocated = false ∧ (s.word i slot).generation < maxGeneration
  /-- in the smallest class that has one -/
  smallest : ∀ (j : Nat) (cls' : Class), j < i → geometry.classes[j]? = some cls' → max size align ≤ cls'.bytes →
    cls'.Exhausted s j
  /-- its word is the only one that changes -/
  word : State.local target.participantCapacity ((s.word i slot).generation + 1) p = some (s'.word i slot)
  others : ∀ j slot', (j, slot') ≠ (i, slot) → s'.word j slot' = s.word j slot'
  allocation : s'.allocation s.nextAllocation = some ⟨p, i, slot, (s.word i slot).generation + 1⟩
  /-- the block is aligned in every mapping that is aligned -/
  aligned : ∀ base, geometry.layout.align ∣ base → align ∣ cls.address base slot

/-- What `claim` returns, run without interference. -/
structure ReservesExactly (geometry : Geometry) (target : Target) (p size align : Nat) (s s' : Shared)
    (r : Except ReserveError (Option Nat)) : Prop where
  tooLarge : ∃ largest, geometry.classes.getLast? = some largest ∧
    (r = .error .blockTooLarge ↔ largest.bytes < max size align)
  unavailable : r = .error .unavailable ↔ (∃ cls ∈ geometry.classes, max size align ≤ cls.bytes) ∧
    ∀ (i : Nat) (cls : Class), geometry.classes[i]? = some cls → max size align ≤ cls.bytes → cls.Exhausted s i
  failed : (∃ error, r = .error error) → s' = s
  reserved : ∀ a, r = .ok a → a = some s.nextAllocation ∧ ∃ i slot cls, Reserved geometry target p size align s s' i slot cls

variable {size align : Nat}

theorem ReservesExactly.tooLarge_of (some_ : 0 < geometry.classes.length)
    (small : ∀ cls ∈ geometry.classes, cls.bytes < max size align) :
    ReservesExactly geometry target p size align s s (.error .blockTooLarge) := by
  have nonempty := ne_nil_of_length_pos some_
  refine ⟨⟨_, List.getLast?_eq_some_getLast nonempty, iff_of_true rfl (small _ (getLast_mem nonempty))⟩,
    iff_of_false (by simp) ?_, fun _ => rfl, nofun⟩
  rintro ⟨⟨cls, mem, le⟩, -⟩
  exact absurd (small cls mem) (Nat.not_lt.mpr le)

theorem exhausted_of_not_reservable {state : State} (fits : state.word < 2 ^ 32) (h : ¬state.Reservable) :
    state.allocated = true ∨ state.generation = maxGeneration := by
  by_cases allocated : state.allocated = true
  · exact .inl allocated
  · have := State.generation_le fits
    refine .inr (Nat.le_antisymm this (Nat.le_of_not_lt fun below => h ⟨Bool.eq_false_iff.mpr allocated, below⟩))

theorem not_reservable_of_exhausted {state : State} (h : state.allocated = true ∨ state.generation = maxGeneration) :
    ¬state.Reservable := by
  rintro ⟨unallocated, below⟩
  rcases h with allocated | most
  · rw [unallocated] at allocated
    cases allocated
  · omega

theorem storage_classes (geometry : Geometry) (target : Target) (id i slot : Nat) :
    (∃ cls, (geometry.storage target id).classes[i]? = some cls ∧ slot < cls.slots) ↔
      ∃ cls, geometry.classes[i]? = some cls ∧ slot < cls.slots := by
  unfold Geometry.storage
  simp only [List.getElem?_map, map_eq_some_iff]
  constructor
  · rintro ⟨_, ⟨cls, there, rfl⟩, lt⟩
    exact ⟨cls, there, lt⟩
  · rintro ⟨cls, there, lt⟩
    exact ⟨_, ⟨cls, there, rfl⟩, lt⟩

theorem reserve_word (s : Shared) (p i slot j slot' : Nat) : (s.reserve p i slot).word j slot' =
    if (j, slot') = (i, slot) then (Auth.owned ((s.word i slot).generation + 1) p).word else s.word j slot' := by
  show update s.word i (update (s.word i) slot _) j slot' = _
  by_cases same : j = i
  · subst same
    rw [update_self]
    by_cases here : slot' = slot
    · subst here
      rw [update_self, if_pos rfl]
    · rw [update_of_ne here, if_neg (by simp [here])]
  · rw [update_of_ne same, if_neg (by simp [same])]

theorem reserves_of_probes {id preferred : Nat}
    (large : ∀ {i : Nat} {cls : Class}, geometry.classes[i]? = some cls → (max size align ≤ cls.bytes ↔ preferred ≤ i))
    (below : preferred < geometry.classes.length) (owner : p < target.participantCapacity)
    (canonical : ∀ (i : Nat) (cls : Class) (slot : Nat), geometry.classes[i]? = some cls → slot < cls.slots →
      (s.word i slot).canonical = true ∧ (s.word i slot).word < 2 ^ 32)
    (aligned : ∀ cls ∈ geometry.classes, max size align ≤ cls.bytes → ∀ base slot, geometry.layout.align ∣ base →
      align ∣ cls.address base slot) :
    (probeAll (geometry.storage target id) p (probes (geometry.storage target id) preferred)).Post oracle s fun s' r =>
      ReservesExactly geometry target p size align s s' (r.map some) := by
  have listed {i slot : Nat} : (i, slot) ∈ probes (geometry.storage target id) preferred ↔
      preferred ≤ i ∧ ∃ cls, geometry.classes[i]? = some cls ∧ slot < cls.slots := by
    rw [mem_probes_iff, storage_classes]
  obtain ⟨last, there⟩ : ∃ last, geometry.classes[geometry.classes.length - 1]? = some last :=
    ⟨_, List.getElem?_eq_getElem (by omega)⟩
  have is_last : geometry.classes.getLast? = some last := by rw [List.getLast?_eq_getElem?, there]
  have fits : ¬last.bytes < max size align := Nat.not_lt.mpr ((large there).mpr (by omega))
  have words : ∀ x ∈ probes (geometry.storage target id) preferred,
      (s.word x.1 x.2).canonical = true ∧ (s.word x.1 x.2).word < 2 ^ 32 := by
    rintro ⟨i, slot⟩ mem
    obtain ⟨-, cls, there, lt⟩ := listed.mp mem
    exact canonical i cls slot there lt
  refine .mono (probeAll_alone words owner) ?_
  rintro s' r (⟨rfl, rfl, none⟩ | ⟨pre, i, slot, post, order, before, reservable, rfl, rfl⟩)
  · refine ⟨⟨last, is_last, iff_of_false (by nofun) fits⟩, iff_of_true rfl ⟨⟨last, mem_of_getElem? there, by omega⟩, ?_⟩,
      fun _ => rfl, nofun⟩
    intro i cls there le slot lt
    have mem := listed.mpr ⟨(large there).mp le, cls, there, lt⟩
    exact exhausted_of_not_reservable (words _ mem).2 (none _ mem)
  · obtain ⟨le, cls, there', lt⟩ := listed.mp (order ▸ mem_append_right pre (mem_cons_self ..))
    have enough := (large there').mpr le
    refine ⟨⟨last, is_last, iff_of_false nofun fits⟩, iff_of_false nofun fun ⟨_, all⟩ => ?_, nofun, ?_⟩
    · exact not_reservable_of_exhausted (all i cls there' enough slot lt) reservable
    rintro a ok
    cases ok
    refine ⟨rfl, i, slot, cls, there', lt, enough, reservable, ?_, ?_, ?_, ?_,
      fun base => aligned cls (mem_of_getElem? there') enough base slot⟩
    · -- slots of smaller classes come before
      intro j cls' smaller there'' le' slot' lt'
      have mem := listed.mpr ⟨(large there'').mp le', cls', there'', lt'⟩
      have sorted := probes_sorted (geometry.storage target id) preferred
      refine exhausted_of_not_reservable (words _ mem).2 (before (j, slot') ?_)
      rw [order] at mem sorted
      rcases mem_append.mp mem with here | later
      · exact here
      · rcases mem_cons.mp later with same | later
        · cases same
          omega
        · have := (pairwise_cons.mp (pairwise_append.mp sorted).2.1).1 _ later
          dsimp only at this
          omega
    · rw [reserve_word, if_pos rfl]
      exact State.local_eq target.participantCapacity_le reservable.2 owner
    · intro j slot' ne
      rw [reserve_word, if_neg ne]
    · exact update_self ..

theorem WellFormed.built (formed : WellFormed target header bound range geometry) : ∃ info : Info, 0 < info.classes ∧
    build target header info.min info.classes info.base = some geometry := by
  obtain ⟨info, named, recorded⟩ := formed.recorded
  obtain ⟨built, -⟩ := filter_eq_some_iff.mp recorded
  obtain ⟨first, -, rfl⟩ := map_eq_some_iff.mp named
  exact ⟨_, formed.some_, built⟩

/-- What `claim` computes before it looks at a slot: no class is large enough, or those from one on are. -/
theorem claim_cases (created : create target header bound range = .ok geometry) (id p : Nat) (align : Nat) (pos : 0 < size) :
    ((∀ cls ∈ geometry.classes, cls.bytes < max size align) ∧
      claim (geometry.storage target id) p size align = .done (.error .blockTooLarge)) ∨
    ∃ preferred, preferred < geometry.classes.length ∧
      (∀ {i : Nat} {cls : Class}, geometry.classes[i]? = some cls → (max size align ≤ cls.bytes ↔ preferred ≤ i)) ∧
      claim (geometry.storage target id) p size align =
        (probeAll (geometry.storage target id) p (probes (geometry.storage target id) preferred)).bind
          fun claimed => .done (claimed.map some) := by
  have formed := create_wellFormed created
  obtain ⟨info, some_, built⟩ := formed.built
  obtain ⟨-, shaped, -⟩ := build_laid some_ built
  have first_power : (rangeOf range).1 = 2 ^ (rangeOf range).1.log2 := beq_iff_eq.mp formed.power
  generalize (rangeOf range).1.log2 = f at first_power
  have bytes {i : Nat} {cls : Class} (there : geometry.classes[i]? = some cls) : cls.bytes = 2 ^ f * 2 ^ i := by
    rw [formed.bytes i cls there, first_power]
  have large {i : Nat} {cls : Class} (there : geometry.classes[i]? = some cls) : max size align ≤ cls.bytes ↔
      (max (nextPowerOfTwo (max size align)) (2 ^ f)).log2 - (2 ^ f).log2 ≤ i := by
    rw [bytes there, preferred_le_iff]
  have length : (geometry.storage target id).classes.length = geometry.classes.length := length_map ..
  unfold claim
  rw [if_neg (by omega)]
  split
  · rename_i needed first tail is_needed shape
    obtain rfl : nextPowerOfTwo (max size align) = needed := by
      unfold Target.checkedNextPowerOfTwo at is_needed
      exact Option.some.inj (ite_none_right_eq_some.mp is_needed).2
    have first_bytes : first.bytes = 2 ^ f := by
      have at_zero : (geometry.storage target id).classes[0]? = some first := by
        rw [shape]
        rfl
      obtain ⟨cls, there, rfl⟩ := map_eq_some_iff.mp ((List.getElem?_map ..).symm.trans at_zero)
      exact (bytes there).trans (Nat.mul_one _)
    dsimp only
    rw [first_bytes, length]
    split
    · rename_i beyond
      refine .inl ⟨fun cls mem => Nat.lt_of_not_le fun le => ?_, rfl⟩
      obtain ⟨i, lt, rfl⟩ := getElem_of_mem mem
      have := (large (List.getElem?_eq_getElem lt)).mp le
      omega
    · exact .inr ⟨_, by omega, large, rfl⟩
  · rename_i none
    refine .inl ⟨fun cls mem => Nat.lt_of_not_le fun le => ?_, rfl⟩
    obtain ⟨i, lt, rfl⟩ := getElem_of_mem mem
    have there := List.getElem?_eq_getElem lt
    have small : geometry.classes[i].bytes < 2 ^ target.bits := by
      rw [(shaped i _ there).1]
      exact Nat.mod_lt _ (Nat.two_pow_pos _)
    rw [bytes there, ← Nat.pow_add] at le small
    have next : nextPowerOfTwo (max size align) < 2 ^ target.bits :=
      Nat.lt_of_le_of_lt (nextPowerOfTwo_le_two_pow.mpr le) small
    obtain ⟨first, rest, classes⟩ := exists_cons_of_ne_nil
      (ne_nil_of_length_pos (Nat.lt_of_lt_of_eq formed.some_ length.symm))
    exact none _ _ _ (if_pos next) classes

theorem dvd_address (created : create target header bound range = .ok geometry) {cls : Class} (mem : cls ∈ geometry.classes)
    (enough : align ≤ cls.bytes) (power : ∃ k, align = 2 ^ k) {base : Nat} (mapped : geometry.layout.align ∣ base) (slot : Nat) :
    align ∣ cls.address base slot := by
  have formed := create_wellFormed created
  obtain ⟨info, some_, built⟩ := formed.built
  obtain ⟨-, -, laid⟩ := build_laid some_ built
  obtain ⟨k, rfl⟩ := power
  have is_power : cls.bytes = 2 ^ cls.bytes.log2 := beq_iff_eq.mp (laid.aligned cls mem).1
  have divides : 2 ^ k ∣ cls.bytes := by
    rw [is_power] at enough ⊢
    exact Nat.pow_dvd_pow 2 ((Nat.pow_le_pow_iff_right (by decide)).mp enough)
  refine Nat.dvd_trans divides (Nat.dvd_add ?_ (formed.aligned cls mem slot))
  exact Nat.dvd_trans (bytes_dvd_align some_ built mem) mapped

/-- **Reservation is exact.** -/
theorem reservation_exact (created : create target header bound range = .ok geometry) (id : Nat)
    (owner : p < target.participantCapacity)
    (canonical : ∀ (i : Nat) (cls : Class) (slot : Nat), geometry.classes[i]? = some cls → slot < cls.slots →
      (s.word i slot).canonical = true ∧ (s.word i slot).word < 2 ^ 32)
    (pos : 0 < size) (power : ∃ k, align = 2 ^ k) :
    (claim (geometry.storage target id) p size align).Post oracle s fun s' r =>
      ReservesExactly geometry target p size align s s' r := by
  rcases claim_cases created id p align pos with ⟨small, eq⟩ | ⟨preferred, below, large, eq⟩
  · rw [eq]
    exact .done (.tooLarge_of (create_wellFormed created).some_ small)
  · rw [eq]
    refine .bind (reserves_of_probes large below owner canonical ?_) fun s' r reserves => .done reserves
    intro cls mem enough base slot mapped
    exact dvd_address created mem (Nat.le_trans (Nat.le_max_right ..) enough) power mapped slot

/-- The geometry that is created in 4544 bytes -/
def oneClass : Geometry := ⟨⟨4544, 64⟩, [⟨64, 64, 160, 448⟩]⟩

/-- Ten bytes in a Pool without reservations -/
theorem reservation_exact_first : (claim (oneClass.storage ⟨64, .inr rfl⟩ 0) 0 10 8).Post (fun _ => 0) Shared.init fun s' r =>
    ReservesExactly oneClass ⟨64, .inr rfl⟩ 0 10 8 Shared.init s' r := by
  have created : create ⟨64, .inr rfl⟩ headerLayout 4544 none = .ok oneClass := by decide
  have word : (State.free 0).canonical = true ∧ (State.free 0).word < 2 ^ 32 := by decide
  exact reservation_exact created 0 (by decide) (fun _ _ _ _ _ => word) (by decide) ⟨3, rfl⟩

end Extent

end Evering.Pool
