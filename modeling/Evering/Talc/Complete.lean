import Evering.Talc.Blocks
import Evering.Talc.Sizes

/-!
# Requests that fail

The search begins at the bin of the size that a request needs, goes through the bins that are marked, and tests every chunk in
them. On a target with addresses of 64 bits no division of an octave loses a bit in a heap below 2^61 bytes, so every chunk that
is large enough is in a bin that is searched, and a request fails only if no free chunk has room for it.
-/

namespace Evering.Talc

open Memory

variable {V : Mapping} {G : Geometry} {st : TalcMeta} {F : Nat → Option Nat} {lists : Nat → List Nat} {segs : List Seg}
  {start limit extent size align : Nat}

theorem Fits.le {b s : Nat} (fits : Fits V size align b s) (pos : 0 < align) : chunkSize V.target size ≤ s := by
  have split := Nat.div_add_mod (V.origin + b + align - 1) align
  have small := Nat.mod_lt (V.origin + b + align - 1) pos
  rw [Nat.mul_comm] at split
  unfold Fits at fits
  omega

theorem Heap.allocate_iff (heap : Heap V.target G start limit st F lists segs) (sound : G.Sound V.target)
    (valid : G.validate V.target extent = true)
    (kept : ∀ {b s}, ⟨b, s, .free⟩ ∈ segs → s.log2 + G.divisionsLog ≤ V.target.bits) (room : Room V limit size align)
    (pos : 0 < size) :
    Talc.allocate V G st size align = some (st, none) ↔ ¬∃ b s, ⟨b, s, .free⟩ ∈ segs ∧ Fits V size align b s := by
  have above := room.above
  have positive : 0 < align := by
    obtain ⟨k, is_power⟩ := room.power
    exact is_power ▸ Nat.two_pow_pos k
  have needs : 0 < chunkSize V.target size := by
    have w := bits_eq V.target
    obtain ⟨least, -⟩ := @chunkSize_spec V.target size (by omega)
    omega
  unfold Talc.allocate
  rw [if_neg (by omega)]
  rcases acquireChunk_spec heap.binned sound heap.bounded room with ⟨failed, none⟩ | ⟨found, s, got, is_found⟩
  · rw [failed]
    refine iff_of_true rfl ?_
    rintro ⟨b, s, mem, fits⟩
    exact none b s ((heap.spans b s).mpr mem) (Geometry.bin_le_bin valid needs (fits.le positive) (kept mem)) fits
  · rw [got]
    refine iff_of_false (by simp) (not_not_intro ?_)
    exact ⟨_, s, (heap.spans _ s).mp is_found.free, is_found.fits positive⟩

section Runs

variable {m : Words} {conf : Config}

/-- **Allocation is complete.** In every run in which the requests have room above the heap, the next request that has room there
returns, it fails exactly if it fits in no free chunk, and then the heap is unchanged. -/
theorem allocation_complete (accepted : claim V (.null V.target m) conf = some st) (maps : V.Maps (conf.limit V.target))
    (bits : V.target.bits = 64) (small : conf.size < 2 ^ 61) :
    ∃ G, conf.validated V.target = some G ∧
      ∀ h, Relation.ReflTransGen
          (HeapStep V.target G (conf.limit V.target) (HeapOp.Roomy (conf.limit V.target))) ⟨st, []⟩ h →
        ∃ segs lists, Refines V.target G (conf.start V.target) (conf.limit V.target) h segs lists ∧
          ∀ V' : Mapping, V'.target = V.target → ∀ size align, Room V' (conf.limit V.target) size align → 0 < size →
            (∃ result, allocate V' G h.st size align = some result) ∧
            ((∃ st', allocate V' G h.st size align = some (st', none)) ↔
              ¬∃ b s, ⟨b, s, .free⟩ ∈ segs ∧ Fits V' size align b s) ∧
            ∀ st', allocate V' G h.st size align = some (st', none) → st' = h.st := by
  obtain ⟨G, valid, sound, runs⟩ := claim_held accepted maps
  refine ⟨G, valid, fun h run => ?_⟩
  obtain ⟨F', lists', segs', held'⟩ := runs h run
  have validates := Config.validated_validate valid
  have kept {b s : Nat} (mem : ⟨b, s, .free⟩ ∈ segs') : s.log2 + G.divisionsLog ≤ V.target.bits := by
    obtain ⟨low, -, high⟩ := held'.heap.tiles.bounds mem
    have whole : conf.size / wordBytes V.target * wordBytes V.target ≤ conf.size := Nat.div_mul_le_self ..
    have size : s < 2 ^ 61 := by
      simp only [Seg.acme, Config.limit] at low high
      omega
    have octave : s.log2 < 61 := by
      by_cases empty : s = 0
      · rw [empty]
        decide
      · exact (Nat.log2_lt empty).mpr size
    have divisions := (Geometry.shape_of_validate validates).2.2.2
    unfold Geometry.maxDivisionsLog at divisions
    omega
  refine ⟨segs', lists', held'.refines sound, ?_⟩
  rintro ⟨T, origin⟩ rfl size align room pos
  have fails := held'.heap.allocate_iff (V := ⟨V.target, origin⟩) sound validates kept room pos
  have unchanged : ∀ st', allocate ⟨V.target, origin⟩ G h.st size align = some (st', none) → st' = h.st := by
    intro st' failed
    rcases held'.heap.allocate (V := ⟨V.target, origin⟩) sound room pos with same | ⟨_, _, _, _, _, got, -⟩
    · rw [same] at failed
      cases failed
      rfl
    · rw [got] at failed
      cases failed
  refine ⟨(held'.refines sound).ends ⟨V.target, origin⟩ rfl size align room, ?_, unchanged⟩
  rw [← fails]
  constructor
  · rintro ⟨st', failed⟩
    rw [failed, unchanged st' failed]
  · exact fun failed => ⟨_, failed⟩

/-- A process with addresses of 64 bits -/
def mappedWide (origin : Nat) : Mapping := ⟨Geometry.wide, origin⟩

/-- The small heap right after its claim, in such a process -/
def openedWide (origin : Nat) : Option TalcMeta :=
  claim (mappedWide origin) (.null (mappedWide origin).target fun _ => 0) small

/-- After a request for 1000 bytes the small heap has no room for 2500 more. -/
theorem allocation_complete_small :
    ∃ st h segs lists, openedWide 0x10000 = some st ∧
      Relation.ReflTransGen (HeapStep (mappedWide 0x10000).target smallGeometry 3096 (HeapOp.Roomy 3096)) ⟨st, []⟩ h ∧
      h.live = [⟨80, 1000, 8, 0x10000⟩] ∧ Refines (mappedWide 0x10000).target smallGeometry 24 3096 h segs lists ∧
      (allocate (mappedWide 0x10000) smallGeometry h.st 2500 8).map (·.2) = some none ∧
      ¬∃ b s, ⟨b, s, .free⟩ ∈ segs ∧ Fits (mappedWide 0x10000) 2500 8 b s := by
  have maps : (mappedWide 0x10000).Maps 3096 := ⟨by decide, by decide⟩
  obtain ⟨st, accepted⟩ := Option.isSome_iff_exists.mp (by decide +kernel : (openedWide 0x10000).isSome = true)
  have alloc : ((openedWide 0x10000).bind fun st => HeapOp.all smallGeometry ⟨st, []⟩
      [.allocate (mappedWide 0x10000) 1000 8]).map (fun h =>
        (h.live, (allocate (mappedWide 0x10000) smallGeometry h.st 2500 8).map (·.2))) =
      some ([⟨80, 1000, 8, 0x10000⟩], some none) := by decide +kernel
  rw [accepted] at alloc
  obtain ⟨h, all, result⟩ := Option.map_eq_some_iff.mp alloc
  obtain ⟨live, failed⟩ := Prod.mk.inj result
  have run : Relation.ReflTransGen (HeapStep (mappedWide 0x10000).target smallGeometry 3096 (HeapOp.Roomy 3096)) ⟨st, []⟩ h :=
    run_of_all (fun op mem => by
      rw [List.mem_singleton.mp mem]
      exact ⟨⟨rfl, maps, 3, rfl⟩, by show _ ≤ _; decide⟩) all
  obtain ⟨G, valid, complete⟩ := @allocation_complete _ st _ small accepted maps rfl (by decide)
  cases valid
  obtain ⟨segs, lists, refined, requests⟩ := complete h run
  refine ⟨st, h, segs, lists, accepted, run, live, refined, failed, ?_⟩
  obtain ⟨⟨st', _⟩, got, rfl⟩ := Option.map_eq_some_iff.mp failed
  exact (requests _ rfl 2500 8 ⟨maps, ⟨3, rfl⟩, by decide⟩ (by decide)).2.1.mp ⟨st', got⟩

/-- A heap in the upper half of the addresses: the first multiple of a large alignment wraps around to address 0, which is taken
for an address in front of the chunk's end. The request succeeds although no free chunk has room for it. -/
theorem allocation_wraps :
    ∃ (st : TalcMeta) (segs : List Seg) (lists : Nat → List Nat), openedWide 0xFFFF800000000000 = some st ∧
      (mappedWide 0xFFFF800000000000).Maps (small.limit (mappedWide 0xFFFF800000000000).target) ∧ small.size < 2 ^ 61 ∧
      Refines (mappedWide 0xFFFF800000000000).target smallGeometry (small.start (mappedWide 0xFFFF800000000000).target)
        (small.limit (mappedWide 0xFFFF800000000000).target) ⟨st, []⟩ segs lists ∧
      (¬∃ b s, ⟨b, s, .free⟩ ∈ segs ∧ Fits (mappedWide 0xFFFF800000000000) 1 (2 ^ 62) b s) ∧
      (allocate (mappedWide 0xFFFF800000000000) smallGeometry st 1 (2 ^ 62)).map (·.2) = some (some 0x800000000000) := by
  have maps : (mappedWide 0xFFFF800000000000).Maps (small.limit (mappedWide 0xFFFF800000000000).target) :=
    ⟨by decide, by decide⟩
  have request : ((openedWide 0xFFFF800000000000).map fun st =>
      (allocate (mappedWide 0xFFFF800000000000) smallGeometry st 1 (2 ^ 62)).map (·.2)) = some (some (some 0x800000000000)) := by
    decide +kernel
  obtain ⟨st, accepted, got⟩ := Option.map_eq_some_iff.mp request
  obtain ⟨G, F, lists, valid, sound, heap⟩ := @claim_heap _ st _ small accepted maps
  cases valid
  refine ⟨st, _, lists, accepted, maps, by decide, Held.refines ⟨heap, List.Perm.refl _, nofun⟩ sound, ?_, got⟩
  rintro ⟨b, s, mem, fits⟩
  unfold claimed at mem
  simp only [List.mem_cons, List.not_mem_nil, or_false, Seg.mk.injEq, reduceCtorEq, and_false, false_or, and_true] at mem
  obtain ⟨rfl, rfl⟩ := mem
  exact absurd fits (by unfold Fits; decide)

end Runs

end Evering.Talc
