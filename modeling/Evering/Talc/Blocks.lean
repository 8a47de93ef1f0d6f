import Mathlib.Logic.Relation
import Evering.Talc.Claim

/-!
# The heap as a set of blocks

The processes that share a heap allocate blocks, release blocks that are live, with their sizes, and write words of their
blocks, in any order. If every request has room above the heap in its process, then after every operation the heap is
tiled by chunks whose tags, sizes, lists and bits agree, and the live blocks are apart from each other and from
everything that belongs to the heap. Once no block is live, the heap is as it was claimed.
-/

namespace Evering.Talc

open Memory List Option Function

variable {V : Mapping} {T : Target} {G : Geometry} {st : TalcMeta} {F : Nat → Option Nat} {lists : Nat → List Nat}
  {segs : List Seg}

/-! ### Runs -/

/-- A block that a process has allocated. -/
structure Block where
  ptr : Nat
  size : Nat
  align : Nat
  /-- where that process has mapped the heap -/
  origin : Nat
  deriving DecidableEq

namespace Block

def key (block : Block) : Nat × Nat := (block.ptr, block.size)

/-- Blocks without a byte in common -/
def Apart (x y : Block) : Prop := x.ptr + x.size ≤ y.ptr ∨ y.ptr + y.size ≤ x.ptr

end Block

structure Shared where
  st : TalcMeta
  live : List Block

inductive HeapOp
  | allocate (V : Mapping) (size align : Nat)
  | deallocate (V : Mapping) (block : Block)
  /-- `deallocate` with a layout of size 0 -/
  | deallocateEmpty (V : Mapping) (ptr : Nat)
  /-- a user writes a word of a block -/
  | write (block : Block) (o word : Nat)

/-- An operation on the heap; `none` if the operation is not allowed, or does not end. -/
def HeapOp.apply (G : Geometry) (h : Shared) : HeapOp → Option Shared
  | .allocate V size align =>
    match Talc.allocate V G h.st size align with
    | none => none
    | some (st, none) => some ⟨st, h.live⟩
    | some (st, some ptr) => some ⟨st, if size = 0 then h.live else ⟨ptr, size, align, V.origin⟩ :: h.live⟩
  | .deallocate V block =>
    if block ∈ h.live then some ⟨Talc.deallocate V G h.st block.ptr block.size, h.live.erase block⟩ else none
  | .deallocateEmpty V ptr => some ⟨Talc.deallocate V G h.st ptr 0, h.live⟩
  | .write block o word =>
    if block ∈ h.live ∧ block.ptr ≤ o ∧ o < block.ptr + block.size then some ⟨h.st.write o word, h.live⟩ else none

/-- The process has mapped the heap, and alignments are powers of two. -/
def HeapOp.Legal (T : Target) (limit : Nat) : HeapOp → Prop
  | .allocate V _ align => V.target = T ∧ V.Maps limit ∧ ∃ k, align = 2 ^ k
  | .deallocate V _ => V.target = T ∧ V.Maps limit
  | .deallocateEmpty V _ => V.target = T ∧ V.Maps limit
  | .write .. => True

/-- The addresses from the end of the heap on suffice for the request. -/
def HeapOp.Roomy (limit : Nat) : HeapOp → Prop
  | .allocate V size align => V.origin + limit + align + size + 4 * wordBytes V.target ≤ span V.target
  | _ => True

def HeapStep (T : Target) (G : Geometry) (limit : Nat) (cond : HeapOp → Prop) (h h' : Shared) : Prop :=
  ∃ op : HeapOp, op.Legal T limit ∧ cond op ∧ op.apply G h = some h'

/-! ### One operation -/

/-- The heap with its live blocks -/
structure Held (T : Target) (G : Geometry) (start limit : Nat) (h : Shared) (F : Nat → Option Nat)
    (lists : Nat → List Nat) (segs : List Seg) : Prop where
  heap : Heap T G start limit h.st F lists segs
  live : (h.live.map Block.key).Perm (blocks segs)
  aligned : ∀ block ∈ h.live, (block.origin + block.ptr) % block.align = 0

section Operations

variable {start limit : Nat} {h h' : Shared}

theorem Heap.write (heap : Heap T G start limit st F lists segs) {p n o word : Nat} (mem : (p, n) ∈ blocks segs)
    (low : p ≤ o) (high : o < p + n) : Heap T G start limit (st.write o word) F lists segs := by
  have w := bits_eq T
  obtain ⟨b, s, mem⟩ := exists_of_mem_blocks mem
  obtain ⟨pre, post, split⟩ := append_of_mem mem
  have fit := heap.fits _ mem
  obtain ⟨base, -, -, room⟩ := fit.block rfl
  have past := le_roundUp T (p + n)
  simp only [Seg.post, Seg.acme] at base room
  subst split
  have hole : Hole T G start limit st F lists pre b (b + s) post false := (heap.cut (by simp)).giveUp rfl
  have written : Hole T G start limit (st.write o word) F lists pre b (b + s) post false :=
    hole.write rfl rfl rfl fun o' outside => update_of_ne (by omega) ..
  obtain ⟨tag, relocated⟩ := (row_append.mp heap.row).2.1
  have used : (Seg.mk b (b + s - b) (.block p n)).isFree = false := rfl
  rw [show Seg.mk b s (.block p n) = ⟨b, b + s - b, .block p n⟩ by rw [Nat.add_sub_cancel_left]] at fit tag relocated ⊢
  refine (written.fill used (by simp) fit ⟨?_, fun ne => ?_⟩).whole fun x _ y head both => ?_
  · refine (update_of_ne ?_ ..).trans tag
    simp only [Seg.acme]
    omega
  · refine (update_of_ne ?_ ..).trans (relocated ne)
    unfold Seg.post
    omega
  · cases head
    cases both.2

theorem Held.step (held : Held T G start limit h F lists segs) (sound : G.Sound T)
    (step : HeapStep T G limit (HeapOp.Roomy limit) h h') : ∃ F' lists' segs', Held T G start limit h' F' lists' segs' := by
  obtain ⟨op, legal, roomy, applied⟩ := step
  cases op with
  | allocate V size align =>
    obtain ⟨rfl, maps, power⟩ := legal
    rw [HeapOp.apply] at applied
    by_cases empty : size = 0
    · subst empty
      simp only [Talc.allocate, if_true, Option.some.injEq] at applied
      subst applied
      exact ⟨F, lists, segs, held⟩
    · rcases held.heap.allocate sound ⟨maps, power, roomy⟩ (Nat.pos_of_ne_zero empty) with
        failed | ⟨st', ptr, F', lists', segs', got, heap, aligned, perm⟩
      · rw [failed] at applied
        cases applied
        exact ⟨F, lists, segs, held⟩
      · rw [got] at applied
        simp only [if_neg empty, Option.some.injEq] at applied
        subst applied
        refine ⟨F', lists', segs', heap, ?_, ?_⟩
        · exact (held.live.cons (ptr, size)).trans perm.symm
        · intro block mem
          rcases mem_cons.mp mem with here | there
          · subst here
            exact aligned
          · exact held.aligned block there
  | deallocate V block =>
    obtain ⟨rfl, maps⟩ := legal
    unfold HeapOp.apply at applied
    simp only at applied
    split at applied
    · rename_i live
      cases applied
      have mem : (block.ptr, block.size) ∈ blocks segs := held.live.subset (mem_map_of_mem live)
      obtain ⟨F', lists', segs', heap, perm⟩ := held.heap.deallocate sound maps mem
      refine ⟨F', lists', segs', heap, ?_, fun other there => held.aligned other (mem_of_mem_erase there)⟩
      have front := ((perm_cons_erase live).map Block.key).symm.trans (held.live.trans perm)
      exact front.cons_inv
    · cases applied
  | deallocateEmpty V ptr =>
    unfold HeapOp.apply Talc.deallocate at applied
    simp only [if_true, Option.some.injEq] at applied
    subst applied
    exact ⟨F, lists, segs, held⟩
  | write block o word =>
    unfold HeapOp.apply at applied
    simp only at applied
    split at applied
    · rename_i inside
      cases applied
      have mem : (block.ptr, block.size) ∈ blocks segs := held.live.subset (mem_map_of_mem inside.1)
      exact ⟨F, lists, segs, held.heap.write mem inside.2.1 inside.2.2, held.live, held.aligned⟩
    · cases applied

theorem Held.run (held : Held T G start limit h F lists segs) (sound : G.Sound T)
    (run : Relation.ReflTransGen (HeapStep T G limit (HeapOp.Roomy limit)) h h') :
    ∃ F' lists' segs', Held T G start limit h' F' lists' segs' := by
  induction run with
  | refl => exact ⟨F, lists, segs, held⟩
  | tail _ step ih =>
    obtain ⟨F', lists', segs', held'⟩ := ih
    exact held'.step sound step

end Operations

/-! ### What the heap promises -/

/-- The heap is tiled by chunks whose data agree, and its blocks are apart. -/
structure Refines (T : Target) (G : Geometry) (start limit : Nat) (h : Shared) (segs : List Seg)
    (lists : Nat → List Nat) : Prop where
  /-- chunks tile the heap, and the first of them is the metadata -/
  tiles : Tiles Seg.base Seg.acme start segs limit
  metadata : ∃ rest, segs = metaSeg T G start h.st :: rest ∧ ∀ seg ∈ rest, seg.use ≠ .pinned
  alternate : Alternate segs
  /-- tags name the base and say whether the next chunk is free -/
  tags : ∀ pre seg post, segs = pre ++ seg :: post → seg.isFree = false →
    Tag.isAllocated (h.st.mem (seg.acme - wordBytes T)) = true ∧
      Tag.toBaseRel T (h.st.mem (seg.acme - wordBytes T)) = seg.base ∧
      Tag.isAboveFree (h.st.mem (seg.acme - wordBytes T)) = headFree post false
  /-- the two sizes of a free chunk agree -/
  sizes : ∀ seg ∈ segs, seg.isFree = true →
    h.st.sizeLow T seg.base = seg.size ∧ h.st.mem (seg.acme - wordBytes T) = seg.size
  /-- bins are lists of the free chunks of their sizes, each once -/
  linked : ∀ i < G.bins, Linked (wordBytes T) h.st.mem (h.st.slot T i) (lists i) ∧ (lists i).Nodup
  member : ∀ i < G.bins, ∀ b, b ∈ lists i ↔ ∃ s, ⟨b, s, .free⟩ ∈ segs ∧ G.bin T s = i
  bins : ∀ s, G.bin T s < G.bins
  /-- the bits follow the lists, and the summary follows the words -/
  avails : ∀ j < G.availabilityWords T.bits, ∀ i < T.bits,
    (h.st.mem (h.st.availPtr T j)).testBit i = true ↔ j * T.bits + i < G.bins ∧ lists (j * T.bits + i) ≠ []
  summary : ∀ j, h.st.summary.testBit j = true ↔ j < G.availabilityWords T.bits ∧ h.st.mem (h.st.availPtr T j) ≠ 0
  /-- live blocks are the blocks of the chunks in use, aligned and inside of the heap -/
  live : (h.live.map Block.key).Perm (blocks segs)
  aligned : ∀ block ∈ h.live, (block.origin + block.ptr) % block.align = 0
  inside : ∀ block ∈ h.live, (metaSeg T G start h.st).acme ≤ block.ptr ∧ block.ptr + block.size ≤ limit
  /-- live blocks are apart from each other and from the tags -/
  apart : h.live.Pairwise Block.Apart
  untagged : ∀ block ∈ h.live, ∀ seg ∈ segs, seg.isFree = false →
    block.ptr + block.size ≤ seg.acme - wordBytes T ∨ seg.acme ≤ block.ptr
  /-- the tag of a block is found, whoever looks for it -/
  found : ∀ V : Mapping, V.target = T → V.Maps limit → ∀ block ∈ h.live, ∃ seg ∈ segs,
    seg.use = .block block.ptr block.size ∧
      fromAllocBase V h.st block.ptr block.size = seg.acme - wordBytes T
  /-- `allocate` ends -/
  ends : ∀ V : Mapping, V.target = T → ∀ size align, Room V limit size align →
    ∃ result, allocate V G h.st size align = some result

section Refines

variable {start limit : Nat} {h : Shared}

theorem Held.chunk (held : Held T G start limit h F lists segs) {block : Block} (mem : block ∈ h.live) :
    ∃ seg ∈ segs, seg.use = .block block.ptr block.size ∧ seg.base ≤ block.ptr ∧ 0 < block.size ∧
      block.ptr + block.size + wordBytes T ≤ seg.acme := by
  have key : (block.ptr, block.size) ∈ blocks segs := held.live.subset (mem_map_of_mem mem)
  obtain ⟨b, s, mem⟩ := exists_of_mem_blocks key
  obtain ⟨low, -, pos, high⟩ := (held.heap.fits _ mem).block rfl
  have := le_roundUp T (block.ptr + block.size)
  refine ⟨_, mem, rfl, low, pos, ?_⟩
  unfold Seg.post at high
  omega

theorem Heap.blocks_apart (heap : Heap T G start limit st F lists segs) :
    (blocks segs).Pairwise fun x y => x.1 + x.2 ≤ y.1 := by
  have tiles := heap.tiles
  have fits := heap.fits
  clear heap
  induction segs generalizing start with
  | nil => exact List.Pairwise.nil
  | cons seg segs ih =>
    obtain ⟨-, -, rest⟩ := tiles
    have later := ih rest fun x mem => fits x (mem_cons_of_mem _ mem)
    obtain ⟨b, s, use⟩ := seg
    cases use with
    | free => exact later
    | pinned => exact later
    | block p n =>
      rw [blocks_block]
      refine pairwise_cons.mpr ⟨fun ⟨p', n'⟩ mem => ?_, later⟩
      obtain ⟨b', s', mem⟩ := exists_of_mem_blocks mem
      obtain ⟨-, -, -, high⟩ := (fits _ (mem_cons_self ..)).block rfl
      obtain ⟨low, -⟩ := (fits _ (mem_cons_of_mem _ mem)).block rfl
      have := le_roundUp T (p + n)
      have := (rest.bounds mem).1
      unfold Seg.post at high
      simp only [Seg.acme] at *
      omega

theorem Held.refines (held : Held T G start limit h F lists segs) (sound : G.Sound T) :
    Refines T G start limit h segs lists := by
  have w := bits_eq T
  have heap := held.heap
  have inside := heap.inside
  obtain ⟨places, rest, shape, others⟩ := heap.rooted
  have after : ∀ seg ∈ segs, seg.use ≠ .pinned → (metaSeg T G start h.st).acme ≤ seg.base := by
    intro seg mem used
    have tiles := heap.tiles
    rw [shape] at tiles mem
    rcases mem_cons.mp mem with here | there
    · rw [here] at used
      exact absurd rfl used
    · exact (tiles.2.2.bounds there).1
  refine {
    tiles := heap.tiles, metadata := ⟨rest, shape, others⟩, alternate := heap.alternate, tags := ?_, sizes := ?_,
    linked := fun i hi => ⟨heap.binned.linked hi, heap.binned.nodup hi⟩, member := ?_, bins := sound.bin_lt,
    avails := fun j hj i hi => heap.binned.marks.bits hj hi, summary := heap.binned.marks.summary, live := held.live,
    aligned := held.aligned, inside := ?_, apart := ?_, untagged := ?_, found := ?_, ends := ?_ }
  · intro pre seg post split used
    have fit := heap.fits seg (by simp [split])
    have least := fit.least
    have bound := (heap.tiles.bounds (show seg ∈ segs by simp [split])).2.2
    have row := heap.row
    rw [split] at row
    have tag := (row_append.mp row).2.1.word used
    have acme : seg.acme = seg.base + seg.size := rfl
    rw [tag]
    exact ⟨Tag.isAllocated_new .., Tag.toBaseRel_new fit.four.1 (by omega), Tag.isAboveFree_new fit.four.1⟩
  · intro seg mem is_free
    obtain ⟨b, s, use⟩ := seg
    have free : use = .free := by simpa [Seg.isFree] using is_free
    subst free
    have is_free := (heap.spans b s).mpr mem
    exact ⟨heap.binned.low is_free, heap.binned.high is_free⟩
  · intro i hi b
    rw [heap.binned.member hi]
    exact exists_congr fun s => and_congr_left fun _ => heap.spans b s
  · intro block mem
    obtain ⟨seg, mem, use, low, -, high⟩ := held.chunk mem
    have := after seg mem (by rw [use]; simp)
    have := (heap.tiles.bounds mem).2.2
    omega
  · have pairs : (blocks segs).Pairwise fun x y => x.1 + x.2 ≤ y.1 ∨ y.1 + y.2 ≤ x.1 := heap.blocks_apart.imp Or.inl
    have keys := (held.live.symm.pairwise_iff Or.symm).mp pairs
    exact (pairwise_map.mp keys).imp id
  · intro block mem seg mem' used
    obtain ⟨own, mem, use, low, -, high⟩ := held.chunk mem
    by_cases same : seg = own
    · subst same
      omega
    · have acme : seg.acme = seg.base + seg.size := rfl
      have := (heap.fits seg mem').least
      have := heap.tiles.disjoint mem mem' same
      omega
  · intro V same maps block mem
    subst same
    have key : (block.ptr, block.size) ∈ blocks segs := held.live.subset (mem_map_of_mem mem)
    obtain ⟨b, s, mem⟩ := exists_of_mem_blocks key
    obtain ⟨pre, post, split⟩ := append_of_mem mem
    refine ⟨_, mem, rfl, ?_⟩
    rw [split] at heap
    exact (heap.fromAllocBase maps).1
  · intro V same size align room
    subst same
    by_cases empty : size = 0
    · unfold allocate
      rw [if_pos empty]
      exact ⟨_, rfl⟩
    · rcases heap.allocate sound room (Nat.pos_of_ne_zero empty) with failed | ⟨st', ptr, -, -, -, got, -⟩
      · exact ⟨_, failed⟩
      · exact ⟨_, got⟩

end Refines

/-! ### A small heap -/

/-- 3 KiB with two bins -/
def small : Config := ⟨0, 3072, some ⟨2, 1, 11, 11, 0, 0⟩⟩

def smallGeometry : Geometry := ⟨2, 1, 11, 11, 0, 0⟩

/-- A process with addresses of 32 bits -/
def mapped (origin : Nat) : Mapping := ⟨⟨32, .inl rfl⟩, origin⟩

def opened (origin : Nat) : Option TalcMeta := claim (mapped origin) (.null (mapped origin).target fun _ => 0) small

def HeapOp.all (G : Geometry) (h : Shared) : List HeapOp → Option Shared
  | [] => some h
  | op :: ops => (op.apply G h).bind fun h => HeapOp.all G h ops

theorem run_of_all {limit : Nat} {cond : HeapOp → Prop} {ops : List HeapOp} {h h' : Shared}
    (allowed : ∀ op ∈ ops, op.Legal T limit ∧ cond op) (all : HeapOp.all G h ops = some h') :
    Relation.ReflTransGen (HeapStep T G limit cond) h h' := by
  induction ops generalizing h with
  | nil =>
    cases all
    exact .refl
  | cons op ops ih =>
    obtain ⟨next, step, rest⟩ := bind_eq_some_iff.mp all
    obtain ⟨legal, ok⟩ := allowed op (mem_cons_self ..)
    exact .head ⟨op, legal, ok, step⟩ (ih (fun op mem => allowed op (mem_cons_of_mem _ mem)) rest)

/-! ### Whole runs -/

section Runs

variable {m : Words} {conf : Config}

theorem claim_held (accepted : claim V (.null V.target m) conf = some st) (maps : V.Maps (conf.limit V.target)) :
    ∃ G, conf.validated V.target = some G ∧ G.Sound V.target ∧ ∀ h, Relation.ReflTransGen
        (HeapStep V.target G (conf.limit V.target) (HeapOp.Roomy (conf.limit V.target))) ⟨st, []⟩ h →
      ∃ F lists segs, Held V.target G (conf.start V.target) (conf.limit V.target) h F lists segs := by
  obtain ⟨G, F, lists, valid, sound, heap⟩ := claim_heap accepted maps
  exact ⟨G, valid, sound, fun _ run => Held.run (h := ⟨st, []⟩) ⟨heap, List.Perm.refl _, nofun⟩ sound run⟩

/-- In every run in which the requests have room, from a claim that is accepted. -/
theorem heap_refines_blocks (accepted : claim V (.null V.target m) conf = some st)
    (maps : V.Maps (conf.limit V.target)) :
    ∃ G, conf.validated V.target = some G ∧
      ∀ h, Relation.ReflTransGen
          (HeapStep V.target G (conf.limit V.target) (HeapOp.Roomy (conf.limit V.target))) ⟨st, []⟩ h →
        ∃ segs lists, Refines V.target G (conf.start V.target) (conf.limit V.target) h segs lists := by
  obtain ⟨G, valid, sound, runs⟩ := claim_held accepted maps
  refine ⟨G, valid, fun h run => ?_⟩
  obtain ⟨F, lists, segs, held⟩ := runs h run
  exact ⟨segs, lists, held.refines sound⟩

theorem heap_refines_blocks_small :
    ∃ st h segs lists, opened 0x10000 = some st ∧
      Relation.ReflTransGen (HeapStep (mapped 0x10000).target smallGeometry 3084 (HeapOp.Roomy 3084)) ⟨st, []⟩ h ∧
      h.live = [⟨40, 100, 8, 0x10000⟩] ∧ Refines (mapped 0x10000).target smallGeometry 12 3084 h segs lists := by
  have maps : (mapped 0x10000).Maps 3084 := ⟨by decide, by decide⟩
  obtain ⟨st, accepted⟩ := isSome_iff_exists.mp (by decide +kernel : (opened 0x10000).isSome = true)
  have alloc : ((opened 0x10000).bind fun st => HeapOp.all smallGeometry ⟨st, []⟩
      [.allocate (mapped 0x10000) 100 8]).map (·.live) = some [⟨40, 100, 8, 0x10000⟩] := by decide +kernel
  rw [accepted] at alloc
  obtain ⟨h, all, live⟩ := map_eq_some_iff.mp alloc
  have run : Relation.ReflTransGen (HeapStep (mapped 0x10000).target smallGeometry 3084 (HeapOp.Roomy 3084)) ⟨st, []⟩ h :=
    run_of_all (fun op mem => by
      rw [mem_singleton.mp mem]
      exact ⟨⟨rfl, maps, 3, rfl⟩, by show _ ≤ _; decide⟩) all
  obtain ⟨G, valid, refines⟩ := @heap_refines_blocks _ st _ small accepted maps
  cases valid
  obtain ⟨segs, lists, refined⟩ := refines h run
  exact ⟨st, h, segs, lists, accepted, run, live, refined⟩

/-- Close to the end of the addresses a request wraps around, and its block is larger than the heap. -/
theorem heap_block_outside :
    ∃ st h, opened 0xF0000000 = some st ∧ (mapped 0xF0000000).Maps (small.limit (mapped 0xF0000000).target) ∧
      Relation.ReflTransGen
        (HeapStep (mapped 0xF0000000).target smallGeometry (small.limit (mapped 0xF0000000).target) fun _ => True)
        ⟨st, []⟩ h ∧
      h.live = [⟨40, 0x70000000, 4, 0xF0000000⟩] ∧
      ¬∃ segs lists, Refines (mapped 0xF0000000).target smallGeometry (small.start (mapped 0xF0000000).target)
        (small.limit (mapped 0xF0000000).target) h segs lists := by
  have maps : (mapped 0xF0000000).Maps 3084 := ⟨by decide, by decide⟩
  obtain ⟨st, accepted⟩ := isSome_iff_exists.mp (by decide +kernel : (opened 0xF0000000).isSome = true)
  have alloc : ((opened 0xF0000000).bind fun st => HeapOp.all smallGeometry ⟨st, []⟩
      [.allocate (mapped 0xF0000000) 0x70000000 4]).map (·.live) = some [⟨40, 0x70000000, 4, 0xF0000000⟩] := by
    decide +kernel
  rw [accepted] at alloc
  obtain ⟨h, all, live⟩ := map_eq_some_iff.mp alloc
  refine ⟨st, h, accepted, maps, run_of_all (fun op mem => ?_) all, live, fun ⟨segs, lists, refined⟩ => ?_⟩
  · rw [mem_singleton.mp mem]
    exact ⟨⟨rfl, maps, 2, rfl⟩, trivial⟩
  · have outside := (refined.inside _ (by rw [live]; exact mem_singleton.mpr rfl)).2
    exact absurd outside (by decide)

/-- The same runs leave nothing behind. -/
theorem released_heap_single (accepted : claim V (.null V.target m) conf = some st)
    (maps : V.Maps (conf.limit V.target)) :
    ∃ G, conf.validated V.target = some G ∧
      Single V.target G (conf.start V.target) (conf.first V.target G) (conf.limit V.target) st ∧
      ∀ h, Relation.ReflTransGen
          (HeapStep V.target G (conf.limit V.target) (HeapOp.Roomy (conf.limit V.target))) ⟨st, []⟩ h →
        h.live = [] →
        Single V.target G (conf.start V.target) (conf.first V.target G) (conf.limit V.target) h.st := by
  obtain ⟨G, F, lists, valid, sound, heap⟩ := claim_heap accepted maps
  have room : conf.first V.target G < conf.limit V.target := by
    have w := bits_eq V.target
    have least := (heap.fits ⟨conf.first V.target G, conf.limit V.target - conf.first V.target G, .free⟩
      (by simp [claimed])).least
    simp only at least
    omega
  have held : Held V.target G (conf.start V.target) (conf.limit V.target) ⟨st, []⟩ F lists (claimed V.target G conf) :=
    ⟨heap, List.Perm.refl _, nofun⟩
  -- the metadata stays where it is
  have single : ∀ {h F' lists' segs'}, Held V.target G (conf.start V.target) (conf.limit V.target) h F' lists' segs' →
      h.live = [] →
      Single V.target G (conf.start V.target) (conf.first V.target G) (conf.limit V.target) h.st := by
    intro h F' lists' segs' held' empty
    have none : blocks segs' = [] := by
      have := held'.live
      rw [empty] at this
      exact this.nil_eq.symm
    refine held'.heap.single sound none ?_ room
    have places := held'.heap.rooted.1
    have bytes := metadataBytes_eq V.target G
    unfold Config.first
    omega
  refine ⟨G, valid, single held rfl, fun h run empty => ?_⟩
  obtain ⟨F', lists', segs', held'⟩ := held.run sound run
  exact single held' empty

theorem released_heap_single_small :
    ∃ st h, opened 0x10000 = some st ∧
      Relation.ReflTransGen (HeapStep (mapped 0x10000).target smallGeometry 3084 (HeapOp.Roomy 3084)) ⟨st, []⟩ h ∧
      h.live = [] ∧ Single (mapped 0x10000).target smallGeometry 12 40 3084 h.st := by
  have maps : (mapped 0x10000).Maps 3084 := ⟨by decide, by decide⟩
  obtain ⟨st, accepted⟩ := isSome_iff_exists.mp (by decide +kernel : (opened 0x10000).isSome = true)
  have ops : ((opened 0x10000).bind fun st => HeapOp.all smallGeometry ⟨st, []⟩
      [.allocate (mapped 0x10000) 100 8, .allocate (mapped 0x10000) 10 64,
        .deallocate (mapped 0x10000) ⟨40, 100, 8, 0x10000⟩,
        .deallocate (mapped 0x10000) ⟨192, 10, 64, 0x10000⟩]).map (·.live) = some [] := by
    decide +kernel
  rw [accepted] at ops
  obtain ⟨h, all, live⟩ := map_eq_some_iff.mp ops
  have run : Relation.ReflTransGen (HeapStep (mapped 0x10000).target smallGeometry 3084 (HeapOp.Roomy 3084)) ⟨st, []⟩ h :=
    run_of_all (fun op mem => by
      simp only [mem_cons, not_mem_nil, or_false] at mem
      rcases mem with rfl | rfl | rfl | rfl
      · exact ⟨⟨rfl, maps, 3, rfl⟩, by show _ ≤ _; decide⟩
      · exact ⟨⟨rfl, maps, 6, rfl⟩, by show _ ≤ _; decide⟩
      · exact ⟨⟨rfl, maps⟩, trivial⟩
      · exact ⟨⟨rfl, maps⟩, trivial⟩) all
  obtain ⟨G, valid, -, single⟩ := @released_heap_single _ st _ small accepted maps
  cases valid
  exact ⟨st, h, accepted, run, live, single h run live⟩

/-- The release of a block that is larger than the heap leaves both bins marked. -/
theorem released_heap_marked :
    ∃ st h, opened 0xF0000000 = some st ∧ (mapped 0xF0000000).Maps (small.limit (mapped 0xF0000000).target) ∧
      Relation.ReflTransGen
        (HeapStep (mapped 0xF0000000).target smallGeometry (small.limit (mapped 0xF0000000).target) fun _ => True)
        ⟨st, []⟩ h ∧
      h.live = [] ∧ st.mem (st.availPtr (mapped 0xF0000000).target 0) = 2 ∧
      h.st.mem (h.st.availPtr (mapped 0xF0000000).target 0) = 3 := by
  have maps : (mapped 0xF0000000).Maps 3084 := ⟨by decide, by decide⟩
  obtain ⟨st, accepted⟩ := isSome_iff_exists.mp (by decide +kernel : (opened 0xF0000000).isSome = true)
  have before : (opened 0xF0000000).map (fun st => st.mem (st.availPtr (mapped 0xF0000000).target 0)) = some 2 := by
    decide +kernel
  have ops : ((opened 0xF0000000).bind fun st => HeapOp.all smallGeometry ⟨st, []⟩
      [.allocate (mapped 0xF0000000) 0x70000000 4,
        .deallocate (mapped 0xF0000000) ⟨40, 0x70000000, 4, 0xF0000000⟩]).map
        (fun h => (h.live, h.st.mem (h.st.availPtr (mapped 0xF0000000).target 0))) = some ([], 3) := by
    decide +kernel
  rw [accepted] at ops before
  obtain ⟨h, all, result⟩ := map_eq_some_iff.mp ops
  obtain ⟨live, word⟩ := Prod.mk.inj result
  refine ⟨st, h, accepted, maps, run_of_all (fun op mem => ?_) all, live, Option.some.inj before, word⟩
  simp only [mem_cons, not_mem_nil, or_false] at mem
  rcases mem with rfl | rfl
  · exact ⟨⟨rfl, maps, 2, rfl⟩, trivial⟩
  · exact ⟨⟨rfl, maps⟩, trivial⟩

end Runs

end Evering.Talc
