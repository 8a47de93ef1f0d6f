import Mathlib.Data.List.Chain
import Evering.Memory.Tiling
import Evering.Talc.Search

/-!
# The chunks of the heap

The heap is tiled by segments: the metadata, chunks in use, each with the block of its user, and free chunks, of which
no two are neighbours. While an operation runs there is a hole between the segments below it and those above it. The
operations take a free chunk into the hole, put a free chunk at one end of it, or close it with a chunk in use or with
a free one.
-/

namespace Evering.Talc

open Memory Function List

variable {T : Target} {G : Geometry} {st st' : TalcMeta} {F : Nat → Option Nat} {lists : Nat → List Nat}

/-! ### Tags -/

theorem low_bits {n : Nat} (aligned : n % 4 = 0) : n.testBit 0 = false ∧ n.testBit 1 = false := by
  simp only [Nat.testBit_eq_decide_div_mod_eq]
  constructor <;> simp <;> omega

namespace Tag

variable {base : Nat} {above : Bool}

theorem lt_new (base : Nat) (above : Bool) (aligned : base % 4 = 0) : new base above < base + 4 := by
  obtain ⟨q, is_q⟩ : ∃ q, base = 2 ^ 2 * q := ⟨base / 4, by omega⟩
  unfold new
  rw [is_q]
  cases above
  · rw [← Nat.two_pow_add_eq_or_of_lt (by decide)]
    simp
  · rw [← Nat.two_pow_add_eq_or_of_lt (by decide)]
    simp

@[simp] theorem isAllocated_new (base : Nat) (above : Bool) : isAllocated (new base above) = true := by
  cases above <;> simp [isAllocated, new]

theorem isAboveFree_new (aligned : base % 4 = 0) : isAboveFree (new base above) = above := by
  have low := (low_bits aligned).2
  cases above <;> simp [isAboveFree, new, low] <;> decide

theorem isAllocated_size (aligned : base % 4 = 0) : isAllocated base = false := (low_bits aligned).1

theorem setAboveFree_new (base : Nat) : setAboveFree (new base false) = new base true := by
  simp only [setAboveFree, new, Nat.or_assoc]
  rfl

theorem testBit_mask {x n : Nat} (mask : Nat) (small : mask < span T) (lt : x < span T) :
    (x &&& (span T - 1 - mask)).testBit n = (x.testBit n && !mask.testBit n) := by
  rw [Nat.sub_sub, Nat.add_comm 1, Nat.testBit_and, span, Nat.testBit_two_pow_sub_succ small]
  by_cases inside : n < T.bits
  · simp [inside]
  · rw [Nat.testBit_lt_two_pow (Nat.lt_of_lt_of_le lt (Nat.pow_le_pow_right (by omega) (by omega)))]
    simp

theorem span_gt (T : Target) : 4 < span T := by
  rcases wordBytes_cases T with ⟨-, bits⟩ | ⟨-, bits⟩ <;> rw [span, bits] <;> decide

theorem high_bits {n i : Nat} (small : n < 4) (le : 2 ≤ i) : n.testBit i = false :=
  Nat.testBit_lt_two_pow (Nat.lt_of_lt_of_le small (Nat.pow_le_pow_right (by omega : 0 < 2) le))

theorem new_lt (aligned : base % 4 = 0) (lt : base + 4 ≤ span T) : new base above < span T := by
  have := lt_new base above aligned
  omega

theorem toBaseRel_new (aligned : base % 4 = 0) (lt : base + 4 ≤ span T) : toBaseRel T (new base above) = base := by
  have large := span_gt T
  refine Nat.eq_of_testBit_eq fun i => ?_
  rw [toBaseRel, testBit_mask 3 (by omega) (new_lt aligned lt), new, Nat.testBit_or]
  rcases i with _ | _ | i
  · rw [(low_bits aligned).1]
    cases above <;> rfl
  · rw [(low_bits aligned).2]
    cases above <;> rfl
  · have flags : (if above then 3 else 1).testBit (i + 1 + 1) = false := high_bits (by split <;> omega) (by omega)
    rw [flags, high_bits (n := 3) (by omega) (by omega)]
    simp

theorem clearAboveFree_new (aligned : base % 4 = 0) (lt : base + 4 ≤ span T) :
    clearAboveFree T (new base true) = new base false := by
  have large := span_gt T
  refine Nat.eq_of_testBit_eq fun i => ?_
  rw [clearAboveFree, testBit_mask 2 (by omega) (new_lt aligned lt), new, new, Nat.testBit_or, Nat.testBit_or]
  rcases i with _ | _ | i
  · rw [(low_bits aligned).1]
    rfl
  · rw [(low_bits aligned).2]
    rfl
  · simp only [if_true, Bool.false_eq_true, if_false]
    rw [high_bits (n := 1) (by omega) (by omega), high_bits (n := 2) (by omega) (by omega),
      high_bits (n := 3) (by omega) (by omega)]
    simp

end Tag

/-! ### Segments -/

inductive Use
  | free
  /-- the metadata -/
  | pinned
  /-- in use, with the block of the user -/
  | block (ptr size : Nat)
  deriving DecidableEq

structure Seg where
  base : Nat
  size : Nat
  use : Use
  deriving DecidableEq

namespace Seg

def acme (seg : Seg) : Nat := seg.base + seg.size

def isFree (seg : Seg) : Bool := seg.use = .free

/-- The place of the word at which `from_alloc_base` looks for the tag of a block. -/
def post (T : Target) (ptr size : Nat) : Nat := roundUp T (ptr + size)

structure Fits (T : Target) (seg : Seg) : Prop where
  base : seg.base % wordBytes T = 0
  size : seg.size % wordBytes T = 0
  least : 4 * wordBytes T ≤ seg.size
  block : ∀ {ptr size}, seg.use = .block ptr size →
    seg.base ≤ ptr ∧ ptr % wordBytes T = 0 ∧ 0 < size ∧ post T ptr size + wordBytes T ≤ seg.acme

/-- Words outside of the block that belong to a segment in use -/
def Watched (T : Target) (seg : Seg) (o : Nat) : Prop :=
  match seg.use with
  | .free => False
  | .pinned => o = seg.acme - wordBytes T
  | .block ptr size => o = seg.acme - wordBytes T ∨ o = post T ptr size

/-- A segment in use says where it begins and whether the next one is free, and its block leads to the tag. -/
def TagAt (T : Target) (m : Words) (seg : Seg) (above : Bool) : Prop :=
  match seg.use with
  | .free => True
  | .pinned => m (seg.acme - wordBytes T) = Tag.new seg.base above
  | .block ptr size => m (seg.acme - wordBytes T) = Tag.new seg.base above ∧
      (post T ptr size ≠ seg.acme - wordBytes T → m (post T ptr size) = seg.acme - wordBytes T)

variable {seg : Seg} {m m' : Words} {above : Bool} {o : Nat}

theorem TagAt.frame (tag : TagAt T m seg above) (same : ∀ o, seg.Watched T o → m' o = m o) : TagAt T m' seg above := by
  obtain ⟨base, size, use⟩ := seg
  cases use with
  | free => trivial
  | pinned => exact (same _ rfl).trans tag
  | block ptr n =>
    refine ⟨(same _ (.inl rfl)).trans tag.1, fun ne => ?_⟩
    exact (same _ (.inr rfl)).trans (tag.2 ne)

theorem TagAt.word (tag : TagAt T m seg above) (used : seg.isFree = false) :
    m (seg.acme - wordBytes T) = Tag.new seg.base above := by
  obtain ⟨base, size, use⟩ := seg
  cases use with
  | free => cases used
  | pinned => exact tag
  | block ptr n => exact tag.1

theorem TagAt.rewrite (tag : TagAt T m seg above) (fits : seg.Fits T) (above' : Bool) :
    TagAt T (update m (seg.acme - wordBytes T) (Tag.new seg.base above')) seg above' := by
  obtain ⟨base, size, use⟩ := seg
  cases use with
  | free => trivial
  | pinned => exact update_self ..
  | block ptr n =>
    refine ⟨update_self .., fun ne => ?_⟩
    rw [update_of_ne ne]
    exact tag.2 ne

theorem Fits.watched (fits : seg.Fits T) (watched : seg.Watched T o) :
    seg.isFree = false ∧ seg.base ≤ o ∧ o + wordBytes T ≤ seg.acme := by
  have w := bits_eq T
  have least := fits.least
  obtain ⟨base, size, use⟩ := seg
  simp only [acme] at *
  cases use with
  | free => cases watched
  | pinned =>
    have place : o = base + size - wordBytes T := watched
    exact ⟨rfl, by omega, by omega⟩
  | block ptr n =>
    obtain ⟨above, -, -, room⟩ := fits.block rfl
    have := le_roundUp T (ptr + n)
    simp only [acme, post] at room above
    refine ⟨rfl, ?_, ?_⟩ <;> rcases watched with place | place <;> simp only [acme, post] at place ⊢ <;> omega

end Seg

/-! ### Rows -/

/-- Whether the first segment is free, or what stands behind a row without segments -/
def headFree (segs : List Seg) (flag : Bool) : Bool := segs.head?.elim flag Seg.isFree

/-- The tags of a row of segments, with a flag for what comes behind the last one. -/
def Row (T : Target) (m : Words) (flag : Bool) : List Seg → Prop
  | [] => True
  | seg :: segs => seg.TagAt T m (headFree segs flag) ∧ Row T m flag segs

def Alternate (segs : List Seg) : Prop := segs.IsChain fun x y => ¬(x.isFree = true ∧ y.isFree = true)

theorem headFree_append (xs ys : List Seg) (flag : Bool) : headFree (xs ++ ys) flag = headFree xs (headFree ys flag) := by
  cases xs <;> rfl

theorem row_append {m : Words} {flag : Bool} {xs ys : List Seg} :
    Row T m flag (xs ++ ys) ↔ Row T m (headFree ys flag) xs ∧ Row T m flag ys := by
  induction xs with
  | nil => simp [Row]
  | cons x xs ih => simp only [cons_append, Row, ih, headFree_append, and_assoc]

theorem row_concat {m : Words} {flag : Bool} {xs : List Seg} {x : Seg} :
    Row T m flag (xs ++ [x]) ↔ Row T m x.isFree xs ∧ x.TagAt T m flag := by
  rw [row_append]
  simp [Row, headFree]

theorem Row.frame {m m' : Words} {flag : Bool} {segs : List Seg} (row : Row T m flag segs)
    (same : ∀ seg ∈ segs, ∀ o, seg.Watched T o → m' o = m o) : Row T m' flag segs := by
  induction segs with
  | nil => trivial
  | cons seg segs ih =>
    exact ⟨row.1.frame (same seg (mem_cons_self ..)), ih row.2 fun x mem => same x (mem_cons_of_mem seg mem)⟩

/-- The free chunks are the free segments. -/
def Spans (F : Nat → Option Nat) (segs : List Seg) : Prop := ∀ b s, F b = some s ↔ ⟨b, s, .free⟩ ∈ segs

section Spans

variable {segs segs' : List Seg} {b s : Nat}

theorem Spans.take (spans : Spans F segs) (parts : ∀ y, y ∈ segs ↔ y = ⟨b, s, .free⟩ ∨ y ∈ segs')
    (apart : ∀ y ∈ segs', y.base ≠ b) : Spans (update F b none) segs' := by
  intro b' s'
  by_cases same : b' = b
  · subst same
    rw [update_self]
    exact ⟨nofun, fun mem => absurd rfl (apart _ mem)⟩
  · rw [update_of_ne same, spans, parts]
    simp [same]

theorem Spans.put (spans : Spans F segs') (parts : ∀ y, y ∈ segs ↔ y = ⟨b, s, .free⟩ ∨ y ∈ segs')
    (apart : ∀ y ∈ segs', y.base ≠ b) : Spans (update F b (some s)) segs := by
  intro b' s'
  rw [parts]
  by_cases same : b' = b
  · subst same
    rw [update_self, Option.some.injEq]
    constructor
    · intro is_s
      exact .inl (by rw [is_s])
    · rintro (eq | mem)
      · injection eq with _ eq
        exact eq.symm
      · exact absurd rfl (apart _ mem)
  · rw [update_of_ne same, spans]
    simp [same]

theorem Spans.used (spans : Spans F segs) {c : Seg} (used : c.isFree = false)
    (parts : ∀ y, y ∈ segs ↔ y = c ∨ y ∈ segs') : Spans F segs' := by
  intro b' s'
  rw [spans, parts]
  refine or_iff_right fun eq => ?_
  rw [← eq] at used
  cases used

theorem Spans.use (spans : Spans F segs') {c : Seg} (used : c.isFree = false)
    (parts : ∀ y, y ∈ segs ↔ y = c ∨ y ∈ segs') : Spans F segs := by
  intro b' s'
  rw [spans, parts]
  refine (or_iff_right fun eq => ?_).symm
  rw [← eq] at used
  cases used

end Spans

/-! ### The heap and its hole -/

def metaSeg (T : Target) (G : Geometry) (start : Nat) (st : TalcMeta) : Seg :=
  ⟨start, st.bins + G.bins * (2 * wordBytes T) + wordBytes T - start, .pinned⟩

/-- The first segment is the metadata. -/
def Rooted (T : Target) (G : Geometry) (start : Nat) (st : TalcMeta) (segs : List Seg) : Prop :=
  (st.avails = start + wordBytes T ∧ st.bins = st.avails + G.availabilityWords T.bits * wordBytes T) ∧
    ∃ rest, segs = metaSeg T G start st :: rest ∧ ∀ seg ∈ rest, seg.use ≠ .pinned

structure Heap (T : Target) (G : Geometry) (start limit : Nat) (st : TalcMeta) (F : Nat → Option Nat)
    (lists : Nat → List Nat) (segs : List Seg) : Prop where
  tiles : Tiles Seg.base Seg.acme start segs limit
  inside : limit < span T
  fits : ∀ seg ∈ segs, seg.Fits T
  alternate : Alternate segs
  row : Row T st.mem false segs
  spans : Spans F segs
  binned : Binned T G st F lists
  rooted : Rooted T G start st segs

/-- The heap between `b` and `e` belongs to the operation that runs. -/
structure Hole (T : Target) (G : Geometry) (start limit : Nat) (st : TalcMeta) (F : Nat → Option Nat)
    (lists : Nat → List Nat) (pre : List Seg) (b e : Nat) (post : List Seg) (flag : Bool) : Prop where
  left : Tiles Seg.base Seg.acme start pre b
  le : b ≤ e
  word : b % wordBytes T = 0 ∧ e % wordBytes T = 0
  right : Tiles Seg.base Seg.acme e post limit
  inside : limit < span T
  fits : ∀ seg ∈ pre ++ post, seg.Fits T
  below : Alternate pre ∧ Row T st.mem flag pre
  above : Alternate post ∧ Row T st.mem false post
  spans : Spans F (pre ++ post)
  binned : Binned T G st F lists
  rooted : Rooted T G start st pre
  others : ∀ seg ∈ post, seg.use ≠ .pinned

section Hole

variable {start limit b e n x : Nat} {pre post : List Seg} {flag : Bool} {seg c : Seg}

namespace Hole

section

variable (hole : Hole T G start limit st F lists pre b e post flag)

include hole

theorem tiles : Tiles Seg.base Seg.acme start (pre ++ ⟨b, e - b, .free⟩ :: post) limit := by
  have acme : (Seg.mk b (e - b) .free).acme = e := by
    have := hole.le
    simp only [Seg.acme]
    omega
  refine Tiles.join hole.left ?_ ?_
  · rw [acme]
    exact hole.le
  · rw [acme]
    exact hole.right

theorem metadata : st.bins + G.bins * (2 * wordBytes T) + wordBytes T ≤ b ∧
      ∀ seg ∈ pre ++ post, seg.use ≠ .pinned → st.bins + G.bins * (2 * wordBytes T) + wordBytes T ≤ seg.base := by
  obtain ⟨avails, rest, shape, -⟩ := hole.rooted
  have le := hole.le
  have acme : (metaSeg T G start st).acme = st.bins + G.bins * (2 * wordBytes T) + wordBytes T := by
    simp only [metaSeg, Seg.acme]
    omega
  have left := hole.left
  rw [shape] at left
  have rest_tiles := left.2.2
  rw [acme] at rest_tiles
  have first := rest_tiles.le
  refine ⟨first, fun seg mem used => ?_⟩
  rcases mem_append.mp mem with before | after
  · rw [shape] at before
    rcases mem_cons.mp before with same | later
    · rw [same] at used
      exact absurd rfl used
    · exact (rest_tiles.bounds later).1
  · have := (hole.right.bounds after).1
    omega

theorem fits_put (fits : c.Fits T) : ∀ seg ∈ pre ++ c :: post, seg.Fits T := by
  intro seg mem
  rcases mem_append.mp mem with before | after
  · exact hole.fits seg (mem_append_left _ before)
  · rcases mem_cons.mp after with here | later
    · exact here ▸ fits
    · exact hole.fits seg (mem_append_right _ later)

theorem apart (mem : seg ∈ pre ++ post) : seg.acme ≤ b ∨ e ≤ seg.base := by
  rcases mem_append.mp mem with before | after
  · exact .inl (hole.left.bounds before).2.2
  · exact .inr (hole.right.bounds after).1

theorem free_apart {b' s' : Nat} (is_free : F b' = some s') :
    (b' + s' ≤ b ∨ e ≤ b') ∧ ∀ seg ∈ pre ++ post, seg.isFree = false → b' + s' ≤ seg.base ∨ seg.acme ≤ b' := by
  have mem := (hole.spans b' s').mp is_free
  refine ⟨hole.apart mem, fun seg mem' used => ?_⟩
  have inside : ∀ {y}, y ∈ pre ++ post → y ∈ pre ++ ⟨b, e - b, .free⟩ :: post := @((sublist_cons_self ..).append_left pre).subset
  refine hole.tiles.disjoint (inside mem') (inside mem) fun same => ?_
  rw [← same] at used
  cases used

theorem watched (mem : seg ∈ pre ++ post) {o : Nat}
    (watched : seg.Watched T o) : ¬st.InMeta T G o ∧ Outside F o ∧ (o < b ∨ e ≤ o) := by
  have w := bits_eq T
  obtain ⟨used, low, high⟩ := (hole.fits seg mem).watched watched
  refine ⟨?_, ?_, ?_⟩
  · unfold TalcMeta.InMeta
    by_cases pinned : seg.use = .pinned
    · -- the tag of the metadata is behind the bins
      have place : o = seg.acme - wordBytes T := by
        unfold Seg.Watched at watched
        rwa [pinned] at watched
      obtain ⟨avails, rest, shape, others⟩ := hole.rooted
      have is_meta : seg = metaSeg T G start st := by
        rcases mem_append.mp mem with before | after
        · rw [shape] at before
          rcases mem_cons.mp before with same | later
          · exact same
          · exact absurd pinned (others seg later)
        · exact absurd pinned (hole.others seg after)
      rw [place, is_meta]
      simp only [metaSeg, Seg.acme]
      omega
    · have := hole.metadata.2 seg mem pinned
      omega
  · intro b' s' is_free
    have := (hole.free_apart is_free).2 seg mem used
    omega
  · have := hole.apart mem
    omega

theorem word_inside {o : Nat} (low : b ≤ o) (high : o < e) : ¬st.InMeta T G o ∧ Outside F o := by
  have first := hole.metadata.1
  refine ⟨?_, fun b' s' is_free => ?_⟩
  · unfold TalcMeta.InMeta
    omega
  · have := (hole.free_apart is_free).1
    omega

theorem write (avails : st'.avails = st.avails) (bins : st'.bins = st.bins) (summary : st'.summary = st.summary)
    (same : ∀ o, o < b ∨ e ≤ o → st'.mem o = st.mem o) : Hole T G start limit st' F lists pre b e post flag := by
  refine { hole with below := ⟨hole.below.1, ?_⟩, above := ⟨hole.above.1, ?_⟩, binned := ?_, rooted := ?_ }
  · exact hole.below.2.frame fun seg mem o watched => same o (hole.watched (mem_append_left _ mem) watched).2.2
  · exact hole.above.2.frame fun seg mem o watched => same o (hole.watched (mem_append_right _ mem) watched).2.2
  · refine hole.binned.frame avails bins summary (fun o inside => same o ?_) fun b' s' is_free o low high => same o ?_
    · have := hole.metadata.1
      unfold TalcMeta.InMeta at inside
      omega
    · have := (hole.free_apart is_free).1
      omega
  · have root := hole.rooted
    unfold Rooted metaSeg at root ⊢
    rwa [avails, bins]

theorem fresh (low : b ≤ x) (high : x + n ≤ e) (size : 4 * wordBytes T ≤ n) : Fresh T G st F x n := by
  have first := hole.metadata.1
  have inside := hole.inside
  have := hole.right.le
  refine ⟨by omega, size, by omega, fun b' s' is_free => ?_⟩
  have := (hole.free_apart is_free).1
  omega

theorem base_ne (low : b ≤ x) (high : x < e) (mem : seg ∈ pre ++ post) : seg.base ≠ x := by
  have w := bits_eq T
  have := hole.apart mem
  have := (hole.fits seg mem).least
  have : seg.acme = seg.base + seg.size := rfl
  omega

end

theorem rooted_congr {segs : List Seg} (rooted : Rooted T G start st segs) (avails : st'.avails = st.avails)
    (bins : st'.bins = st.bins) : Rooted T G start st' segs := by
  unfold Rooted metaSeg at *
  rwa [avails, bins]

theorem putAbove (hole : Hole T G start limit st F lists pre b e post flag) (sound : G.Sound T) {r : Nat} (low : b ≤ r)
    (size : r + 4 * wordBytes T ≤ e) (word : r % wordBytes T = 0) (next : headFree post false = false) :
    Hole T G start limit (st.insertFree T G r (e - r)) (update F r (some (e - r)))
      (update lists (G.bin T (e - r)) (r :: lists (G.bin T (e - r)))) pre b r (⟨r, e - r, .free⟩ :: post) flag := by
  have w := bits_eq T
  have fresh := hole.fresh (n := e - r) low (by omega) (by omega)
  have same : ∀ seg ∈ pre ++ post, ∀ o, seg.Watched T o → (st.insertFree T G r (e - r)).mem o = st.mem o := by
    intro seg mem o watched
    obtain ⟨metadata, outside, chunk⟩ := hole.watched mem watched
    exact hole.binned.insertFree_outside sound fresh metadata outside (by omega)
  have acme : (Seg.mk r (e - r) .free).acme = e := by
    simp only [Seg.acme]
    omega
  refine ⟨hole.left, low, ⟨hole.word.1, word⟩, ⟨rfl, by rw [acme]; simp only; omega, by rw [acme]; exact hole.right⟩,
    hole.inside, ?_, ⟨hole.below.1, ?_⟩, ⟨?_, ?_⟩, ?_, hole.binned.insert sound fresh, ?_, ?_⟩
  · exact hole.fits_put ⟨word, Nat.sub_mod_eq_zero_of_mod_eq (hole.word.2.trans word.symm), by simp only; omega, nofun⟩
  · exact hole.below.2.frame fun seg mem => same seg (mem_append_left _ mem)
  · cases post with
    | nil => exact isChain_singleton _
    | cons y post =>
      refine isChain_cons_cons.mpr ⟨fun both => ?_, hole.above.1⟩
      rw [headFree, List.head?_cons] at next
      exact absurd both.2 (by simpa using next)
  · exact ⟨trivial, hole.above.2.frame fun seg mem => same seg (mem_append_right _ mem)⟩
  · refine hole.spans.put (fun y => ?_) fun y mem => hole.base_ne low (by omega) mem
    simp only [mem_append, mem_cons]
    exact or_left_comm
  · exact rooted_congr hole.rooted (insertFree_avails ..) (insertFree_bins ..)
  · intro seg mem
    rcases mem_cons.mp mem with here | later
    · rw [here]
      nofun
    · exact hole.others seg later

theorem putBelow (hole : Hole T G start limit st F lists pre b e post flag) (sound : G.Sound T) {r : Nat}
    (size : b + 4 * wordBytes T ≤ r) (high : r ≤ e) (word : r % wordBytes T = 0) (flagged : flag = true)
    (prev : ∀ x ∈ pre.getLast?, x.isFree = false) (flag' : Bool) :
    Hole T G start limit (st.insertFree T G b (r - b)) (update F b (some (r - b)))
      (update lists (G.bin T (r - b)) (b :: lists (G.bin T (r - b)))) (pre ++ [⟨b, r - b, .free⟩]) r e post flag' := by
  subst flagged
  have w := bits_eq T
  have fresh := hole.fresh (n := r - b) (Nat.le_refl b) (by omega) (by omega)
  have same : ∀ seg ∈ pre ++ post, ∀ o, seg.Watched T o → (st.insertFree T G b (r - b)).mem o = st.mem o := by
    intro seg mem o watched
    obtain ⟨metadata, outside, chunk⟩ := hole.watched mem watched
    exact hole.binned.insertFree_outside sound fresh metadata outside (by omega)
  have acme : (Seg.mk b (r - b) .free).acme = r := by
    simp only [Seg.acme]
    omega
  refine ⟨Tiles.join hole.left (by rw [acme]; simp only; omega) acme, high, ⟨word, hole.word.2⟩, hole.right,
    hole.inside, ?_, ⟨?_, ?_⟩, ⟨hole.above.1, ?_⟩, ?_, hole.binned.insert sound fresh, ?_, hole.others⟩
  · rw [append_assoc]
    exact hole.fits_put ⟨hole.word.1, Nat.sub_mod_eq_zero_of_mod_eq (word.trans hole.word.1.symm), by simp only; omega, nofun⟩
  · refine isChain_append.mpr ⟨hole.below.1, isChain_singleton _, fun x mem y _ both => ?_⟩
    have := prev x mem
    rw [this] at both
    cases both.1
  · refine row_concat.mpr ⟨hole.below.2.frame fun seg mem => same seg (mem_append_left _ mem), trivial⟩
  · exact hole.above.2.frame fun seg mem => same seg (mem_append_right _ mem)
  · refine hole.spans.put (fun y => ?_) fun y mem => hole.base_ne (Nat.le_refl b) (by omega) mem
    simp only [mem_append, mem_cons, not_mem_nil, or_false]
    exact or_right_comm.trans or_comm
  · have rooted : Rooted T G start (st.insertFree T G b (r - b)) pre :=
      rooted_congr hole.rooted (insertFree_avails ..) (insertFree_bins ..)
    obtain ⟨avails, rest, shape, others⟩ := rooted
    refine ⟨avails, rest ++ [⟨b, r - b, .free⟩], by rw [shape]; rfl, fun seg mem => ?_⟩
    rcases mem_append.mp mem with before | after
    · exact others seg before
    · rw [mem_singleton.mp after]
      nofun

/-- A free chunk is not the metadata, and the segments before it begin with the metadata. -/
theorem rooted_concat (rooted : Rooted T G start st (pre ++ [c])) (used : c.use ≠ .pinned) : Rooted T G start st pre := by
  obtain ⟨avails, rest, shape, others⟩ := rooted
  cases pre with
  | nil =>
    rw [nil_append, List.cons.injEq] at shape
    exact absurd (by rw [shape.1]; rfl) used
  | cons p pre =>
    rw [cons_append, List.cons.injEq] at shape
    refine ⟨avails, pre, by rw [shape.1], fun seg mem => others seg ?_⟩
    rw [← shape.2]
    exact mem_append_left _ mem

theorem takeAbove (sound : G.Sound T) {s : Nat}
    (hole : Hole T G start limit st F lists pre b e (⟨e, s, .free⟩ :: post) flag) :
    Hole T G start limit (st.removeFree T e (G.bin T s)) (update F e none)
      (update lists (G.bin T s) ((lists (G.bin T s)).erase e)) pre b (e + s) post flag := by
  have w := bits_eq T
  have mem_c : ⟨e, s, .free⟩ ∈ pre ++ (⟨e, s, .free⟩ : Seg) :: post := mem_append_right _ (mem_cons_self ..)
  have is_free : F e = some s := (hole.spans e s).mpr mem_c
  have fit := hole.fits _ mem_c
  have least := fit.least
  have keep : ∀ {seg}, seg ∈ pre ++ post → seg ∈ pre ++ (⟨e, s, .free⟩ : Seg) :: post :=
    @((sublist_cons_self ..).append_left pre).subset
  have same : ∀ seg ∈ pre ++ post, ∀ o, seg.Watched T o → (st.removeFree T e (G.bin T s)).mem o = st.mem o := by
    intro seg mem o watched
    obtain ⟨metadata, outside, -⟩ := hole.watched (keep mem) watched
    exact hole.binned.removeFree_outside sound is_free metadata outside
  have right := hole.right.2.2
  have le := hole.le
  simp only [Seg.acme] at right least
  refine ⟨hole.left, by omega, ⟨hole.word.1, ?_⟩, right, hole.inside, fun seg mem => hole.fits seg (keep mem),
    ⟨hole.below.1, ?_⟩, ⟨List.IsChain.tail hole.above.1, ?_⟩, ?_, hole.binned.remove sound is_free, ?_, ?_⟩
  · rw [Nat.add_mod, hole.word.2, fit.size]
    simp
  · exact hole.below.2.frame fun seg mem => same seg (mem_append_left _ mem)
  · exact hole.above.2.2.frame fun seg mem => same seg (mem_append_right _ mem)
  · refine hole.spans.take (s := s) (fun y => ?_) fun y mem same => ?_
    · simp only [mem_append, mem_cons]
      exact or_left_comm
    · have fit := (hole.fits y (keep mem)).least
      have acme : y.acme = y.base + y.size := rfl
      rcases mem_append.mp mem with before | after
      · have := (hole.left.bounds before).2.2
        omega
      · have := (Tiles.bounds right after).1
        omega
  · exact rooted_congr hole.rooted (removeFree_avails ..) (removeFree_bins ..)
  · exact fun seg mem => hole.others seg (mem_cons_of_mem _ mem)

theorem takeBelow (sound : G.Sound T) {s : Nat}
    (hole : Hole T G start limit st F lists (pre ++ [⟨x, s, .free⟩]) b e post flag) :
    Hole T G start limit (st.removeFree T x (G.bin T s)) (update F x none)
      (update lists (G.bin T s) ((lists (G.bin T s)).erase x)) pre x e post true := by
  have w := bits_eq T
  have mem_c : ⟨x, s, .free⟩ ∈ pre ++ [(⟨x, s, .free⟩ : Seg)] ++ post := by simp
  have is_free : F x = some s := (hole.spans x s).mpr mem_c
  have fit := hole.fits _ mem_c
  have least := fit.least
  have keep : ∀ {seg}, seg ∈ pre ++ post → seg ∈ pre ++ [(⟨x, s, .free⟩ : Seg)] ++ post := by
    rw [append_assoc]
    exact @((sublist_cons_self ..).append_left pre).subset
  have same : ∀ seg ∈ pre ++ post, ∀ o, seg.Watched T o → (st.removeFree T x (G.bin T s)).mem o = st.mem o := by
    intro seg mem o watched
    obtain ⟨metadata, outside, -⟩ := hole.watched (keep mem) watched
    exact hole.binned.removeFree_outside sound is_free metadata outside
  obtain ⟨left, -, acme⟩ := Tiles.split hole.left
  have end_x : x + s = b := acme
  have le := hole.le
  obtain ⟨chain, row⟩ := hole.below
  refine ⟨left, by omega, ⟨fit.base, hole.word.2⟩, hole.right, hole.inside, fun seg mem => hole.fits seg (keep mem),
    ⟨(isChain_append.mp chain).1, ?_⟩, ⟨hole.above.1, ?_⟩, ?_, hole.binned.remove sound is_free, ?_, hole.others⟩
  · exact (row_concat.mp row).1.frame fun seg mem => same seg (mem_append_left _ mem)
  · exact hole.above.2.frame fun seg mem => same seg (mem_append_right _ mem)
  · refine hole.spans.take (s := s) (fun y => ?_) fun y mem same => ?_
    · simp only [mem_append, mem_cons, not_mem_nil, or_false]
      exact or_right_comm.trans or_comm
    · have fit := (hole.fits y (keep mem)).least
      have acme : y.acme = y.base + y.size := rfl
      simp only at least
      rcases mem_append.mp mem with before | after
      · have := (left.bounds before).2.2
        simp only at this
        omega
      · have := (hole.right.bounds after).1
        omega
  · exact rooted_congr (rooted_concat hole.rooted nofun) (removeFree_avails ..) (removeFree_bins ..)

theorem giveUp (hole : Hole T G start limit st F lists pre b e (c :: post) flag) (used : c.isFree = false) :
    Hole T G start limit st F lists pre b c.acme post flag := by
  have keep : ∀ {seg}, seg ∈ pre ++ post → seg ∈ pre ++ c :: post := @((sublist_cons_self ..).append_left pre).subset
  have fit := hole.fits c (mem_append_right _ (mem_cons_self ..))
  obtain ⟨base, le, right⟩ := hole.right
  refine ⟨hole.left, Nat.le_trans hole.le (base ▸ le), ⟨hole.word.1, ?_⟩, right, hole.inside,
    fun seg mem => hole.fits seg (keep mem), hole.below, ⟨List.IsChain.tail hole.above.1, hole.above.2.2⟩, ?_,
    hole.binned, hole.rooted, fun seg mem => hole.others seg (mem_cons_of_mem _ mem)⟩
  · rw [Seg.acme, Nat.add_mod, fit.base, fit.size]
    simp
  · refine hole.spans.used used fun y => ?_
    simp only [mem_append, mem_cons]
    exact or_left_comm

theorem fill (hole : Hole T G start limit st F lists pre b e post flag) {use : Use}
    (used : (Seg.mk b (e - b) use).isFree = false) (block : use ≠ .pinned) (fits : (Seg.mk b (e - b) use).Fits T)
    (tag : (Seg.mk b (e - b) use).TagAt T st.mem (headFree post false)) :
    Hole T G start limit st F lists pre b b (⟨b, e - b, use⟩ :: post) flag := by
  have le := hole.le
  have acme : (Seg.mk b (e - b) use).acme = e := by
    simp only [Seg.acme]
    omega
  refine ⟨hole.left, Nat.le_refl b, ⟨hole.word.1, hole.word.1⟩,
    ⟨rfl, by rw [acme]; exact hole.le, by rw [acme]; exact hole.right⟩, hole.inside, ?_, hole.below, ⟨?_, tag, hole.above.2⟩,
    ?_, hole.binned, hole.rooted, ?_⟩
  · exact hole.fits_put fits
  · refine isChain_cons.mpr ⟨fun y _ both => ?_, hole.above.1⟩
    rw [used] at both
    cases both.1
  · refine hole.spans.use used fun y => ?_
    simp only [mem_append, mem_cons]
    exact or_left_comm
  · intro seg mem
    rcases mem_cons.mp mem with here | later
    · rw [here]
      exact block
    · exact hole.others seg later

theorem flagBelow (hole : Hole T G start limit st F lists (pre ++ [c]) b e post flag) (used : c.isFree = false)
    (flag' : Bool) :
    Hole T G start limit (st.write (b - wordBytes T) (Tag.new c.base flag')) F lists (pre ++ [c]) b e post flag' := by
  have w := bits_eq T
  have mem_c : c ∈ pre ++ [c] ++ post := by simp
  have fit := hole.fits c mem_c
  have least := fit.least
  obtain ⟨left, le, acme⟩ := Tiles.split hole.left
  have end_c : c.acme = b := acme
  have size : c.acme = c.base + c.size := rfl
  have tagged := (row_concat.mp hole.below.2).2
  have watched_c : c.Watched T (b - wordBytes T) := by
    rw [← end_c]
    obtain ⟨base, size, use⟩ := c
    cases use with
    | free => cases used
    | pinned => rfl
    | block ptr n => exact .inl rfl
  obtain ⟨metadata, outside, -⟩ := hole.watched mem_c watched_c
  -- the word is in no other segment
  have same : ∀ {o}, o ≠ b - wordBytes T → (st.write (b - wordBytes T) (Tag.new c.base flag')).mem o = st.mem o :=
    fun ne => update_of_ne ne ..
  refine { hole with
    below := ⟨hole.below.1, row_concat.mpr ⟨?_, ?_⟩⟩, above := ⟨hole.above.1, ?_⟩, binned := ?_,
    rooted := rooted_congr hole.rooted rfl rfl }
  · refine (row_concat.mp hole.below.2).1.frame fun seg mem o watched => same ?_
    have := ((hole.fits seg (by simp [mem])).watched watched).2.2
    have := (left.bounds mem).2.2
    omega
  · have := tagged.rewrite fit flag'
    rwa [end_c] at this
  · refine hole.above.2.frame fun seg mem o watched => same ?_
    have := ((hole.fits seg (by simp [mem])).watched watched).2.1
    have := (hole.right.bounds mem).1
    have := hole.le
    omega
  · refine hole.binned.frame rfl rfl rfl (fun o inside => same ?_) fun b' s' is_free o low high => same ?_
    · exact fun eq => metadata (eq ▸ inside)
    · have := outside b' s' is_free
      omega

end Hole

namespace Heap

variable {segs : List Seg}

theorem cut (heap : Heap T G start limit st F lists (pre ++ c :: post)) (used : c.use ≠ .pinned) :
    Hole T G start limit st F lists pre c.base c.base (c :: post) c.isFree := by
  obtain ⟨left, le, right⟩ := heap.tiles.split
  have fit := heap.fits c (mem_append_right _ (mem_cons_self ..))
  obtain ⟨low, high⟩ := row_append.mp heap.row
  obtain ⟨chain_low, chain_high, -⟩ := isChain_append.mp heap.alternate
  obtain ⟨avails, rest, shape, others⟩ := heap.rooted
  cases pre with
  | nil =>
    rw [nil_append, List.cons.injEq] at shape
    exact absurd (by rw [shape.1]; rfl) used
  | cons p pre =>
    rw [cons_append, List.cons.injEq] at shape
    refine ⟨left, Nat.le_refl _, ⟨fit.base, fit.base⟩, ⟨rfl, le, right⟩, heap.inside, heap.fits, ⟨chain_low, low⟩,
      ⟨chain_high, high⟩, heap.spans, heap.binned, ⟨avails, pre, by rw [shape.1], fun seg mem => others seg ?_⟩,
      fun seg mem => others seg ?_⟩
    · rw [← shape.2]
      exact mem_append_left _ mem
    · rw [← shape.2]
      exact mem_append_right _ mem

theorem around (heap : Heap T G start limit st F lists (pre ++ c :: post)) (is_free : c.isFree = true) :
    (∀ x ∈ pre.getLast?, x.isFree = false) ∧ headFree post false = false := by
  obtain ⟨-, chain, border⟩ := isChain_append.mp heap.alternate
  constructor
  · intro x mem
    have := border x mem c rfl
    rwa [and_iff_left is_free, Bool.not_eq_true] at this
  · cases post with
    | nil => rfl
    | cons y post =>
      have := (isChain_cons_cons.mp chain).1
      rwa [and_iff_right is_free, Bool.not_eq_true] at this

end Heap

theorem Hole.whole (hole : Hole T G start limit st F lists pre b b post (headFree post false))
    (border : ∀ x ∈ pre.getLast?, ∀ y ∈ post.head?, ¬(x.isFree = true ∧ y.isFree = true)) :
    Heap T G start limit st F lists (pre ++ post) := by
  obtain ⟨avails, rest, shape, others⟩ := hole.rooted
  refine ⟨tiles_append.mpr ⟨b, hole.left, hole.right⟩, hole.inside, hole.fits,
    isChain_append.mpr ⟨hole.below.1, hole.above.1, border⟩, row_append.mpr ⟨hole.below.2, hole.above.2⟩, hole.spans,
    hole.binned, avails, rest ++ post, by rw [shape]; rfl, fun seg mem => ?_⟩
  rcases mem_append.mp mem with before | after
  · exact others seg before
  · exact hole.others seg after

end Hole

end Evering.Talc
