import Evering.Talc.Chunks

/-!
# Allocating and releasing

`allocate` takes a free chunk out of its bin, puts back what it does not need at both ends, and tags the rest.
`deallocate` finds the tag behind a block, joins the chunk with its free neighbours and puts it into its bin. Both keep
the heap, and change its blocks by the one they give or take.
-/

namespace Evering.Talc

open Memory Function List

variable {V : Mapping} {T : Target} {G : Geometry} {st st' : TalcMeta} {F : Nat → Option Nat} {lists : Nat → List Nat}
  {start limit b e p n q : Nat} {pre post segs : List Seg} {flag : Bool} {c : Seg}

def Seg.block? (seg : Seg) : Option (Nat × Nat) :=
  match seg.use with
  | .block ptr size => some (ptr, size)
  | _ => none

/-- The blocks of the heap, with their sizes -/
def blocks (segs : List Seg) : List (Nat × Nat) := segs.filterMap Seg.block?

theorem blocks_append (xs ys : List Seg) : blocks (xs ++ ys) = blocks xs ++ blocks ys := filterMap_append

@[simp] theorem blocks_free (b s : Nat) (xs : List Seg) : blocks (⟨b, s, .free⟩ :: xs) = blocks xs := rfl

@[simp] theorem blocks_block (b s p n : Nat) (xs : List Seg) : blocks (⟨b, s, .block p n⟩ :: xs) = (p, n) :: blocks xs :=
  rfl

theorem exists_of_mem_blocks (mem : (p, n) ∈ blocks segs) : ∃ b s, ⟨b, s, .block p n⟩ ∈ segs := by
  obtain ⟨⟨b, s, use⟩, mem, is_block⟩ := mem_filterMap.mp mem
  cases use with
  | free => cases is_block
  | pinned => cases is_block
  | block p' n' =>
    cases is_block
    exact ⟨b, s, mem⟩

/-! ### Splitting -/

theorem Seg.Fits.four (fit : c.Fits T) : c.base % 4 = 0 ∧ c.size % 4 = 0 := by
  have base := fit.base
  have size := fit.size
  rcases wordBytes_cases T with ⟨w, -⟩ | ⟨w, -⟩ <;>
  · rw [w] at base size
    omega

theorem isChunk_eq (inside : V.origin + e < span V.target) (le : b ≤ e) :
    isChunk V ⟨b, e⟩ = decide (b + 4 * wordBytes V.target ≤ e) := by
  unfold isChunk minChunkSize nodeBytes
  simp only
  rw [addr_eq inside, addr_eq (by omega), sub_eq le (by omega), decide_eq_false (by omega), Bool.not_false, Bool.true_and]
  exact decide_eq_decide.mpr (by omega)

theorem splitPrefix_eq {a : Nat} (inside : V.origin + e < span V.target) (low : b ≤ a)
    (high : a + 4 * wordBytes V.target ≤ e) : splitPrefix V ⟨b, e⟩ a =
      if b + 4 * wordBytes V.target ≤ a then (some ⟨b, a⟩, ⟨a, e⟩) else (none, ⟨b, e⟩) := by
  have last : sub V.target e (minChunkSize V.target) = e - 4 * wordBytes V.target := by
    rw [minChunkSize, nodeBytes, sub_eq (by omega) (by omega)]
    omega
  have acme : (if V.addr a ≤ V.addr (e - 4 * wordBytes V.target) then a else e - 4 * wordBytes V.target) = a := by
    rw [addr_eq (by omega), addr_eq (by omega), if_pos (by omega)]
  unfold splitPrefix
  simp only [last, acme, isChunk_eq (show V.origin + a < span V.target by omega) low, decide_eq_true_eq]

theorem splitSuffix_eq (inside : V.origin + e < span V.target) (least : b + 4 * wordBytes V.target ≤ e)
    (room : q + wordBytes V.target ≤ e) : splitSuffix V ⟨b, e⟩ q =
      if max (b + 3 * wordBytes V.target) q + 5 * wordBytes V.target ≤ e then
        (some ⟨max (b + 3 * wordBytes V.target) q + wordBytes V.target, e⟩,
          ⟨b, max (b + 3 * wordBytes V.target) q + wordBytes V.target⟩, max (b + 3 * wordBytes V.target) q)
      else (none, ⟨b, e⟩, e - wordBytes V.target) := by
  have w := bits_eq V.target
  have tag : (if V.addr (b + 3 * wordBytes V.target) ≤ V.addr q then q else b + 3 * wordBytes V.target) =
      max (b + 3 * wordBytes V.target) q := by
    rw [addr_eq (by omega), addr_eq (by omega)]
    split <;> omega
  unfold splitSuffix nodeBytes
  simp only [add_eq (T := V.target) (p := b) (n := 3 * wordBytes V.target) (by omega), tag]
  rw [add_eq (by omega), isChunk_eq inside (by omega), sub_eq (by omega) (by omega)]
  simp only [decide_eq_true_eq]
  refine if_congr ?_ rfl rfl
  omega

/-! ### Allocating -/

theorem Hole.keepFront (sound : G.Sound V.target) (inside : V.origin + e < span V.target) {a : Nat}
    (hole : Hole V.target G start limit st F lists pre b e post true) (prev : ∀ x ∈ pre.getLast?, x.isFree = false)
    (low : b ≤ a) (word : a % wordBytes V.target = 0) (high : a + 4 * wordBytes V.target ≤ e) :
    ∃ F' lists' pre' b', (splitPrefix V ⟨b, e⟩ a).2 = ⟨b', e⟩ ∧ b' ≤ a ∧ blocks pre' = blocks pre ∧
      Hole V.target G start limit (Talc.keepFront V G st (splitPrefix V ⟨b, e⟩ a).1 ⟨b', e⟩) F' lists' pre' b' e post
        false := by
  rw [splitPrefix_eq inside low high]
  split
  · rename_i large
    have put := hole.putBelow sound large (by omega) word rfl prev false
    rw [← sub_eq (T := V.target) low (by omega)] at put
    refine ⟨_, _, _, a, rfl, Nat.le_refl a, ?_, put⟩
    rw [blocks_append]
    exact append_nil _
  · refine ⟨F, lists, pre, b, rfl, low, rfl, ?_⟩
    obtain ⟨-, rest, shape, -⟩ := hole.rooted
    have nonempty : pre ≠ [] := by
      rw [shape]
      exact cons_ne_nil _ _
    obtain ⟨pre, c, rfl⟩ : ∃ xs x, pre = xs ++ [x] := ⟨_, _, (dropLast_append_getLast nonempty).symm⟩
    have used : c.isFree = false := prev c (by simp)
    have w := bits_eq V.target
    have fit := hole.fits c (by simp)
    have least := fit.least
    have end_c : c.acme = b := (Tiles.split hole.left).2.2
    have size : c.acme = c.base + c.size := rfl
    have tag := (row_concat.mp hole.below.2).2.word used
    rw [end_c] at tag
    have flagged := hole.flagBelow used false
    unfold Talc.keepFront
    simp only
    rw [sub_eq (by omega) (by omega), tag, Tag.clearAboveFree_new fit.four.1 (by omega)]
    exact flagged

theorem Hole.settle (hole : Hole T G start limit st F lists pre b e post false)
    (fits : (Seg.mk b (e - b) (.block p n)).Fits T) : Heap T G start limit
      (acmeTag (st.write (e - wordBytes T) (Tag.new b (headFree post false))) (e - wordBytes T) (Seg.post T p n)) F lists
      (pre ++ ⟨b, e - b, .block p n⟩ :: post) := by
  have w := bits_eq T
  have le := hole.le
  obtain ⟨low, -, pos, room⟩ := fits.block rfl
  have acme : (Seg.mk b (e - b) (.block p n)).acme = e := by
    simp only [Seg.acme]
    omega
  have past := le_roundUp T (p + n)
  rw [acme] at room
  simp only at low
  generalize words : acmeTag (st.write (e - wordBytes T) (Tag.new b (headFree post false))) (e - wordBytes T)
    (Seg.post T p n) = st'
  have post_low : b ≤ Seg.post T p n := by
    unfold Seg.post
    omega
  have same : ∀ o, o ≠ e - wordBytes T → o ≠ Seg.post T p n → st'.mem o = st.mem o := by
    intro o tag relocated
    rw [← words]
    unfold acmeTag
    split
    · exact (update_of_ne relocated ..).trans (update_of_ne tag ..)
    · exact update_of_ne tag ..
  have fields : st'.avails = st.avails ∧ st'.bins = st.bins ∧ st'.summary = st.summary := by
    rw [← words]
    unfold acmeTag
    split <;> exact ⟨rfl, rfl, rfl⟩
  have written : Hole T G start limit st' F lists pre b e post false :=
    hole.write fields.1 fields.2.1 fields.2.2 fun o outside => same o (by omega) (by omega)
  have used : (Seg.mk b (e - b) (.block p n)).isFree = false := rfl
  refine (written.fill used (by simp) fits ⟨?_, ?_⟩).whole fun x _ y head both => ?_
  · rw [acme, ← words]
    unfold acmeTag
    split
    · rename_i ne
      exact (update_of_ne ne ..).trans (update_self ..)
    · exact update_self ..
  · rw [acme, ← words]
    intro ne
    unfold acmeTag
    rw [if_pos (Ne.symm ne)]
    exact update_self ..
  · cases head
    cases both.2

theorem Hole.keepRest (sound : G.Sound V.target) (inside : V.origin + e < span V.target)
    (hole : Hole V.target G start limit st F lists pre b e post false) (next : headFree post false = false)
    (low : b ≤ p) (word : p % wordBytes V.target = 0) (pos : 0 < n) (least : p + 4 * wordBytes V.target ≤ e)
    (room : p + roundUp V.target n + wordBytes V.target ≤ e) (is_q : q = p + roundUp V.target n) :
    ∃ F' lists' segs', (blocks segs').Perm ((p, n) :: blocks (pre ++ post)) ∧ Heap V.target G start limit
        (acmeTag (Talc.keepRest V G st (splitSuffix V ⟨b, e⟩ q).1 (splitSuffix V ⟨b, e⟩ q).2.1
          (splitSuffix V ⟨b, e⟩ q).2.2) (splitSuffix V ⟨b, e⟩ q).2.2 q) F' lists' segs' := by
  have w := bits_eq V.target
  have is_post : Seg.post V.target p n = q := by rw [Seg.post, roundUp_add word, is_q]
  have perm : ∀ s post', blocks post' = blocks post →
      (blocks (pre ++ (⟨b, s, .block p n⟩ : Seg) :: post')).Perm ((p, n) :: blocks (pre ++ post)) := by
    intro s post' same
    rw [blocks_append, blocks_append, blocks_block, same]
    exact perm_middle
  have words : b % wordBytes V.target = 0 ∧ e % wordBytes V.target = 0 := hole.word
  have rounded : roundUp V.target n % wordBytes V.target = 0 := Nat.mul_mod_left ..
  rw [splitSuffix_eq inside (by omega) (by omega)]
  generalize is_tag : max (b + 3 * wordBytes V.target) q = tag
  have tag_word : tag % wordBytes V.target = 0 := by
    rcases wordBytes_cases V.target with ⟨w', -⟩ | ⟨w', -⟩ <;>
    · rw [w'] at words rounded word is_tag ⊢
      omega
  split
  · rename_i large
    have next_word : (tag + wordBytes V.target) % wordBytes V.target = 0 := by
      rw [Nat.add_mod_right]
      exact tag_word
    have put := hole.putAbove sound (r := tag + wordBytes V.target) (by omega) (by omega) next_word next
    have fits : (Seg.mk b (tag + wordBytes V.target - b) (.block p n)).Fits V.target := by
      refine ⟨words.1, ?_, by simp only; omega, ?_⟩
      · rcases wordBytes_cases V.target with ⟨w', -⟩ | ⟨w', -⟩ <;>
        · rw [w'] at words next_word ⊢
          simp only
          omega
      · intro ptr size same
        cases same
        refine ⟨low, word, pos, ?_⟩
        rw [is_post]
        simp only [Seg.acme]
        omega
    have settled := put.settle fits
    rw [Nat.add_sub_cancel, is_post, ← sub_eq (T := V.target) (p := e) (by omega) (by omega)] at settled
    exact ⟨_, _, _, perm _ (_ :: post) rfl, settled⟩
  · have fits : (Seg.mk b (e - b) (.block p n)).Fits V.target := by
      refine ⟨words.1, ?_, by simp only; omega, ?_⟩
      · rcases wordBytes_cases V.target with ⟨w', -⟩ | ⟨w', -⟩ <;>
        · rw [w'] at words ⊢
          simp only
          omega
      · intro ptr size same
        cases same
        refine ⟨low, word, pos, ?_⟩
        rw [is_post]
        simp only [Seg.acme]
        omega
    have settled := hole.settle fits
    rw [next, is_post] at settled
    exact ⟨_, _, _, perm _ _ rfl, settled⟩

theorem Heap.bounded (heap : Heap T G start limit st F lists segs) : Bounded T F limit := by
  constructor
  · intro b s is_free
    have := heap.tiles.bounds ((heap.spans b s).mp is_free)
    exact this.2.2
  · intro b s is_free
    exact (heap.fits _ ((heap.spans b s).mp is_free)).base

/-- `allocate` fails, and leaves the heap as it is, or gives a block of the heap that is aligned in the process. -/
theorem Heap.allocate (heap : Heap V.target G start limit st F lists segs) (sound : G.Sound V.target) {size align : Nat}
    (room : Room V limit size align) (pos : 0 < size) : Talc.allocate V G st size align = some (st, none) ∨
      ∃ st' ptr F' lists' segs', Talc.allocate V G st size align = some (st', some ptr) ∧
        Heap V.target G start limit st' F' lists' segs' ∧ (V.origin + ptr) % align = 0 ∧
        (blocks segs').Perm ((ptr, size) :: blocks segs) := by
  have above := room.above
  have w := bits_eq V.target
  unfold Talc.allocate
  rw [if_neg (by omega)]
  rcases acquireChunk_spec heap.binned sound heap.bounded room with ⟨failed, -⟩ | ⟨found, s, got, is_found⟩
  · rw [failed]
    exact .inl rfl
  · rw [got]
    obtain ⟨least, fits, -⟩ := @chunkSize_spec V.target size (by omega)
    obtain ⟨⟨b, e⟩, p, q⟩ := found
    obtain ⟨is_free, acme, low, word, aligned, room', is_q⟩ := is_found
    simp only at is_free acme low word aligned room' is_q
    have mem := (heap.spans b s).mp is_free
    have bound := heap.bounded.inside is_free
    obtain ⟨pre, post, split⟩ := append_of_mem mem
    subst split acme
    obtain ⟨prev, next⟩ := heap.around rfl
    have taken : Hole _ _ _ _ _ _ _ pre b (b + s) post true := Hole.takeAbove sound (heap.cut nofun)
    obtain ⟨F₁, lists₁, pre₁, b₁, chunk, le, same, front⟩ :=
      taken.keepFront sound (V := V) (by omega) prev low word (by omega)
    obtain ⟨F₂, lists₂, segs₂, perm, settled⟩ :=
      front.keepRest (n := size) sound (by omega) next le word pos (by omega) (by omega) is_q
    refine .inr ⟨_, p, F₂, lists₂, segs₂, rfl, ?_, aligned, ?_⟩
    · rw [← chunk] at settled
      exact settled
    · rw [blocks_append, same, ← blocks_append] at perm
      rw [blocks_append, blocks_free, ← blocks_append]
      exact perm

/-! ### Releasing -/

theorem Heap.fromAllocBase (maps : V.Maps limit)
    (heap : Heap V.target G start limit st F lists (pre ++ ⟨b, e, .block p n⟩ :: post)) :
    Talc.fromAllocBase V st p n = b + e - wordBytes V.target ∧
      st.mem (b + e - wordBytes V.target) = Tag.new b (headFree post false) := by
  have w := bits_eq V.target
  have inside := maps.inside
  have fit := heap.fits _ (mem_append_right pre (mem_cons_self ..))
  have bound := (heap.tiles.bounds (mem_append_right pre (mem_cons_self ..))).2.2
  have least := fit.least
  obtain ⟨low, -, pos, room⟩ := fit.block rfl
  obtain ⟨tag, relocated⟩ := (row_append.mp heap.row).2.1
  have past := le_roundUp V.target (p + n)
  have small := Tag.lt_new b (headFree post false) fit.four.1
  simp only [Seg.acme, Seg.post] at *
  refine ⟨?_, tag⟩
  unfold Talc.fromAllocBase
  rw [add_eq (by omega), alignUp_word maps (by omega)]
  simp only
  by_cases here : roundUp V.target (p + n) = b + e - wordBytes V.target
  · -- the tag is behind the block, and its word is below its place
    rw [here, tag]
    exact if_neg (by omega)
  · rw [relocated here]
    exact if_pos (by omega)

theorem Hole.joinBelow (sound : G.Sound V.target) (inside : limit < span V.target)
    (hole : Hole V.target G start limit st F lists pre b e post false) :
    ∃ F' lists' pre' b', (Talc.joinBelow V G st b).2 = b' ∧ b' ≤ b ∧ (∀ x ∈ pre'.getLast?, x.isFree = false) ∧
      blocks pre' = blocks pre ∧ (∀ o, b ≤ o → o < e → (Talc.joinBelow V G st b).1.mem o = st.mem o) ∧
      Hole V.target G start limit (Talc.joinBelow V G st b).1 F' lists' pre' b' e post true := by
  have w := bits_eq V.target
  have bound := hole.right.le
  have le := hole.le
  obtain ⟨-, rest, shape, -⟩ := hole.rooted
  have nonempty : pre ≠ [] := by
    rw [shape]
    exact cons_ne_nil _ _
  obtain ⟨pre, c, rfl⟩ : ∃ xs x, pre = xs ++ [x] := ⟨_, _, (dropLast_append_getLast nonempty).symm⟩
  have fit := hole.fits c (by simp)
  have least := fit.least
  have end_c : c.acme = b := (Tiles.split hole.left).2.2
  have size : c.acme = c.base + c.size := rfl
  have prev : sub V.target b (wordBytes V.target) = b - wordBytes V.target := sub_eq (by omega) (by omega)
  unfold Talc.joinBelow
  simp only [prev]
  rcases free_c : c.isFree with _ | _
  · have tag := (row_concat.mp hole.below.2).2.word free_c
    rw [end_c] at tag
    rw [tag, Tag.isAllocated_new, Tag.setAboveFree_new]
    refine ⟨F, lists, pre ++ [c], b, rfl, Nat.le_refl b, ?_, rfl, fun o low high => ?_, hole.flagBelow free_c true⟩
    · intro x last
      simp only [List.getLast?_append, List.getLast?_singleton, Option.some_or, Option.mem_some_iff] at last
      exact last ▸ free_c
    · exact update_of_ne (by omega) ..
  · obtain ⟨x, s, use⟩ := c
    have is_free : use = .free := by simpa [Seg.isFree] using free_c
    subst is_free
    simp only at least size
    have free_x : F x = some s := (hole.spans x s).mpr (by simp)
    have high : st.mem (b - wordBytes V.target) = s := by
      rw [← end_c, size]
      exact hole.binned.high free_x
    have low : st.sizeLow V.target x = s := hole.binned.low free_x
    have not_allocated : Tag.isAllocated s = false := Tag.isAllocated_size fit.four.2
    have head : sub V.target (b - wordBytes V.target) (sub V.target s (wordBytes V.target)) = x := by
      rw [sub_eq (p := s) (by omega) (by omega), sub_eq (by omega) (by omega)]
      omega
    rw [high, not_allocated, head]
    simp only [Bool.not_false, if_true, TalcMeta.removeFreeByHead, low]
    obtain ⟨chain, -, border⟩ := isChain_append.mp hole.below.1
    refine ⟨_, _, pre, x, rfl, by omega, ?_, ?_, fun o low high => ?_, Hole.takeBelow sound hole⟩
    · intro y last
      exact Bool.eq_false_iff.mpr fun free_y => border y last _ rfl ⟨free_y, rfl⟩
    · rw [blocks_append]
      exact (append_nil _).symm
    · obtain ⟨metadata, outside⟩ := hole.word_inside low high
      exact hole.binned.removeFree_outside sound free_x metadata outside

theorem Hole.joinAbove (sound : G.Sound V.target) (inside : limit < span V.target) {tag base : Nat}
    (hole : Hole V.target G start limit st F lists pre b e post flag)
    (tagged : st.mem tag = Tag.new base (headFree post false)) (word : base % 4 = 0) :
    ∃ F' lists' e' post', (Talc.joinAbove V G st tag e).2 = e' ∧ e ≤ e' ∧ headFree post' false = false ∧
      blocks post' = blocks post ∧
      Hole V.target G start limit (Talc.joinAbove V G st tag e).1 F' lists' pre b e' post' flag := by
  unfold Talc.joinAbove
  simp only [tagged, Tag.isAboveFree_new word]
  rcases next : headFree post false with _ | _
  · exact ⟨F, lists, e, post, rfl, Nat.le_refl e, next, rfl, hole⟩
  · cases post with
    | nil => cases next
    | cons y post =>
      obtain ⟨x, s, use⟩ := y
      have is_free : use = .free := by simpa [headFree, Seg.isFree] using next
      subst is_free
      have at_e : x = e := hole.right.1
      subst at_e
      have free_x : F x = some s := (hole.spans x s).mpr (by simp)
      have low : st.sizeLow V.target x = s := hole.binned.low free_x
      have bound := Tiles.le hole.right.2.2
      simp only [Seg.acme] at bound
      simp only [if_true, TalcMeta.removeFreeByHead, low]
      refine ⟨_, _, x + s, post, add_eq (by omega), by omega, ?_, rfl, Hole.takeAbove sound hole⟩
      cases post with
      | nil => rfl
      | cons y post =>
        exact Bool.eq_false_iff.mpr fun free_y => (isChain_cons_cons.mp hole.above.1).1 ⟨rfl, free_y⟩

theorem Heap.deallocate (heap : Heap V.target G start limit st F lists segs) (sound : G.Sound V.target)
    (maps : V.Maps limit) (mem : (p, n) ∈ blocks segs) :
    ∃ F' lists' segs', Heap V.target G start limit (Talc.deallocate V G st p n) F' lists' segs' ∧
      (blocks segs).Perm ((p, n) :: blocks segs') := by
  have w := bits_eq V.target
  obtain ⟨b, s, mem⟩ := exists_of_mem_blocks mem
  obtain ⟨pre, post, split⟩ := append_of_mem mem
  subst split
  have fit := heap.fits _ mem
  have least := fit.least
  obtain ⟨-, -, pos, -⟩ := fit.block rfl
  have bound : b + s ≤ limit := (heap.tiles.bounds mem).2.2
  have inside := heap.inside
  obtain ⟨found, tag⟩ := heap.fromAllocBase maps
  have word := fit.four.1
  simp only at least word
  have hole : Hole V.target G start limit st F lists pre b (b + s) post false := (heap.cut nofun).giveUp rfl
  obtain ⟨F₁, lists₁, pre₁, b₁, base, le₁, prev, same₁, kept, below⟩ := hole.joinBelow sound inside
  have tag' := (kept (b + s - wordBytes V.target) (by omega) (by omega)).trans tag
  obtain ⟨F₂, lists₂, e₂, post₂, acme, le₂, next, same₂, above⟩ := below.joinAbove sound inside tag' word
  have bound₂ := above.right.le
  -- the hole is closed by one free chunk
  have put := above.putAbove sound (Nat.le_refl b₁) (by omega) below.word.1 next
  have whole := put.whole fun x last y _ both => by
    rw [prev x last] at both
    cases both.1
  have result : Talc.deallocate V G st p n = TalcMeta.insertFree V.target G
      (Talc.joinAbove V G (Talc.joinBelow V G st b).1 (b + s - wordBytes V.target) (b + s)).1 b₁ (e₂ - b₁) := by
    have acme_tag : add V.target (b + s - wordBytes V.target) (wordBytes V.target) = b + s := by
      rw [add_eq (by omega), Nat.sub_add_cancel (by omega)]
    unfold Talc.deallocate
    rw [if_neg (by omega)]
    simp only [found, tag, Tag.toBaseRel_new word (show b + 4 ≤ span V.target by omega), base, acme_tag, acme]
    rw [sub_eq (by omega) (by omega)]
  rw [result]
  refine ⟨_, _, _, whole, ?_⟩
  rw [blocks_append, blocks_append, blocks_block, blocks_free, same₁, same₂]
  exact perm_middle

end Evering.Talc
