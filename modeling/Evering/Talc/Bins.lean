import Mathlib.Data.List.Nodup
import Evering.Talc.Model

/-!
# The lists of free chunks

The free chunks are given by a function from bases to sizes. Each is linked once, in the list of the bin of its size,
and says its size at both ends; the bits say which bins are not empty. `insert_free` adds a chunk and `remove_free`
takes one out, and both change only words of the metadata and of free chunks.
-/

namespace Evering.Talc

open Memory Function List

variable {T : Target} {G : Geometry} {st st' : TalcMeta} {F : Nat → Option Nat} {lists : Nat → List Nat}
  {b s : Nat}

theorem bits_eq (T : Target) : T.bits = 8 * wordBytes T ∧ 4 ≤ wordBytes T ∧ wordBytes T ≤ 8 := by
  have := T.supported
  unfold wordBytes
  omega

/-- What the lists need of a geometry that was validated. -/
structure Geometry.Sound (T : Target) (G : Geometry) : Prop where
  pos : 0 < G.bins
  words : G.availabilityWords T.bits ≤ T.bits

theorem Geometry.Sound.bin_lt (sound : G.Sound T) (size : Nat) : G.bin T size < G.bins := by
  have := sound.pos
  exact Nat.lt_of_le_of_lt (Nat.min_le_right ..) (by omega)

variable {idx i j o : Nat} {marked : Nat → Prop}

theorem Geometry.word_lt (lt : idx < G.bins) : idx / T.bits < G.availabilityWords T.bits := by
  have pos : 0 < T.bits := by
    have := bits_eq T
    omega
  rw [Nat.div_lt_iff_lt_mul pos]
  have split := Nat.div_add_mod (G.bins + T.bits - 1) T.bits
  have small := Nat.mod_lt (G.bins + T.bits - 1) pos
  unfold availabilityWords
  rw [Nat.mul_comm]
  omega

/-- Words of the metadata: the bits and the bins. -/
def TalcMeta.InMeta (T : Target) (G : Geometry) (st : TalcMeta) (o : Nat) : Prop :=
  st.avails ≤ o ∧ o < st.bins + G.bins * (2 * wordBytes T)

/-- No word of a free chunk -/
def Outside (F : Nat → Option Nat) (o : Nat) : Prop := ∀ b s, F b = some s → o < b ∨ b + s ≤ o

structure Binned (T : Target) (G : Geometry) (st : TalcMeta) (F : Nat → Option Nat) (lists : Nat → List Nat) :
    Prop where
  slots : st.avails + G.availabilityWords T.bits * wordBytes T ≤ st.bins
  above : ∀ {b s}, F b = some s → st.bins + G.bins * (2 * wordBytes T) ≤ b
  size : ∀ {b s}, F b = some s → 4 * wordBytes T ≤ s
  apart : ∀ {b s b' s'}, F b = some s → F b' = some s' → b ≠ b' → b + s ≤ b' ∨ b' + s' ≤ b
  linked : ∀ {i}, i < G.bins → Linked (wordBytes T) st.mem (st.slot T i) (lists i)
  nodup : ∀ {i}, i < G.bins → (lists i).Nodup
  member : ∀ {i b}, i < G.bins → (b ∈ lists i ↔ ∃ s, F b = some s ∧ G.bin T s = i)
  low : ∀ {b s}, F b = some s → st.mem (b + nodeBytes T) = s
  high : ∀ {b s}, F b = some s → st.mem (b + s - wordBytes T) = s
  marks : Marks T.bits (G.availabilityWords T.bits) (fun j => st.mem (st.availPtr T j)) st.summary
    fun i => i < G.bins ∧ lists i ≠ []

/-! ### Places in the metadata -/

theorem slot_bounds (T : Target) (st : TalcMeta) (lt : i < G.bins) :
    st.bins ≤ st.slot T i ∧ st.slot T i + 2 * wordBytes T ≤ st.bins + G.bins * (2 * wordBytes T) := by
  have := Nat.mul_le_mul_right (2 * wordBytes T) (Nat.succ_le_of_lt lt)
  rw [Nat.succ_mul] at this
  unfold TalcMeta.slot
  omega

theorem slot_apart (T : Target) (st : TalcMeta) (ne : i ≠ j) :
    st.slot T i + 2 * wordBytes T ≤ st.slot T j ∨ st.slot T j + 2 * wordBytes T ≤ st.slot T i := by
  unfold TalcMeta.slot
  rcases Nat.lt_or_gt_of_ne ne with lt | lt
  · have := Nat.mul_le_mul_right (2 * wordBytes T) (Nat.succ_le_of_lt lt)
    rw [Nat.succ_mul] at this
    omega
  · have := Nat.mul_le_mul_right (2 * wordBytes T) (Nat.succ_le_of_lt lt)
    rw [Nat.succ_mul] at this
    omega

theorem availPtr_injective (T : Target) (st : TalcMeta) (same : st.availPtr T i = st.availPtr T j) : i = j := by
  have := bits_eq T
  unfold TalcMeta.availPtr at same
  exact Nat.eq_of_mul_eq_mul_right (by omega : 0 < wordBytes T) (by omega)

theorem Binned.availPtr_lt (binned : Binned T G st F lists) (lt : j < G.availabilityWords T.bits) :
    st.avails ≤ st.availPtr T j ∧ st.availPtr T j + wordBytes T ≤ st.bins := by
  have := Nat.mul_le_mul_right (wordBytes T) (Nat.succ_le_of_lt lt)
  rw [Nat.succ_mul] at this
  have := binned.slots
  unfold TalcMeta.availPtr
  omega

/-! ### Lists and other words -/

theorem Binned.spaced (binned : Binned T G st F lists) (lt : i < G.bins) : Spaced (wordBytes T) (st.slot T i) (lists i) := by
  have := slot_bounds T st lt
  refine ⟨fun x mem => ?_, (binned.nodup lt).pairwise_of_forall_ne fun x hx y hy ne => ?_⟩
  · obtain ⟨s, is_free, -⟩ := (binned.member lt).mp mem
    have := binned.above is_free
    omega
  · obtain ⟨s, free_x, -⟩ := (binned.member lt).mp hx
    obtain ⟨s', free_y, -⟩ := (binned.member lt).mp hy
    have := binned.apart free_x free_y ne
    have := binned.size free_x
    have := binned.size free_y
    omega

theorem Binned.linked_frame (binned : Binned T G st F lists) (lt : i < G.bins) {m : Words}
    (root : ∀ o, o = st.slot T i ∨ o = st.slot T i + wordBytes T → m o = st.mem o)
    (nodes : ∀ x ∈ lists i, ∀ o, o = x ∨ o = x + wordBytes T ∨ o = x + 2 * wordBytes T → m o = st.mem o) :
    Linked (wordBytes T) m (st.slot T i) (lists i) := by
  refine (binned.linked lt).frame (readLink_congr (root _ (.inl rfl)) (root _ (.inr rfl))) fun x mem => ?_
  exact ⟨readLink_congr (nodes x mem _ (.inl rfl)) (nodes x mem _ (.inr (.inl rfl))), nodes x mem _ (.inr (.inr rfl))⟩

theorem Binned.frame (binned : Binned T G st F lists) (avails : st'.avails = st.avails) (bins : st'.bins = st.bins)
    (summary : st'.summary = st.summary) (metadata : ∀ o, st.InMeta T G o → st'.mem o = st.mem o)
    (chunks : ∀ b s, F b = some s → ∀ o, b ≤ o → o < b + s → st'.mem o = st.mem o) : Binned T G st' F lists := by
  have w := bits_eq T
  have slots : ∀ i, st'.slot T i = st.slot T i := fun i => by rw [TalcMeta.slot, bins, TalcMeta.slot]
  have words : ∀ {j}, j < G.availabilityWords T.bits → st'.mem (st'.availPtr T j) = st.mem (st.availPtr T j) := by
    intro j lt
    have := binned.availPtr_lt lt
    rw [show st'.availPtr T j = st.availPtr T j by rw [TalcMeta.availPtr, avails, TalcMeta.availPtr]]
    exact metadata _ ⟨this.1, by omega⟩
  constructor
  case slots => rw [avails, bins]; exact binned.slots
  case above => rw [bins]; exact binned.above
  case size => exact binned.size
  case apart => exact binned.apart
  case nodup => exact binned.nodup
  case member => exact binned.member
  case linked =>
    intro i lt
    have := slot_bounds T st lt
    have := binned.slots
    rw [slots]
    refine binned.linked_frame lt (fun o ho => metadata o ⟨by omega, by omega⟩) fun x mem o ho => ?_
    obtain ⟨s, is_free, -⟩ := (binned.member lt).mp mem
    have := binned.size is_free
    exact chunks x s is_free o (by omega) (by omega)
  case low =>
    intro b s is_free
    have := binned.size is_free
    rw [chunks b s is_free _ (by omega) (by unfold nodeBytes; omega)]
    exact binned.low is_free
  case high =>
    intro b s is_free
    have := binned.size is_free
    rw [chunks b s is_free _ (by omega) (by omega)]
    exact binned.high is_free
  case marks =>
    rw [summary]
    exact binned.marks.congr words fun _ => Iff.rfl

/-! ### Marking a bin -/

@[simp] theorem toggleAvail_avails (st : TalcMeta) (idx : Nat) : (st.toggleAvail T idx).avails = st.avails := rfl

@[simp] theorem toggleAvail_bins (st : TalcMeta) (idx : Nat) : (st.toggleAvail T idx).bins = st.bins := rfl

theorem toggleAvail_mem (ne : o ≠ st.availPtr T (idx / T.bits)) :
    (st.toggleAvail T idx).mem o = st.mem o := update_of_ne ne ..

theorem marks_toggle (sound : G.Sound T) {marked' : Nat → Prop} (lt : idx < G.bins)
    (marks : Marks T.bits (G.availabilityWords T.bits) (fun j => st.mem (st.availPtr T j)) st.summary marked)
    (changed : marked' idx ↔ ¬marked idx) (others : ∀ n, n ≠ idx → (marked' n ↔ marked n)) :
    Marks T.bits (G.availabilityWords T.bits)
      (fun j => (st.toggleAvail T idx).mem ((st.toggleAvail T idx).availPtr T j)) (st.toggleAvail T idx).summary marked' := by
  have pos : 0 < T.bits := by
    have := bits_eq T
    omega
  have index : idx / T.bits * T.bits + idx % T.bits = idx := by
    rw [Nat.mul_comm]
    exact Nat.div_add_mod idx T.bits
  have words : (fun j => (st.toggleAvail T idx).mem ((st.toggleAvail T idx).availPtr T j)) =
      update (fun j => st.mem (st.availPtr T j)) (idx / T.bits)
        (flipBit (st.mem (st.availPtr T (idx / T.bits))) (idx % T.bits)) := by
    funext j
    by_cases same : j = idx / T.bits
    · subst same
      rw [update_self]
      exact update_self ..
    · rw [update_of_ne same]
      exact toggleAvail_mem fun h => same (availPtr_injective T st h)
  rw [words]
  refine marks.flip sound.words (Geometry.word_lt lt) (Nat.mod_lt _ pos) ?_ ?_
  · rw [index]
    exact changed
  · rw [index]
    exact others

/-! ### `insert_free` -/

theorem tail_eq {w : Nat} (le : b + s ≤ span T) (small : w ≤ s) (pos : 0 < w) : sub T (add T b s) w = b + s - w := by
  unfold add sub
  by_cases eq : b + s = span T
  · rw [eq, Nat.mod_self, Nat.zero_add, Nat.mod_eq_of_lt (by omega)]
  · rw [Nat.mod_eq_of_lt (show b + s < span T by omega), show b + s + span T - w = b + s - w + span T by omega,
      Nat.add_mod_right, Nat.mod_eq_of_lt (by omega)]

/-- The state in which the bit of bin `i` is set. -/
def TalcMeta.toggled (T : Target) (st : TalcMeta) (i : Nat) (change : Bool) : TalcMeta :=
  if change then st.toggleAvail T i else st

@[simp] theorem toggled_avails (i : Nat) (change : Bool) : (st.toggled T i change).avails = st.avails := by
  cases change <;> rfl

@[simp] theorem toggled_bins (i : Nat) (change : Bool) : (st.toggled T i change).bins = st.bins := by
  cases change <;> rfl

theorem toggled_mem (change : Bool) (ne : o ≠ st.availPtr T (i / T.bits)) : (st.toggled T i change).mem o = st.mem o := by
  cases change with
  | false => rfl
  | true => exact toggleAvail_mem ne

theorem marks_toggled (sound : G.Sound T) (lt : idx < G.bins) (change : Bool) (marked' : Nat → Prop)
    (marks : Marks T.bits (G.availabilityWords T.bits) (fun j => st.mem (st.availPtr T j)) st.summary marked)
    (here : marked' idx ↔ if change then ¬marked idx else marked idx) (others : ∀ n, n ≠ idx → (marked' n ↔ marked n)) :
    Marks T.bits (G.availabilityWords T.bits) (fun j => (st.toggled T idx change).mem (st.availPtr T j))
      (st.toggled T idx change).summary marked' := by
  cases change with
  | true => exact marks_toggle sound lt marks here others
  | false =>
    refine marks.congr (fun _ => rfl) fun n => ?_
    by_cases same : n = idx
    · subst same
      exact here
    · exact others n same

/-- A chunk that may be added. -/
structure Fresh (T : Target) (G : Geometry) (st : TalcMeta) (F : Nat → Option Nat) (b s : Nat) : Prop where
  above : st.bins + G.bins * (2 * wordBytes T) ≤ b
  size : 4 * wordBytes T ≤ s
  inside : b + s ≤ span T
  apart : ∀ b' s', F b' = some s' → b + s ≤ b' ∨ b' + s' ≤ b

theorem Binned.absent (binned : Binned T G st F lists) (fresh : Fresh T G st F b s) : F b = none := by
  have := fresh.size
  have := bits_eq T
  by_contra present
  obtain ⟨s', is_free⟩ := Option.ne_none_iff_exists'.mp present
  have := fresh.apart b s' is_free
  have := binned.size is_free
  omega

theorem Binned.change (binned : Binned T G st F lists) {k : Nat} (lt : k < G.bins) {F' : Nat → Option Nat}
    {lists' : Nat → List Nat} (avails : st'.avails = st.avails) (bins : st'.bins = st.bins)
    (chunks : ∀ {x n}, F' x = some n → F x = some n ∨
      x = b ∧ Fresh T G st F b n ∧ st'.mem (b + nodeBytes T) = n ∧ st'.mem (b + n - wordBytes T) = n)
    (others : ∀ i, i ≠ k → lists' i = lists i) (nodup : (lists' k).Nodup)
    (member : ∀ {i x}, i < G.bins → (x ∈ lists' i ↔ ∃ n, F' x = some n ∧ G.bin T n = i))
    (linked : Linked (wordBytes T) st'.mem (st.slot T k) (lists' k))
    (slots : ∀ {o}, st.bins ≤ o → o < st.bins + G.bins * (2 * wordBytes T) → o ≠ st.slot T k →
      o ≠ st.slot T k + wordBytes T → st'.mem o = st.mem o)
    (kept : ∀ {x n o}, F x = some n → x ≤ o → o < x + n → (x ∈ lists k → x + 3 * wordBytes T ≤ o) → st'.mem o = st.mem o)
    (marks : Marks T.bits (G.availabilityWords T.bits) (fun j => st'.mem (st.availPtr T j)) st'.summary
      fun i => i < G.bins ∧ lists' i ≠ []) : Binned T G st' F' lists' := by
  have w := bits_eq T
  constructor
  case slots => rw [avails, bins]; exact binned.slots
  case above =>
    intro x n is_free
    rw [bins]
    rcases chunks is_free with old | ⟨rfl, fresh, -⟩
    · exact binned.above old
    · exact fresh.above
  case size =>
    intro x n is_free
    rcases chunks is_free with old | ⟨rfl, fresh, -⟩
    · exact binned.size old
    · exact fresh.size
  case apart =>
    intro x n y m free_x free_y ne
    rcases chunks free_x with old_x | ⟨rfl, fresh, -⟩ <;> rcases chunks free_y with old_y | ⟨rfl, fresh', -⟩
    · exact binned.apart old_x old_y ne
    · exact (fresh'.apart x n old_x).symm
    · exact fresh.apart y m old_y
    · exact (ne rfl).elim
  case nodup =>
    intro i hi
    by_cases here : i = k
    · exact here ▸ nodup
    · exact others i here ▸ binned.nodup hi
  case member => exact member
  case low =>
    intro x n is_free
    rcases chunks is_free with old | ⟨rfl, -, low, -⟩
    · have := binned.size old
      unfold nodeBytes
      rw [kept old (by omega) (by omega) fun _ => Nat.le_refl _]
      exact binned.low old
    · exact low
  case high =>
    intro x n is_free
    rcases chunks is_free with old | ⟨rfl, -, -, high⟩
    · have := binned.size old
      rw [kept old (by omega) (by omega) fun _ => by omega]
      exact binned.high old
    · exact high
  case linked =>
    intro i hi
    rw [TalcMeta.slot, bins, ← TalcMeta.slot]
    by_cases here : i = k
    · exact here ▸ linked
    rw [others i here]
    have slot_i := slot_bounds T st hi
    have apart := slot_apart T st here
    refine binned.linked_frame hi (fun o ho => slots (by omega) (by omega) (by omega) (by omega)) fun x mem o ho => ?_
    obtain ⟨n, is_free, other⟩ := (binned.member hi).mp mem
    have := binned.size is_free
    refine kept is_free (by omega) (by omega) fun mem' => ?_
    obtain ⟨t, is_free', same⟩ := (binned.member lt).mp mem'
    rw [is_free, Option.some.injEq] at is_free'
    exact absurd (other.symm.trans (is_free' ▸ same)) here
  case marks =>
    refine marks.congr (fun _ => ?_) fun _ => Iff.rfl
    rw [TalcMeta.availPtr, avails, TalcMeta.availPtr]

theorem insertFree_eq (st : TalcMeta) (b s : Nat) (inside : b + s ≤ span T) (size : 4 * wordBytes T ≤ s) :
    st.insertFree T G b s = let i := G.bin T s
      let next := readLink (wordBytes T) st.mem (st.slot T i)
      { st.toggled T i next.isNone with
        mem := update (update (link (wordBytes T) (st.toggled T i next.isNone).mem b next
          (st.slot T i)) (b + nodeBytes T) s) (b + s - wordBytes T) s } := by
  have w := bits_eq T
  have tail : sub T (add T b s) (wordBytes T) = b + s - wordBytes T := tail_eq inside (by omega) (by omega)
  unfold TalcMeta.insertFree
  rw [tail]
  simp only
  generalize readLink (wordBytes T) st.mem (st.slot T (G.bin T s)) = next
  cases next <;> rfl

@[simp] theorem insertFree_avails (st : TalcMeta) (b s : Nat) : (st.insertFree T G b s).avails = st.avails := by
  unfold TalcMeta.insertFree TalcMeta.write
  simp only
  split <;> rfl

@[simp] theorem insertFree_bins (st : TalcMeta) (b s : Nat) : (st.insertFree T G b s).bins = st.bins := by
  unfold TalcMeta.insertFree TalcMeta.write
  simp only
  split <;> rfl

theorem Binned.insertFree_mem (binned : Binned T G st F lists) (sound : G.Sound T) (fresh : Fresh T G st F b s)
    (avail : o ≠ st.availPtr T (G.bin T s / T.bits)) (chunk : o < b ∨ b + s ≤ o)
    (slot : o ≠ st.slot T (G.bin T s) ∧ o ≠ st.slot T (G.bin T s) + wordBytes T)
    (first : ∀ y, (lists (G.bin T s)).head? = some y → o ≠ y + 2 * wordBytes T) :
    (st.insertFree T G b s).mem o = st.mem o := by
  have w := bits_eq T
  have := fresh.size
  have root := (binned.linked (sound.bin_lt s)).root
  rw [insertFree_eq st b s fresh.inside fresh.size]
  simp only
  rw [update_of_ne (by omega), update_of_ne (by unfold nodeBytes; omega),
    link_of_ne (by omega) (by omega) (by omega) slot.1 slot.2 (root ▸ first), toggled_mem _ avail]

theorem Binned.insert (binned : Binned T G st F lists) (sound : G.Sound T) (fresh : Fresh T G st F b s) :
    Binned T G (st.insertFree T G b s) (update F b (some s)) (update lists (G.bin T s) (b :: lists (G.bin T s))) := by
  have w := bits_eq T
  have size := fresh.size
  have lt := sound.bin_lt s
  have absent := binned.absent fresh
  have eq := insertFree_eq (G := G) st b s fresh.inside fresh.size
  have root := (binned.linked lt).root
  have above := fresh.above
  have slot_i := slot_bounds T st lt
  have avail_i := binned.availPtr_lt (Geometry.word_lt lt)
  have mine : ∀ {x}, x ∈ lists (G.bin T s) → ∃ s', F x = some s' ∧ G.bin T s' = G.bin T s := (binned.member lt).mp
  have first : ∀ {y}, (lists (G.bin T s)).head? = some y → y ∈ lists (G.bin T s) := mem_of_mem_head?
  have kept := fun {o} => binned.insertFree_mem sound fresh (o := o)
  refine binned.change (b := b) lt (insertFree_avails ..) (insertFree_bins ..) (fun {x n} is_free => ?_)
    (fun i ne => update_of_ne ne ..) ?_ (fun {i x} hi => ?_) ?_ (fun {o} low high h₁ h₂ => ?_)
    (fun {x n o} is_free low high node => ?_) ?_
  · by_cases here : x = b
    · subst here
      rw [update_self, Option.some.injEq] at is_free
      subst is_free
      refine .inr ⟨rfl, fresh, ?_, ?_⟩
      · rw [eq]
        simp only
        by_cases small : x + nodeBytes T = x + s - wordBytes T
        · rw [small, update_self]
        · rw [update_of_ne small, update_self]
      · rw [eq]
        simp only
        rw [update_self]
    · rw [update_of_ne here] at is_free
      exact .inl is_free
  · rw [update_self]
    refine nodup_cons.mpr ⟨fun mem => ?_, binned.nodup lt⟩
    obtain ⟨t, is_free, -⟩ := mine mem
    rw [absent] at is_free
    cases is_free
  · by_cases here : i = G.bin T s
    · subst here
      rw [update_self, mem_cons, binned.member hi]
      by_cases hx : x = b
      · subst hx
        simp [update_self]
      · simp [hx]
    · rw [update_of_ne here, binned.member hi]
      by_cases hx : x = b
      · subst hx
        simp [update_self, absent, Ne.symm here]
      · simp [update_of_ne hx]
  · rw [update_self]
    -- the bit is set first, then the node is linked, then the sizes are written
    have marked : Linked (wordBytes T) (st.toggled T (G.bin T s) (readLink (wordBytes T) st.mem
        (st.slot T (G.bin T s))).isNone).mem (st.slot T (G.bin T s)) (lists (G.bin T s)) := by
      refine binned.linked_frame lt (fun o ho => toggled_mem _ (by omega)) fun x mem o ho => ?_
      obtain ⟨t, is_free, -⟩ := mine mem
      have := binned.above is_free
      exact toggled_mem _ (by omega)
    have spaced : Spaced (wordBytes T) (st.slot T (G.bin T s)) (b :: lists (G.bin T s)) := by
      obtain ⟨roots, nodes⟩ := binned.spaced lt
      refine ⟨fun x mem => ?_, pairwise_cons.mpr ⟨fun x mem => ?_, nodes⟩⟩
      · rcases mem_cons.mp mem with same | old
        · omega
        · exact roots x old
      · obtain ⟨t, is_free, -⟩ := mine mem
        have := fresh.apart x t is_free
        have := binned.size is_free
        omega
    have linked := marked.link (by omega) spaced
    rw [← root] at linked
    rw [eq]
    have sizes : ∀ {m : Words} {o}, o ≠ b + nodeBytes T → o ≠ b + s - wordBytes T →
        update (update m (b + nodeBytes T) s) (b + s - wordBytes T) s o = m o := by
      intro m o h₁ h₂
      rw [update_of_ne h₂, update_of_ne h₁]
    unfold nodeBytes at sizes ⊢
    refine linked.frame (readLink_congr (sizes ?_ ?_) (sizes ?_ ?_)) fun x mem => ?_
    any_goals omega
    have place : x = b ∨ x + 3 * wordBytes T ≤ b ∨ b + s ≤ x := by
      rcases mem_cons.mp mem with same | old
      · exact .inl same
      · obtain ⟨t, is_free, -⟩ := mine old
        have := fresh.apart x t is_free
        have := binned.size is_free
        omega
    exact ⟨readLink_congr (sizes (by omega) (by omega)) (sizes (by omega) (by omega)), sizes (by omega) (by omega)⟩
  · refine kept (by omega) (by omega) ⟨h₁, h₂⟩ fun y head => ?_
    obtain ⟨t, is_free, -⟩ := mine (first head)
    have := binned.above is_free
    omega
  · have := binned.above is_free
    have := fresh.apart x n is_free
    refine kept (by omega) (by omega) (by omega) fun y head same => ?_
    obtain ⟨t, free_y, -⟩ := mine (first head)
    have := binned.size free_y
    by_cases here : x = y
    · subst here
      have := node (first head)
      omega
    · have := binned.apart is_free free_y here
      omega
  · -- only the bit of an empty bin is set, and no other word of the bits changes
    have marks := marks_toggled sound lt (readLink (wordBytes T) st.mem (st.slot T (G.bin T s))).isNone
      (fun i => i < G.bins ∧ update lists (G.bin T s) (b :: lists (G.bin T s)) i ≠ []) binned.marks ?_
      fun n ne => ?_
    · rw [show (st.insertFree T G b s).summary = _ by rw [eq]]
      refine marks.congr (fun {j} hj => ?_) fun _ => Iff.rfl
      have := binned.availPtr_lt hj
      rw [eq]
      simp only
      rw [update_of_ne (by omega), update_of_ne (by unfold nodeBytes; omega),
        link_of_ne (by omega) (by omega) (by omega) (by omega) (by omega)]
      rw [root]
      intro y head
      obtain ⟨t, is_free, -⟩ := mine (first head)
      have := binned.above is_free
      omega
    · rw [root]
      cases lists (G.bin T s) <;> simp [lt]
    · rw [update_of_ne ne]

/-! ### `remove_free` -/

theorem removeFree_eq (st : TalcMeta) (b i : Nat) :
    st.removeFree T b i = TalcMeta.toggled T { st with mem := unlink (wordBytes T) st.mem b } i
      (readLink (wordBytes T) (unlink (wordBytes T) st.mem b) (st.slot T i)).isNone := rfl

@[simp] theorem removeFree_avails (st : TalcMeta) (b i : Nat) : (st.removeFree T b i).avails = st.avails := by
  rw [removeFree_eq, toggled_avails]

@[simp] theorem removeFree_bins (st : TalcMeta) (b i : Nat) : (st.removeFree T b i).bins = st.bins := by
  rw [removeFree_eq, toggled_bins]

theorem Binned.unlink_mem (binned : Binned T G st F lists) (lt : i < G.bins) (mem : b ∈ lists i)
    (slot : o ≠ st.slot T i ∧ o ≠ st.slot T i + wordBytes T)
    (nodes : ∀ y ∈ lists i, y ≠ b → o ≠ y ∧ o ≠ y + wordBytes T ∧ o ≠ y + 2 * wordBytes T) :
    unlink (wordBytes T) st.mem b o = st.mem o := by
  obtain ⟨ys, zs, split⟩ := append_of_mem mem
  have linked := binned.linked lt
  have nodup := binned.nodup lt
  rw [split] at linked nodup nodes
  have distinct := nodup_middle.mp nodup
  have others : ∀ y ∈ ys ++ zs, y ∈ ys ++ b :: zs ∧ y ≠ b := by
    intro y hy
    refine ⟨?_, fun same => (nodup_cons.mp distinct).1 (same ▸ hy)⟩
    rcases mem_append.mp hy with before | after
    · exact mem_append_left _ before
    · exact mem_append_right _ (mem_cons_of_mem b after)
  refine unlink_of_ne ?_ ?_ fun y next => ?_
  · rcases linked.before with root | before
    · rw [root]
      exact slot.1
    · obtain ⟨hy, ne⟩ := others _ (mem_append_left _ before)
      exact (nodes _ hy ne).1
  · rcases linked.before with root | before
    · rw [root]
      exact slot.2
    · obtain ⟨hy, ne⟩ := others _ (mem_append_left _ before)
      exact (nodes _ hy ne).2.1
  · rw [linked.next] at next
    obtain ⟨hy, ne⟩ := others _ (mem_append_right _ (mem_of_mem_head? next))
    exact (nodes y hy ne).2.2

theorem Binned.remove (binned : Binned T G st F lists) (sound : G.Sound T) (is_free : F b = some s) :
    Binned T G (st.removeFree T b (G.bin T s)) (update F b none)
      (update lists (G.bin T s) ((lists (G.bin T s)).erase b)) := by
  have w := bits_eq T
  have lt := sound.bin_lt s
  have mem : b ∈ lists (G.bin T s) := (binned.member lt).mpr ⟨s, is_free, rfl⟩
  have mine : ∀ {x}, x ∈ lists (G.bin T s) → ∃ s', F x = some s' ∧ G.bin T s' = G.bin T s := (binned.member lt).mp
  have slot_i := slot_bounds T st lt
  have avail_i := binned.availPtr_lt (Geometry.word_lt lt)
  have unlinked : Linked (wordBytes T) (unlink (wordBytes T) st.mem b) (st.slot T (G.bin T s))
      ((lists (G.bin T s)).erase b) := by
    obtain ⟨ys, zs, split⟩ := append_of_mem mem
    have nodup := binned.nodup lt
    have linked := binned.linked lt
    have spaced := binned.spaced lt
    rw [split] at nodup linked spaced
    have distinct := nodup_middle.mp nodup
    have fresh : b ∉ ys := fun before => (nodup_cons.mp distinct).1 (mem_append_left _ before)
    rw [split, erase_append_right _ fresh, erase_cons_head]
    exact linked.unlink (by omega) spaced
  have kept : ∀ {o}, o ≠ st.availPtr T (G.bin T s / T.bits) →
      o ≠ st.slot T (G.bin T s) ∧ o ≠ st.slot T (G.bin T s) + wordBytes T →
      (∀ y ∈ lists (G.bin T s), y ≠ b → o ≠ y ∧ o ≠ y + wordBytes T ∧ o ≠ y + 2 * wordBytes T) →
      (st.removeFree T b (G.bin T s)).mem o = st.mem o := by
    intro o avail slot nodes
    rw [removeFree_eq]
    exact Eq.trans (toggled_mem _ avail) (binned.unlink_mem lt mem slot nodes)
  refine binned.change (b := b) lt (removeFree_avails ..) (removeFree_bins ..) (fun {x n} free_x => ?_)
    (fun i ne => update_of_ne ne ..) ?_ (fun {i x} hi => ?_) ?_ (fun {o} low high h₁ h₂ => ?_)
    (fun {x n o} free_x hx hx' node => ?_) ?_
  · by_cases here : x = b
    · rw [here, update_self] at free_x
      cases free_x
    · rw [update_of_ne here] at free_x
      exact .inl free_x
  · rw [update_self]
    exact (binned.nodup lt).erase b
  · by_cases here : i = G.bin T s
    · subst here
      rw [update_self, (binned.nodup hi).mem_erase_iff, binned.member hi]
      by_cases hx : x = b
      · subst hx
        simp
      · simp [hx]
    · rw [update_of_ne here, binned.member hi]
      by_cases hx : x = b
      · subst hx
        simp [is_free, Ne.symm here]
      · simp [hx]
  · rw [update_self, removeFree_eq]
    refine unlinked.frame (readLink_congr (toggled_mem _ ?_) (toggled_mem _ ?_)) fun x hx => ?_
    · show _ ≠ st.availPtr T _
      omega
    · show _ ≠ st.availPtr T _
      omega
    · obtain ⟨sx, free_x, -⟩ := mine (mem_of_mem_erase hx)
      have := binned.above free_x
      refine ⟨readLink_congr (toggled_mem _ ?_) (toggled_mem _ ?_), toggled_mem _ ?_⟩
      all_goals
        show _ ≠ st.availPtr T _
        omega
  · refine kept (by omega) ⟨h₁, h₂⟩ fun y hy _ => ?_
    obtain ⟨sy, free_y, -⟩ := mine hy
    have := binned.above free_y
    omega
  · have := binned.above free_x
    refine kept (by omega) (by omega) fun y hy _ => ?_
    obtain ⟨sy, free_y, -⟩ := mine hy
    have := binned.size free_y
    by_cases here : x = y
    · subst here
      have := node hy
      omega
    · have := binned.apart free_x free_y here
      omega
  · have old : Marks T.bits (G.availabilityWords T.bits)
        (fun j => ({ st with mem := unlink (wordBytes T) st.mem b } : TalcMeta).mem (st.availPtr T j)) st.summary
        fun i => i < G.bins ∧ lists i ≠ [] := by
      refine binned.marks.congr (fun {j} hj => ?_) fun _ => Iff.rfl
      have := binned.availPtr_lt hj
      refine binned.unlink_mem lt mem (by omega) fun y hy _ => ?_
      obtain ⟨sy, free_y, -⟩ := mine hy
      have := binned.above free_y
      omega
    rw [removeFree_eq]
    refine marks_toggled sound lt (readLink (wordBytes T) (unlink (wordBytes T) st.mem b) (st.slot T (G.bin T s))).isNone
      (fun i => i < G.bins ∧ update lists (G.bin T s) ((lists (G.bin T s)).erase b) i ≠ []) old ?_ fun n ne => ?_
    · have nonempty : lists (G.bin T s) ≠ [] := ne_nil_of_mem mem
      rw [unlinked.root, update_self]
      cases (lists (G.bin T s)).erase b <;> simp [lt, nonempty]
    · rw [update_of_ne ne]

/-! ### Words outside -/

theorem Binned.not_meta (binned : Binned T G st F lists) (lt : i < G.bins) (metadata : ¬st.InMeta T G o) :
    o ≠ st.availPtr T (i / T.bits) ∧ o ≠ st.slot T i ∧ o ≠ st.slot T i + wordBytes T := by
  have w := bits_eq T
  have := slot_bounds T st lt
  have := binned.availPtr_lt (Geometry.word_lt lt)
  have := binned.slots
  unfold TalcMeta.InMeta at metadata
  omega

theorem Binned.insertFree_outside (binned : Binned T G st F lists) (sound : G.Sound T) (fresh : Fresh T G st F b s)
    (metadata : ¬st.InMeta T G o) (outside : Outside F o) (chunk : o < b ∨ b + s ≤ o) :
    (st.insertFree T G b s).mem o = st.mem o := by
  obtain ⟨avail, slot⟩ := binned.not_meta (sound.bin_lt s) metadata
  refine binned.insertFree_mem sound fresh avail chunk slot fun y head same => ?_
  obtain ⟨t, is_free, -⟩ := (binned.member (sound.bin_lt s)).mp (mem_of_mem_head? head)
  have := outside y t is_free
  have := binned.size is_free
  have := bits_eq T
  omega

theorem Binned.removeFree_outside (binned : Binned T G st F lists) (sound : G.Sound T) (is_free : F b = some s)
    (metadata : ¬st.InMeta T G o) (outside : Outside F o) : (st.removeFree T b (G.bin T s)).mem o = st.mem o := by
  have lt := sound.bin_lt s
  obtain ⟨avail, slot⟩ := binned.not_meta lt metadata
  rw [removeFree_eq]
  refine Eq.trans (toggled_mem _ avail) (binned.unlink_mem lt ((binned.member lt).mpr ⟨s, is_free, rfl⟩) slot fun y hy _ => ?_)
  obtain ⟨t, free_y, -⟩ := (binned.member lt).mp hy
  have := outside y t free_y
  have := binned.size free_y
  have := bits_eq T
  omega

end Evering.Talc
