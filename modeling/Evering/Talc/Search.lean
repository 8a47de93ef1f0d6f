import Mathlib.Data.List.Perm.Subperm
import Evering.Talc.Bins

/-!
# Looking for a chunk

In a process that has room above the heap for the request, no address that `acquire_chunk` computes wraps around. Its
loops end, and the chunk it finds is free, is in the bin that was searched, and has room for the block and a tag behind
the block's first multiple of the alignment. A chunk that is passed over has no such room.
-/

namespace Evering.Talc

open Memory List

variable {V : Mapping} {T : Target} {G : Geometry} {st : TalcMeta} {F : Nat → Option Nat} {lists : Nat → List Nat}
  {b s p limit size align : Nat}

/-! ### Pointers -/

/-- The first multiple of the word size from `n` on. -/
def roundUp (T : Target) (n : Nat) : Nat := (n + wordBytes T - 1) / wordBytes T * wordBytes T

theorem wordBytes_cases (T : Target) : wordBytes T = 4 ∧ T.bits = 32 ∨ wordBytes T = 8 ∧ T.bits = 64 := by
  have := T.supported
  unfold wordBytes
  omega

/-- The process maps the heap, up to `limit`, within its address space. -/
structure Mapping.Maps (V : Mapping) (limit : Nat) : Prop where
  word : V.origin % wordBytes V.target = 0
  inside : V.origin + limit < span V.target

/-- The process has room above the heap for a request. -/
structure Room (V : Mapping) (limit size align : Nat) : Prop where
  maps : V.Maps limit
  power : ∃ k, align = 2 ^ k
  above : V.origin + limit + align + size + 4 * wordBytes V.target ≤ span V.target

theorem addr_eq (lt : V.origin + p < span V.target) : V.addr p = V.origin + p := Nat.mod_eq_of_lt lt

theorem rel_eq (lt : V.origin + p < span V.target) : V.rel (V.origin + p) = p := by
  unfold Mapping.rel
  rw [show V.origin + p + span V.target - V.origin = p + span V.target by omega, Nat.add_mod_right,
    Nat.mod_eq_of_lt (by omega)]

variable {n idx i m : Nat} {marked : Nat → Prop}

theorem add_eq (lt : p + n < span T) : add T p n = p + n := Nat.mod_eq_of_lt lt

theorem sub_eq (le : n ≤ p) (lt : p - n < span T) : sub T p n = p - n := by
  unfold sub
  rw [show p + span T - n = p - n + span T by omega, Nat.add_mod_right, Nat.mod_eq_of_lt lt]

theorem alignUp_eq (pos : 0 < align) (lt : V.origin + p + align ≤ span V.target) :
    V.origin + V.alignUp p align = (V.origin + p + align - 1) / align * align := by
  have split := Nat.div_add_mod (V.origin + p + align - 1) align
  have small := Nat.mod_lt (V.origin + p + align - 1) pos
  unfold Mapping.alignUp
  rw [addr_eq (by omega), Nat.mod_eq_of_lt (show V.origin + p + align - 1 < span V.target by omega)]
  generalize shape : (V.origin + p + align - 1) / align * align = x
  rw [Nat.mul_comm] at shape
  obtain ⟨q, is_q⟩ : ∃ q, x = V.origin + q := ⟨x - V.origin, by omega⟩
  rw [is_q, rel_eq (by omega)]

theorem alignUp_spec (pos : 0 < align) (lt : V.origin + p + align ≤ span V.target) :
    p ≤ V.alignUp p align ∧ V.alignUp p align < p + align ∧ (V.origin + V.alignUp p align) % align = 0 := by
  have split := Nat.div_add_mod (V.origin + p + align - 1) align
  have small := Nat.mod_lt (V.origin + p + align - 1) pos
  have first := alignUp_eq pos lt
  rw [Nat.mul_comm] at first
  refine ⟨by omega, by omega, ?_⟩
  rw [first, Nat.mul_mod_right]

theorem alignUp_word (maps : V.Maps limit) (lt : V.origin + p + wordBytes V.target ≤ span V.target) :
    V.alignUp p (wordBytes V.target) = roundUp V.target p := by
  have word := maps.word
  unfold roundUp
  rcases wordBytes_cases V.target with ⟨w, -⟩ | ⟨w, -⟩ <;>
  · have := @alignUp_spec V p (wordBytes V.target) (by omega) lt
    rw [w] at this word ⊢
    omega

/-! ### Sizes -/

theorem chunkSize_spec (lt : size + 2 * wordBytes T ≤ span T) :
    4 * wordBytes T ≤ chunkSize T size ∧ roundUp T size + wordBytes T ≤ chunkSize T size ∧
      chunkSize T size ≤ size + 4 * wordBytes T := by
  unfold chunkSize roundUp nodeBytes minChunkSize nodeBytes
  rcases wordBytes_cases T with ⟨w, -⟩ | ⟨w, -⟩ <;>
  · rw [w] at lt ⊢
    split
    · omega
    · rw [Nat.mod_eq_of_lt (by omega)]
      omega

theorem roundUp_add (aligned : p % wordBytes T = 0) : roundUp T (p + size) = p + roundUp T size := by
  unfold roundUp
  rcases wordBytes_cases T with ⟨w, -⟩ | ⟨w, -⟩ <;>
  · rw [w] at aligned ⊢
    omega

theorem le_roundUp (T : Target) (size : Nat) : size ≤ roundUp T size ∧ roundUp T size < size + wordBytes T := by
  unfold roundUp
  rcases wordBytes_cases T with ⟨w, -⟩ | ⟨w, -⟩ <;>
  · rw [w]
    omega

/-! ### The next bin -/

theorem nextAvail_marked (words : G.availabilityWords T.bits ≤ T.bits)
    (marks : Marks T.bits (G.availabilityWords T.bits) (fun j => st.mem (st.availPtr T j)) st.summary marked)
    (next : st.nextAvailBinIdx T G idx = some i) : idx ≤ i ∧ marked i := by
  have pos : 0 < T.bits := by
    have := bits_eq T
    omega
  have index : idx / T.bits * T.bits + idx % T.bits = idx := by
    rw [Nat.mul_comm]
    exact Nat.div_add_mod idx T.bits
  unfold TalcMeta.nextAvailBinIdx at next
  split at next
  · cases next
  rename_i lt
  simp only at next
  split at next
  · rename_i nonzero
    have found := (marks.here (Geometry.word_lt (by omega)) nonzero).2
    rw [Option.some.injEq] at next
    rw [← Nat.add_assoc, index, next] at found
    exact ⟨by omega, found⟩
  split at next
  · cases next
  split at next
  · cases next
  rename_i nonzero
  obtain ⟨later, found⟩ := marks.later words nonzero
  rw [Option.some.injEq] at next
  rw [next] at found
  refine ⟨?_, found⟩
  have := Nat.mul_le_mul_right T.bits later
  rw [Nat.succ_mul] at this
  have := Nat.mod_lt idx pos
  omega

theorem nextAvail_least (words : G.availabilityWords T.bits ≤ T.bits)
    (marks : Marks T.bits (G.availabilityWords T.bits) (fun j => st.mem (st.availPtr T j)) st.summary marked)
    (ge : idx ≤ m) (lt : m < G.bins) (before : ∀ i, st.nextAvailBinIdx T G idx = some i → m < i) : ¬marked m := by
  have pos : 0 < T.bits := by
    have := bits_eq T
    omega
  have index (n : Nat) : n / T.bits * T.bits + n % T.bits = n := by
    rw [Nat.mul_comm]
    exact Nat.div_add_mod n T.bits
  have small (n : Nat) := Nat.mod_lt n pos
  have word := Geometry.word_lt (T := T) lt
  have start := Geometry.word_lt (T := T) (show idx < G.bins by omega)
  have order : idx / T.bits ≤ m / T.bits := Nat.div_le_div_right ge
  intro found
  rw [← index m] at found
  unfold TalcMeta.nextAvailBinIdx at before
  rw [if_neg (by omega)] at before
  simp only at before
  rcases Nat.lt_or_eq_of_le order with later | same
  · have past : idx / T.bits * T.bits + T.bits ≤ m := by
      have := Nat.mul_le_mul_right T.bits later
      rw [Nat.succ_mul] at this
      have := index m
      omega
    split at before
    · rename_i nonzero
      have inside := (marks.here start nonzero).1
      have := before _ rfl
      have := index idx
      omega
    rw [if_neg (by omega)] at before
    split at before
    · rename_i zero
      refine marks.empty_word word (small m) (marks.later_least words later word ?_) found
      rw [zero, trailingZeros_zero]
      omega
    · have bound := before _ rfl
      generalize next : trailingZeros T.bits _ = j at bound
      rcases Nat.lt_trichotomy (m / T.bits) j with less | here | more
      · exact marks.empty_word word (small m) (marks.later_least words later word (by rwa [next])) found
      · subst here
        have := index m
        refine marks.here_least word (i := 0) (Nat.zero_le _) (small m) ?_ found
        rw [Nat.shiftRight_zero]
        omega
      · have := Nat.mul_le_mul_right T.bits more
        rw [Nat.succ_mul] at this
        have := trailingZeros_le T.bits (st.mem (st.availPtr T j))
        have := index m
        omega
  · have offset : idx % T.bits ≤ m % T.bits := by
      have := index idx
      have := index m
      rw [same] at *
      omega
    refine marks.here_least word offset (small m) ?_ found
    rw [← same]
    split at before
    · have := before _ rfl
      have := index idx
      have := index m
      rw [← same] at this
      omega
    · rename_i zero
      rw [Decidable.not_not.mp zero, trailingZeros_zero]
      have := small m
      omega

theorem Binned.nextAvail_least (binned : Binned T G st F lists) (sound : G.Sound T) (ge : idx ≤ m)
    (lt : m < G.bins) (before : ∀ i, st.nextAvailBinIdx T G idx = some i → m < i) : lists m = [] := by
  have unmarked := Talc.nextAvail_least sound.words binned.marks ge lt before
  exact not_not.mp fun nonempty => unmarked ⟨lt, nonempty⟩

/-! ### Lists -/

/-- A chunk that is free and has room for the request. -/
structure Found (V : Mapping) (F : Nat → Option Nat) (size align : Nat) (found : Acquired) (s : Nat) : Prop where
  free : F found.chunk.base = some s
  acme : found.chunk.acme = found.chunk.base + s
  above : found.chunk.base ≤ found.allocBase
  word : found.allocBase % wordBytes V.target = 0
  aligned : (V.origin + found.allocBase) % align = 0
  room : found.allocBase + chunkSize V.target size ≤ found.chunk.acme
  allocAcme : found.allocAcme = found.allocBase + roundUp V.target size

/-- A chunk of `s` bytes at `b` has room for a request behind its first multiple of the alignment. -/
def Fits (V : Mapping) (size align b s : Nat) : Prop :=
  (V.origin + b + align - 1) / align * align + chunkSize V.target size ≤ V.origin + (b + s)

theorem Found.fits {found : Acquired} (is_found : Found V F size align found s) (pos : 0 < align) :
    Fits V size align found.chunk.base s := by
  have least : (V.origin + found.chunk.base + align - 1) / align * align ≤ V.origin + found.allocBase := by
    obtain ⟨k, is_k⟩ := Nat.dvd_of_mod_eq_zero is_found.aligned
    rw [is_k, Nat.mul_comm align]
    refine Nat.mul_le_mul_right _ (Nat.le_of_lt_succ ((Nat.div_lt_iff_lt_mul pos).mpr ?_))
    have := is_found.above
    rw [Nat.succ_mul, Nat.mul_comm k, ← is_k]
    omega
  have room := is_found.room
  have acme := is_found.acme
  unfold Fits
  omega

/-- What the search needs to know of the free chunks. -/
structure Bounded (T : Target) (F : Nat → Option Nat) (limit : Nat) : Prop where
  inside : ∀ {b s}, F b = some s → b + s ≤ limit
  word : ∀ {b s}, F b = some s → b % wordBytes T = 0

theorem wordBytes_power (T : Target) : ∃ j, wordBytes T = 2 ^ j := by
  rcases wordBytes_cases T with ⟨w, -⟩ | ⟨w, -⟩
  · exact ⟨2, w⟩
  · exact ⟨3, w⟩

theorem aligned_of_le_word (power : ∃ k, align = 2 ^ k) (le : align ≤ wordBytes T)
    (aligned : n % wordBytes T = 0) : n % align = 0 := by
  obtain ⟨k, is_power⟩ := power
  obtain ⟨j, is_word⟩ := wordBytes_power T
  have divides : align ∣ wordBytes T := by
    rw [is_power, is_word] at le ⊢
    exact Nat.pow_dvd_pow 2 ((Nat.pow_le_pow_iff_right (by omega)).mp le)
  exact Nat.mod_eq_zero_of_dvd (Nat.dvd_trans divides (Nat.dvd_of_mod_eq_zero aligned))

theorem word_of_aligned (power : ∃ k, align = 2 ^ k) (lt : wordBytes T < align)
    (aligned : n % align = 0) : n % wordBytes T = 0 := by
  obtain ⟨k, is_power⟩ := power
  obtain ⟨j, is_word⟩ := wordBytes_power T
  have divides : wordBytes T ∣ align := by
    rw [is_power, is_word] at lt ⊢
    exact Nat.pow_dvd_pow 2 (Nat.le_of_lt ((Nat.pow_lt_pow_iff_right (by omega)).mp lt))
  exact Nat.mod_eq_zero_of_dvd (Nat.dvd_trans divides (Nat.dvd_of_mod_eq_zero aligned))

/-- The list of one bin is searched to its end and no chunk in it has room, or a chunk is found in it. -/
theorem acquireIn_spec (binned : Binned V.target G st F lists) (bounded : Bounded V.target F limit)
    (room : Room V limit size align) {cell : Nat} {xs : List Nat} (linked : Linked (wordBytes V.target) st.mem cell xs)
    (free : ∀ x ∈ xs, ∃ s, F x = some s ∧ G.bin V.target s = i) (enough : xs.length < n) :
    (acquireIn V st size align n xs.head? = some none ∧ ∀ x ∈ xs, ∀ s, F x = some s → ¬Fits V size align x s) ∨
      ∃ found s, acquireIn V st size align n xs.head? = some (some found) ∧ Found V F size align found s ∧
        G.bin V.target s = i := by
  have w := bits_eq V.target
  have above := room.above
  obtain ⟨least, fits, most⟩ := @chunkSize_spec V.target size (by omega)
  have positive : 0 < align := by
    obtain ⟨k, is_power⟩ := room.power
    exact is_power ▸ Nat.two_pow_pos k
  induction xs generalizing n cell with
  | nil =>
    cases n with
    | zero => cases enough
    | succ n => exact .inl ⟨rfl, nofun⟩
  | cons head xs ih =>
    cases n with
    | zero => cases enough
    | succ n =>
      obtain ⟨-, -, rest⟩ := linked
      obtain ⟨s, is_free, bin⟩ := free head (mem_cons_self ..)
      have low : st.sizeLow V.target head = s := binned.low is_free
      have inside := bounded.inside is_free
      have word := bounded.word is_free
      have origin := room.maps.word
      have acme : add V.target head s = head + s := add_eq (by omega)
      have addr_acme : V.addr (head + s) = V.origin + (head + s) := addr_eq (by omega)
      -- a block at `q` in the chunk
      have at_base : ∀ {q}, head ≤ q → q % wordBytes V.target = 0 → (V.origin + q) % align = 0 →
          q + chunkSize V.target size ≤ head + s →
          Found V F size align ⟨⟨head, add V.target head s⟩, q, V.alignUp (add V.target q size) (wordBytes V.target)⟩
            s := by
        intro q le word aligned fits
        refine ⟨is_free, acme, le, word, aligned, by rw [acme]; exact fits, ?_⟩
        show V.alignUp (add V.target q size) _ = q + roundUp V.target size
        rw [add_eq (by omega), alignUp_word room.maps (by omega), roundUp_add word]
      unfold acquireIn
      simp only [List.head?_cons, low]
      split
      · rename_i small
        refine .inr ⟨_, s, rfl, at_base (Nat.le_refl _) word ?_ (by omega), bin⟩
        refine aligned_of_le_word room.power small.2 ?_
        rw [Nat.add_mod, origin, word]
        simp
      · rename_i small
        obtain ⟨le, lt, aligned⟩ := alignUp_spec (V := V) (p := head) positive (by omega)
        rw [acme, addr_acme, add_eq (by omega), addr_eq (by omega)]
        split
        · rename_i fits'
          refine .inr ⟨_, s, rfl, ?_, bin⟩
          rw [← acme]
          refine at_base le ?_ aligned (by omega)
          -- with a small alignment the chunk would have been taken as it is
          have large : wordBytes V.target < align := by
            by_contra le'
            exact small ⟨by omega, by omega⟩
          have sum := word_of_aligned (T := V.target) room.power large aligned
          rcases wordBytes_cases V.target with ⟨w', -⟩ | ⟨w', -⟩ <;>
          · rw [w'] at sum origin ⊢
            omega
        · rename_i misses
          rw [rest.root]
          refine (ih rest (fun x mem => free x (mem_cons_of_mem head mem)) (by simpa using enough)).imp_left ?_
          rintro ⟨missed, none⟩
          refine ⟨missed, forall_mem_cons.mpr ⟨fun s' is_s' fit => ?_, none⟩⟩
          obtain rfl : s = s' := Option.some.inj (is_free.symm.trans is_s')
          have first := alignUp_eq (V := V) (p := head) positive (by omega)
          unfold Fits at fit
          omega

theorem Binned.length_lt (binned : Binned T G st F lists) (bounded : Bounded T F limit) (le : limit ≤ span T)
    (lt : i < G.bins) : (lists i).length < span T := by
  have w := bits_eq T
  have nodes : ∀ x ∈ lists i, 0 < x ∧ x < span T := by
    intro x mem
    obtain ⟨s, is_free, -⟩ := (binned.member lt).mp mem
    have := binned.above is_free
    have := binned.size is_free
    have := bounded.inside is_free
    have := Nat.mul_pos (Nat.zero_lt_of_lt lt) (show 0 < 2 * wordBytes T by omega)
    omega
  have nodup : (0 :: lists i).Nodup :=
    nodup_cons.mpr ⟨fun mem => absurd (nodes 0 mem).1 (Nat.lt_irrefl 0), binned.nodup lt⟩
  have subset : 0 :: lists i ⊆ List.range (span T) := by
    intro x mem
    rcases mem_cons.mp mem with same | mem
    · rw [same]
      exact mem_range.mpr (Nat.two_pow_pos _)
    · exact mem_range.mpr (nodes x mem).2
  have := (subperm_of_subset nodup subset).length_le
  rw [length_cons, length_range] at this
  omega

theorem acquireFrom_spec (binned : Binned V.target G st F lists) (sound : G.Sound V.target)
    (bounded : Bounded V.target F limit) (room : Room V limit size align) (enough : G.bins < n + idx)
    (le : idx ≤ G.bins) : (acquireFrom V G st size align n idx = some none ∧
        ∀ i, idx ≤ i → i < G.bins → ∀ x ∈ lists i, ∀ s, F x = some s → ¬Fits V size align x s) ∨
      ∃ found s, acquireFrom V G st size align n idx = some (some (found, G.bin V.target s)) ∧
        Found V F size align found s := by
  have inside := room.maps.inside
  induction n generalizing idx with
  | zero => omega
  | succ n ih =>
    unfold acquireFrom
    rcases next : st.nextAvailBinIdx V.target G idx with _ | i
    · refine .inl ⟨rfl, fun i ge lt x mem => ?_⟩
      rw [binned.nextAvail_least sound ge lt (by rw [next]; nofun)] at mem
      cases mem
    · obtain ⟨later, lt, -⟩ := nextAvail_marked sound.words binned.marks next
      have root := (binned.linked lt).root
      simp only [root]
      rcases acquireIn_spec binned bounded room (binned.linked lt) (fun x => (binned.member lt).mp)
          (binned.length_lt bounded (by omega) lt) with ⟨missed, none⟩ | ⟨found, s, got, is_found, bin⟩
      · rw [missed]
        refine (ih (by omega) (by omega)).imp_left fun ⟨failed, rest⟩ => ⟨failed, fun m ge lt' x mem => ?_⟩
        -- the bin is before the one that was searched, it is that one, or it comes later
        rcases Nat.lt_trichotomy m i with before | here | after
        · rw [binned.nextAvail_least sound ge lt' fun j found => by rw [next] at found; cases found; exact before] at mem
          cases mem
        · exact none x (here ▸ mem)
        · exact rest m after lt' x mem
      · rw [got, ← bin]
        exact .inr ⟨found, s, rfl, is_found⟩

theorem acquireChunk_spec (binned : Binned V.target G st F lists) (sound : G.Sound V.target)
    (bounded : Bounded V.target F limit) (room : Room V limit size align) : (acquireChunk V G st size align = some none ∧
        ∀ b s, F b = some s → G.bin V.target (chunkSize V.target size) ≤ G.bin V.target s → ¬Fits V size align b s) ∨
      ∃ found s, acquireChunk V G st size align = some (some (found, G.bin V.target s)) ∧ Found V F size align found s := by
  refine (acquireFrom_spec binned sound bounded room (by omega) (Nat.le_of_lt (sound.bin_lt _))).imp_left ?_
  rintro ⟨failed, none⟩
  refine ⟨failed, fun b s is_free later => none _ later (sound.bin_lt s) b ?_ s is_free⟩
  exact (binned.member (sound.bin_lt s)).mpr ⟨s, is_free, rfl⟩

end Evering.Talc
