import Evering.Queue.Repair

/-!
# Which crash states are repairable

One reaper repairs every slot for one dead participant while nothing else runs. Whatever step each thread of
the participant had come to, the repair of a slot succeeds, with one exception: a producer that took the slot
with a stale tail leaves a turn ahead of tail, which the repair takes for corruption.
-/

namespace Evering.Queue

open Interleave Cursor Function List Option

variable {R : Route} {α : Type}

/-- `repair_slot_with` on slot after slot. -/
def repairAll (R : Route) (dead live : Nat) (release : α → Nat → Bool) :
    List Nat → QueueProg R.toGeometry α (List Repair)
  | [] => pure []
  | i :: rest => do
    let result ← repairSlotWith R i dead live release
    let results ← repairAll R dead live release rest
    pure (result :: results)

/-- A producer of `d` has the slot and its turn is ahead of tail. -/
def Ahead (s : Shared R.toGeometry α) (d i : Nat) : Prop :=
  base (s.slot i).control = producer ∧ source (s.slot i).control = d + 1 ∧
    R.half ≤ (s.tail - (s.slot i).turn).toNat

instance (s : Shared R.toGeometry α) (d i : Nat) : Decidable (Ahead s d i) :=
  inferInstanceAs (Decidable (_ ∧ _ ∧ _))

/-- The slots other than `i` and the cursors are the same. -/
structure Elsewhere (s s' : Shared R.toGeometry α) (i : Nat) : Prop where
  slot : ∀ j, j ≠ i → s'.slot j = s.slot j
  head : s'.head = s.head
  tail : s'.tail = s.tail

/-- What a slot's words say of it when nobody has begun to repair it. -/
structure Unrepaired (s : Shared R.toGeometry α) (i : Nat) (x : Control) : Prop where
  fits : x.Fits R.participants
  word : (s.slot i).control = x.word
  fresh : ∀ p r, x.holder = some (p, r) → r = 0
  incomplete : x.isProducer = true → s.tail = (s.slot i).turn → x.fields.2.1 = false
  filled : x.fields.2.1 = true → (s.slot i).value.isSome = true

variable {s : Shared R.toGeometry α} {i : Nat} {x : Control} {d live : Nat} {release : α → Nat → Bool}
  {β : Type} (oracle : Nat → Nat) (n : Nat)

/-- A repair that ended well has freed the slot of the dead participant. -/
structure Mended (s s' : Shared R.toGeometry α) (d i : Nat) (result : Repair) : Prop where
  elsewhere : Elsewhere s s' i
  failed : Ahead s d i → result = .corrupted
  done : ¬Ahead s d i → (result = .none ∨ result = .recovered) ∧ ¬Names (s'.slot i).control d

variable {s₁ s' : Shared R.toGeometry α} {control j : Nat}

theorem Elsewhere.trans {s₂ s₃ : Shared R.toGeometry α} (h : Elsewhere s₁ s₂ i) (h' : Elsewhere s₂ s₃ i) :
    Elsewhere s₁ s₃ i :=
  ⟨fun j ne => (h'.slot j ne).trans (h.slot j ne), h'.head.trans h.head, h'.tail.trans h.tail⟩

theorem Mended.of_same_words {result : Repair}
    (mended : Mended s₁ s' d i result) (elsewhere : Elsewhere s s₁ i) (same : Ahead s d i ↔ Ahead s₁ d i) :
    Mended s s' d i result where
  elsewhere := elsewhere.trans mended.elsewhere
  failed := fun h => mended.failed (same.mp h)
  done := fun h => mended.done fun h' => h (same.mpr h')

theorem unnamed_empty (d : Nat) : ¬Names empty d := by
  simp [Names, source, reaper, empty]

theorem unnamed_available (d : Nat) (c : Bool) : ¬Names (Control.available c).word d := by
  rw [Names, source_eq, reaper_eq]
  cases c <;> simp [Control.word]

theorem Elsewhere.setSlot {slot : Slot R.toGeometry α} {tr : Trail α} : Elsewhere s { s.setSlot i slot with trail := tr } i :=
  ⟨fun _ ne => update_of_ne ne .., rfl, rfl⟩

theorem releaseValue_alone (succeeds : ∀ v p, release v p = true)
    (filled : control &&& completeBit ≠ 0 → (s.slot i).value.isSome = true) (k : Bool → QueueProg R.toGeometry α β) :
    ∃ tr, ((releaseValue R i control release).bind k).solo oracle n s = (k true).solo oracle n { s with trail := tr } := by
  by_cases complete : control &&& completeBit = 0
  · exact ⟨s.trail, by simp [releaseValue, complete]⟩
  · obtain ⟨v, hv⟩ := isSome_iff_exists.mp (filled complete)
    exact ⟨s.trail.release i, by simp [releaseValue, complete, hv, succeeds]⟩

theorem repairProducer_alone (succeeds : ∀ v p, release v p = true)
    (source : source (s.slot i).control = d + 1) (owned : base (s.slot i).control = producer)
    (incomplete : s.tail = (s.slot i).turn → control &&& completeBit = 0)
    (filled : control &&& completeBit ≠ 0 → (s.slot i).value.isSome = true) (k : Repair → QueueProg R.toGeometry α β) :
    ∃ s' result, ((repairProducer R i control release).bind k).solo oracle n s =
      (k result).solo oracle n s' ∧ Mended s s' d i result := by
  have half : 0 < R.half := Nat.two_pow_pos _
  by_cases zero : s.tail - (s.slot i).turn = 0
  · have near : ¬Ahead s d i := by
      rintro ⟨-, -, far⟩
      rw [zero] at far
      simp at far
      omega
    refine ⟨{ s.setSlot i { s.slot i with control := empty } with trail := s.trail }, .recovered, ?_,
      .setSlot, fun h => absurd h near, fun _ => ⟨.inr rfl, ?_⟩⟩
    · simp [repairProducer, loadTurn, loadTail, storeControl, settleControl, Prog.bind_assoc, Prog.ite_bind,
        zero, incomplete (sub_eq_zero.mp zero)]
    · simp only [Shared.setSlot, update_self]
      exact unnamed_empty d
  by_cases behind : (s.tail - (s.slot i).turn).toNat < R.half
  · have near : ¬Ahead s d i := fun h => Nat.not_lt.mpr h.2.2 behind
    obtain ⟨tr, released⟩ := releaseValue_alone oracle n succeeds filled fun ok =>
      ((if !ok then pure .corrupted else do
        settleControl i available fun tr => tr.setFate i .skipped
        pure .recovered : QueueProg R.toGeometry α Repair).bind k)
    refine ⟨{ s.setSlot i { s.slot i with control := available } with trail := tr.setFate i .skipped },
      .recovered, ?_, .setSlot, fun h => absurd h near, fun _ => ⟨.inr rfl, ?_⟩⟩
    · simpa [repairProducer, loadTurn, loadTail, settleControl, Prog.bind_assoc, Prog.ite_bind, zero,
        behind, Shared.setSlot, -BitVec.toNat_sub, -BitVec.ofNat_eq_ofNat] using released
    · simp only [Shared.setSlot, update_self]
      exact unnamed_available d false
  · refine ⟨s, .corrupted, ?_, ⟨fun _ _ => rfl, rfl, rfl⟩, fun _ => rfl, fun h => ?_⟩
    · simp [repairProducer, loadTurn, loadTail, Prog.bind_assoc, Prog.ite_bind, zero, behind,
        -BitVec.toNat_sub, -BitVec.ofNat_eq_ofNat]
    · exact absurd ⟨owned, source, Nat.not_lt.mp behind⟩ h

theorem advanceTurn_alone {turn head : R.Word} (k : Unit → QueueProg R.toGeometry α β) :
    ∃ s', ((advanceTurn R i turn head).bind k).solo oracle n s = (k ()).solo oracle n s' ∧ Elsewhere s s' i := by
  by_cases behind : head - turn ≠ 0 ∧ (head - turn).toNat < R.half
  · refine ⟨{ s.setSlot i { s.slot i with turn := turn + R.lapWord } with
      trail := s.trail.advanceTurn R.capacity i }, ?_, .setSlot⟩
    rw [advanceTurn, if_pos behind]
    rfl
  · refine ⟨s, ?_, fun _ _ => rfl, rfl, rfl⟩
    rw [advanceTurn, if_neg behind]
    rfl

theorem repairConsumer_alone (succeeds : ∀ v p, release v p = true) {c : Bool}
    (bit : available ||| (control &&& completeBit) = (Control.available c).word)
    (owned : base (s.slot i).control = consumer) (filled : control &&& completeBit ≠ 0 → (s.slot i).value.isSome = true)
    (k : Repair → QueueProg R.toGeometry α β) : ∃ s' result, ((repairConsumer R i control release).bind k).solo oracle n s =
      (k result).solo oracle n s' ∧ Mended s s' d i result := by
  have near : ¬Ahead s d i := by
    rintro ⟨isProducer, -⟩
    rw [owned] at isProducer
    cases isProducer
  by_cases here : s.head = (s.slot i).turn
  · refine ⟨{ s.setSlot i { s.slot i with control := (Control.available c).word } with trail := s.trail },
      .recovered, ?_, .setSlot, fun h => absurd h near, fun _ => ⟨.inr rfl, ?_⟩⟩
    · simp [repairConsumer, loadTurn, loadHeadAt, storeControl, settleControl, Prog.bind_assoc,
        Prog.ite_bind, here, bit]
    · simp only [Shared.setSlot, update_self]
      exact unnamed_available d c
  let head := s.head
  let turn := (s.slot i).turn
  obtain ⟨tr, released⟩ := releaseValue_alone oracle n succeeds filled fun ok =>
    ((if !ok then pure .corrupted else do
      advanceTurn R i turn head
      settleControl i empty fun tr => tr.discard R.capacity i
      pure .recovered : QueueProg R.toGeometry α Repair).bind k)
  have released' : ((repairConsumer R i control release).bind k).solo oracle n s =
      (((advanceTurn R i turn head).bind fun _ => (settleControl i empty fun tr =>
        tr.discard R.capacity i).bind fun _ => k .recovered) : QueueProg R.toGeometry α β).solo oracle n
        { s with trail := tr } := by
    simpa [repairConsumer, loadTurn, loadHeadAt, Prog.bind_assoc, Prog.ite_bind, here, head, turn,
      -BitVec.toNat_sub, -BitVec.ofNat_eq_ofNat] using released
  obtain ⟨s₁, advanced, elsewhere⟩ := advanceTurn_alone (s := { s with trail := tr }) (i := i)
    oracle n fun _ => (settleControl i empty fun tr =>
      tr.discard R.capacity i).bind fun _ => k .recovered
  refine ⟨{ s₁.setSlot i { s₁.slot i with control := empty } with trail := s₁.trail.discard R.capacity i },
    .recovered, released'.trans advanced, ?_, fun h => absurd h near, fun _ => ⟨.inr rfl, ?_⟩⟩
  · exact .trans ⟨elsewhere.slot, elsewhere.head, elsewhere.tail⟩ .setSlot
  · simp only [Shared.setSlot, update_self]
    exact unnamed_empty d

theorem repairSlotWith_alone (lt : i < R.capacity) (hd : d < R.participants) (hl : live < R.participants)
    (succeeds : ∀ v p, release v p = true) (unrepaired : Unrepaired s i x) (k : Repair → QueueProg R.toGeometry α β) :
    ∃ s' result, ((repairSlotWith R i d live release).bind k).solo oracle n s =
      (k result).solo oracle n s' ∧ Mended s s' d i result := by
  have small := R.participants_le
  have fits := unrepaired.fits
  have word := unrepaired.word
  have base_eq := Control.base_word small fits
  have source_eq := Control.source_word small fits
  have reaper_eq := Control.reaper_word small fits
  have inside : ¬(d ≥ R.participants ∨ live ≥ R.participants) := by omega
  have stays : ∀ result : Repair, result = .none → ¬Names x.word d → Mended s s d i result := by
    rintro result rfl unnamed
    refine ⟨⟨fun _ _ => rfl, rfl, rfl⟩, fun h => ?_, fun _ => ⟨.inl rfl, word ▸ unnamed⟩⟩
    exact absurd (.inl (word ▸ h.2.1)) unnamed
  by_cases owned : x.isOwned = true
  swap
  · have unowned : base x.word ≠ producer ∧ base x.word ≠ consumer := by
      rw [base_eq]
      cases x <;> simp_all [Control.isOwned, Control.fields, producer, consumer]
    refine ⟨s, .none, ?_, stays _ rfl ?_⟩
    · simp [repairSlotWith, loadControl, Prog.ite_bind, Prog.bind_assoc, inside, Nat.not_le.mpr lt, word,
        Control.canonical_word small fits, unowned]
    · rw [Names, source_eq, reaper_eq]
      cases x <;> simp_all [Control.isOwned, Control.fields]
  obtain ⟨p, holder⟩ : ∃ p, x.holder = some (p, 0) := by
    cases x with
    | producer c p r => exact ⟨p, by rw [← unrepaired.fresh p r rfl]; rfl⟩
    | consumer c p r => exact ⟨p, by rw [← unrepaired.fresh p r rfl]; rfl⟩
    | empty => cases owned
    | available c => cases owned
  have source_p : source x.word = p + 1 := by
    rw [source_eq]
    cases x <;> simp_all [Control.holder, Control.fields]
  have reaper_0 : reaper x.word = 0 := by
    rw [reaper_eq]
    cases x <;> simp_all [Control.holder, Control.fields]
  have inHands : ¬(base x.word ≠ producer ∧ base x.word ≠ consumer) := by
    rw [base_eq]
    cases x <;> simp_all [Control.isOwned, Control.fields, producer, consumer]
  by_cases mine : p = d
  swap
  · refine ⟨s, .none, ?_, stays _ rfl ?_⟩
    · have refused : assign d live x.word = .error .none := by
        simp [assign, source_p, reaper_0, mine]
      simp [repairSlotWith, loadControl, Prog.ite_bind, Prog.bind_assoc, inside, Nat.not_le.mpr lt, word,
        Control.canonical_word small fits, inHands, refused]
    · rw [Names, source_p, reaper_0]
      omega
  subst mine
  -- the slot is taken, then its branch of the repair runs
  let y := x.withReaper (live + 1)
  have taken : assign p live x.word = .ok y.word := by
    simp [assign, source_p, reaper_0, y, Control.or_reaper small fits owned reaper_0]
  have changed : y.word ≠ x.word := by
    have := Control.word_lt small fits
    rw [Control.withReaper_word small fits owned]
    rw [Queue.reaper_eq] at reaper_0
    omega
  let s₁ : Shared R.toGeometry α := s.setSlot i { s.slot i with control := y.word }
  have first : ((repairSlotWith R i p live release).bind k).solo oracle n s =
      ((if base x.word = producer then repairProducer R i x.word release
        else repairConsumer R i x.word release).bind k).solo oracle n s₁ := by
    simp [repairSlotWith, loadControl, Prog.ite_bind, Prog.bind_assoc, inside, Nat.not_le.mpr lt, word,
      Control.canonical_word small fits, inHands, taken, swapControl, changed, compareExchangeControl,
        compareExchangeControlAt, s₁]
  have slot₁ : s₁.slot i = { s.slot i with control := y.word } := update_self ..
  have elsewhere : Elsewhere s s₁ i := ⟨fun _ ne => update_of_ne ne .., rfl, rfl⟩
  have fits' : y.Fits R.participants := withReaper_fits fits hl
  have base_y : base y.word = base x.word := by
    rw [Control.base_word small fits', base_eq]
    cases x <;> rfl
  have source_y : source y.word = p + 1 := by
    rw [Control.source_word small fits', ← source_p, source_eq]
    cases x <;> rfl
  have same : Ahead s p i ↔ Ahead s₁ p i := by
    rw [Ahead, Ahead, slot₁, word, source_p, source_y, base_y]
    rfl
  have filled : x.word &&& completeBit ≠ 0 → (s₁.slot i).value.isSome = true := by
    rw [complete_iff fits, slot₁]
    exact unrepaired.filled
  rw [first]
  by_cases isProducer : base x.word = producer
  · rw [if_pos isProducer]
    have incomplete : s₁.tail = (s₁.slot i).turn → x.word &&& completeBit = 0 := by
      rw [slot₁]
      intro here
      by_contra complete
      have producer : x.isProducer = true := by
        rw [base_eq] at isProducer
        cases x <;> simp_all [Control.fields, Control.isProducer, producer]
      rw [← Ne, complete_iff fits, unrepaired.incomplete producer here] at complete
      cases complete
    obtain ⟨s', result, ran, mended⟩ := repairProducer_alone oracle n succeeds
      (by rw [slot₁, source_y]) (by rw [slot₁, base_y, isProducer]) incomplete filled k
    exact ⟨s', result, ran, mended.of_same_words elsewhere same⟩
  · rw [if_neg isProducer]
    have isConsumer : base x.word = consumer := by
      by_contra other
      exact inHands ⟨isProducer, other⟩
    obtain ⟨s', result, ran, mended⟩ := repairConsumer_alone oracle n succeeds (d := p)
      (available_or fits) (by rw [slot₁, base_y, isConsumer]) filled k
    exact ⟨s', result, ran, mended.of_same_words elsewhere same⟩

theorem Elsewhere.unrepaired (elsewhere : Elsewhere s s' i)
    (ne : j ≠ i) (unrepaired : Unrepaired s j x) : Unrepaired s' j x where
  fits := unrepaired.fits
  word := by rw [elsewhere.slot j ne, unrepaired.word]
  fresh := unrepaired.fresh
  incomplete := by
    rw [elsewhere.slot j ne, elsewhere.tail]
    exact unrepaired.incomplete
  filled := by
    rw [elsewhere.slot j ne]
    exact unrepaired.filled

theorem Elsewhere.ahead (elsewhere : Elsewhere s s' i) (ne : j ≠ i) : Ahead s' d j ↔ Ahead s d j := by
  rw [Ahead, Ahead, elsewhere.slot j ne, elsewhere.tail]

/-- The repair of slot after slot ends well if no slot of the dead participant is ahead of tail. -/
theorem repairAll_alone (hd : d < R.participants) (hl : live < R.participants)
    (succeeds : ∀ v p, release v p = true) (slots : List Nat) (distinct : slots.Nodup)
    (inside : ∀ i ∈ slots, i < R.capacity) (unrepaired : ∀ i ∈ slots, ∃ x, Unrepaired s i x) :
    ∃ s' results, (repairAll R d live release slots).solo oracle n s = (s', results) ∧
      (∀ j, j ∉ slots → s'.slot j = s.slot j) ∧ (((∀ result ∈ results, result = .none ∨ result = .recovered) ∧
        ∀ i ∈ slots, ¬Names (s'.slot i).control d) ↔ ∀ i ∈ slots, ¬Ahead s d i) := by
  induction slots generalizing s with
  | nil => exact ⟨s, [], rfl, fun _ _ => rfl, by simp⟩
  | cons i rest ih =>
    obtain ⟨fresh, distinct'⟩ := nodup_cons.mp distinct
    obtain ⟨x, unrepaired₀⟩ := unrepaired i (mem_cons_self ..)
    obtain ⟨s₁, result, first, mended⟩ := repairSlotWith_alone oracle n (inside i (mem_cons_self ..))
      hd hl succeeds unrepaired₀ fun result =>
        (repairAll R d live release rest).bind fun results => pure (result :: results)
    have apart : ∀ j ∈ rest, j ≠ i := fun j mem h => fresh (h ▸ mem)
    obtain ⟨s', results, ran, others, well⟩ := ih (s := s₁) distinct'
      (fun j mem => inside j (mem_cons_of_mem _ mem)) fun j mem => by
        obtain ⟨y, unrepaired'⟩ := unrepaired j (mem_cons_of_mem _ mem)
        exact ⟨y, mended.elsewhere.unrepaired (apart j mem) unrepaired'⟩
    refine ⟨s', result :: results, ?_, fun j out => ?_, ?_⟩
    · exact first.trans (Prog.solo_bind_pure ran)
    · rw [mem_cons, not_or] at out
      rw [others j out.2, mended.elsewhere.slot j out.1]
    · have later : (∀ j ∈ rest, ¬Ahead s₁ d j) ↔ ∀ j ∈ rest, ¬Ahead s d j :=
        forall₂_congr fun j mem => not_congr (mended.elsewhere.ahead (apart j mem))
      rw [later] at well
      simp only [forall_mem_cons, others i fresh, ← well]
      constructor
      · rintro ⟨⟨good, goods⟩, -, unnamed⟩
        refine ⟨fun ahead => ?_, goods, unnamed⟩
        rcases good with good | good <;> rw [mended.failed ahead] at good <;> cases good
      · rintro ⟨near, goods, unnamed⟩
        exact ⟨⟨(mended.done near).1, goods⟩, (mended.done near).2, unnamed⟩

theorem Inv.unrepaired {strict : Prop} {dead : Nat → Bool} {views : Views (Op α) (View R.toGeometry α)}
    (inv : Inv strict s dead views) (alive : ∀ p, dead p = false) (lt : i < R.capacity) : Unrepaired s i (s.ctl i) := by
  have slot := inv.slot i lt
  have phase := slot.phase
  constructor
  case fits => exact slot.fits
  case word => exact slot.word
  case fresh =>
    intro p r holder
    cases r with
    | zero => rfl
    | succ r =>
      have dead := inv.custody.reaped lt holder
      rw [alive p] at dead
      cases dead
  case incomplete =>
    intro isProducer here
    have near := inv.near lt
    rw [inv.ring.tail, slot.turn, Geometry.cursor_inj (by omega) (by omega)] at here
    rcases ctl : s.ctl i with _ | ⟨c, p, r⟩ | c | ⟨c, p, r⟩ <;> rw [ctl] at phase isProducer <;>
      try cases isProducer
    rcases phase with ⟨incomplete, -⟩ | ⟨reserved, -⟩
    · exact incomplete
    · have := inv.ring.lt_tail (p := s.trail.turnPos i) (by simp [reserved])
      omega
  case filled =>
    intro complete
    rcases ctl : s.ctl i with _ | ⟨c, p, r⟩ | c | ⟨c, p, r⟩ <;>
      simp only [ctl, Control.fields, reduceCtorEq] at phase complete <;> subst complete
    · rcases phase with ⟨incomplete, -⟩ | ⟨-, filled⟩
      · cases incomplete
      · exact (filled rfl).1
    · obtain ⟨-, v, -, value, -⟩ := phase
      exact value ▸ rfl
    · rcases phase with ⟨v, -, value, -⟩ | ⟨-, -, v, -, value, -⟩
      · exact value ▸ rfl
      · exact value ▸ rfl

/-- **Repairability.** One participant dies in a state of a run without crashes, with each of its threads at
any step, and one live participant repairs slot after slot with a release that succeeds. Every repair returns
`None` or `Recovered` and no word names the dead participant afterwards exactly if no slot that its producers
have taken has a turn ahead of tail. -/
theorem crash_repairable (R : Route) {α : Type} {c c' : Config (Shared R.toGeometry α) Site (Op α)}
    (run : (machine R α true).Run Uncrashed (.start (.init R.toGeometry α)) c) {d live : Nat}
    (hd : d < R.participants) (hl : live < R.participants)
    (stopped : (machine R α true).exec c (.crash d) = some c') (release : α → Nat → Bool)
    (succeeds : ∀ v p, release v p = true) (oracle : Nat → Nat) :
    let repaired := (repairAll R d live release (List.range R.capacity)).solo oracle 0 c'.shared
    ((∀ result ∈ repaired.2, result = .none ∨ result = .recovered) ∧
      ∀ i, i < R.capacity → ¬Names (repaired.1.slot i).control d) ↔
    ∀ i, i < R.capacity → ¬Ahead c'.shared d i := by
  obtain ⟨fair, peace⟩ : (machine R α true).Run (Fair True) _ c ∧ Peaceful c := (Peaceful.start _).run run
  obtain ⟨views, inv, -⟩ := (sound R α True).run (sound R α True).start fair
  obtain rfl := Option.some.inj stopped
  obtain ⟨s', results, ran, -, well⟩ := repairAll_alone (s := c.shared) oracle 0 hd hl succeeds
    (List.range R.capacity) nodup_range (fun i => mem_range.mp) fun i mem =>
      ⟨_, inv.unrepaired peace.1 (mem_range.mp mem)⟩
  simp only [mem_range] at well
  have same : ((machine R α true).onCrash d c.shared) = c.shared := rfl
  simp only [same, ran]
  exact well

/-- A producer dies with a staged message and a consumer of the same participant with a claimed one. -/
theorem crash_repairable_pair :
    ∃ c c', (machine pairRoute Nat true).Run Uncrashed (.start (.init pairRoute.toGeometry Nat)) c ∧
      (machine pairRoute Nat true).exec c (.crash 0) = some c' ∧
      Names (c'.shared.slot 0).control 0 ∧ Names (c'.shared.slot 1).control 0 ∧
      let repaired := (repairAll pairRoute 0 1 (fun _ _ => true) (List.range 2)).solo (fun _ => 0) 0 c'.shared
      (∀ result ∈ repaired.2, result = .none ∨ result = .recovered) ∧
        ∀ i, i < 2 → ¬Names (repaired.1.slot i).control 0 := by
  have steps : (((machine pairRoute Nat true).execIf Uncrashed (.start (.init pairRoute.toGeometry Nat))
      (.spawn (.produce 1 7 .publish) :: List.replicate 13 (.run 0 0) ++
        .spawn (.produce 0 8 .publish) :: List.replicate 12 (.run 1 0) ++
        .spawn (.consume 0 .take) :: List.replicate 7 (.run 2 0))).bind fun c =>
      ((machine pairRoute Nat true).exec c (.crash 0)).map fun c' => (c, c')).map (fun (_, c') =>
        (source (c'.shared.slot 0).control, source (c'.shared.slot 1).control,
          decide (∀ i : Nat, i < 2 → ¬Ahead (R := pairRoute) c'.shared 0 i))) = some (1, 1, true) := by decide +kernel
  obtain ⟨c, c', first, stopped, same⟩ := exists_stages steps
  simp only [Prod.mk.injEq, decide_eq_true_eq] at same
  have run := Machine.run_of_execIf first
  exact ⟨c, c', run, stopped, .inl same.1, .inl same.2.1,
    (crash_repairable pairRoute run (by decide) (by decide) stopped _ (fun _ _ => rfl) _).mpr same.2.2⟩

/-- A producer reads tail and sleeps until another participant has filled and emptied the slot. It then takes
the slot, whose turn is now a lap ahead, and dies before it sees this. The repair returns `Corrupted`
and leaves the slot in the hands of the dead participant. -/
theorem crash_unrepairable :
    ∃ c c', (machine pairRoute Nat true).Run Uncrashed (.start (.init pairRoute.toGeometry Nat)) c ∧
      (machine pairRoute Nat true).exec c (.crash 0) = some c' ∧
      let repaired := (repairAll pairRoute 0 1 (fun _ _ => true) (List.range 2)).solo (fun _ => 0) 0 c'.shared
      repaired.2 = [.corrupted, .none] ∧ Names (repaired.1.slot 0).control 0 := by
  have steps : (((machine pairRoute Nat true).execIf Uncrashed (.start (.init pairRoute.toGeometry Nat))
      (.spawn (.produce 0 7 .publish) :: List.replicate 3 (.run 0 0) ++
        .spawn (.produce 1 8 .publish) :: List.replicate 13 (.run 1 0) ++
        .spawn (.consume 1 .take) :: List.replicate 10 (.run 2 0) ++ [.run 0 0])).bind fun c =>
      ((machine pairRoute Nat true).exec c (.crash 0)).map fun c' => (c, c')).map (fun (_, c') =>
        let repaired := (repairAll pairRoute 0 1 (fun _ _ => true) (List.range 2)).solo (fun _ => 0) 0 c'.shared
        (repaired.2, source (repaired.1.slot 0).control)) = some ([.corrupted, .none], 1) := by decide +kernel
  obtain ⟨c, c', first, stopped, same⟩ := exists_stages steps
  simp only [Prod.mk.injEq] at same
  exact ⟨c, c', Machine.run_of_execIf first, stopped, same.1, .inl same.2⟩

end Evering.Queue
