import Evering.Queue.Specs

/-!
# Specification of the repair

A repair takes a slot by putting its own number into the reaper field, and judges the slot by comparing its
turn with tail or head. What it then does is right for the position of the slot unless turn, head and tail
coincide or the turn lies between head and tail.
-/

namespace Evering.Queue

open Interleave Cursor

section Specs

variable {R : Route} {α β : Type} {strict : Prop} {op : Op α} {s s' : Shared R.toGeometry α}
  {dead : Nat → Bool} {views : Views (Op α) (View R.toGeometry α)} {t i d live : Nat}
  {v v' : View R.toGeometry α} {x y : Control}

/-! ### Taking the slot -/

variable {p r ownedBase : Nat} {mend : Mend R.toGeometry} {turn : R.Word}

theorem withReaper_holder (holder : x.holder = some (p, r)) (r' : Nat) : (x.withReaper r').holder = some (p, r') := by
  cases x <;> simp_all [Control.holder, Control.withReaper]

theorem withReaper_fits (fits : x.Fits R.participants) (le : r ≤ R.participants) : (x.withReaper r).Fits R.participants := by
  cases x <;> simp_all [Control.Fits, Control.withReaper]

theorem withReaper_phase : Phase s i (x.withReaper r) ↔ Phase s i x := by
  cases x <;> rfl

theorem withReaper_isConsumer : (x.withReaper r).isConsumer = x.isConsumer := by
  cases x <;> rfl

theorem assign_ok (fits : x.Fits R.participants) {next : Nat} (holder : x.holder = some (p, r))
    (assigned : assign d live x.word = .ok next) : next = (x.withReaper (live + 1)).word ∧
      ((p = d ∧ r = live + 1) ∨ r = d + 1 ∨ (p = d ∧ r = 0)) := by
  have small := R.participants_le
  have owned : x.isOwned = true := by cases x <;> simp_all [Control.holder, Control.isOwned]
  have source_eq : source x.word = p + 1 := by
    rw [Control.source_word small fits]
    cases x <;> simp_all [Control.holder, Control.fields]
  have reaper_eq : reaper x.word = r := by
    rw [Control.reaper_word small fits]
    cases x <;> simp_all [Control.holder, Control.fields]
  rw [assign, source_eq, reaper_eq] at assigned
  split at assigned
  · rename_i resumed
    obtain ⟨source, rfl⟩ := resumed
    have same : x.withReaper (live + 1) = x := by
      cases x <;> simp_all [Control.holder, Control.withReaper]
    rw [same]
    exact ⟨(Except.ok.inj assigned).symm, .inl ⟨by omega, rfl⟩⟩
  split at assigned
  · rename_i replaced
    refine ⟨?_, .inr (.inl replaced)⟩
    rw [← Except.ok.inj assigned]
    exact Control.clearReaper_or_reaper small fits owned _
  split at assigned
  · rename_i fresh
    refine ⟨?_, .inr (.inr ⟨by omega, fresh.2⟩)⟩
    rw [← Except.ok.inj assigned]
    exact Control.or_reaper small fits owned (reaper_eq.trans fresh.2) _
  split at assigned <;> cases assigned

variable {release : α → Nat → Bool}

theorem loadControl_repair_spec (lt : i < R.capacity) :
    Spec R strict (.repair live d i release) (loadControl i) .idle fun control v =>
      ∃ x : Control, x.Fits R.participants ∧ control = x.word ∧
        v = if x.holder = some (d, live + 1) then .repairing i x .start else .idle := by
  refine .read (Keeps.refl strict) fun s dead views t inv ht _ => ?_
  have slot := inv.slot i lt
  by_cases resumed : (s.ctl i).holder = some (d, live + 1)
  · refine ⟨.repairing i (s.ctl i) .start, ?_, s.ctl i, slot.fits, slot.word, by simp [resumed]⟩
    refine inv.step _ ht lt (.inr ⟨rfl, ?_⟩) (.inl rfl) (.refl s i) inv.ring slot
      ⟨rfl, ⟨d, resumed⟩, rfl, trivial⟩ (fun p r => inv.custody.reaped lt) ?_
    · intro u op' w hu about
      rcases (inv.custody.view hu).holder about with h | ⟨⟨p, h⟩, mine⟩
      · rw [resumed] at h
        cases h
      · rw [resumed, Option.some.injEq, Prod.mk.injEq] at h
        have owner : op'.owner = live := by omega
        have same := inv.custody.one_repair hu ht owner mine rfl
        subst same
        rw [ht, Option.some.injEq, Prod.mk.injEq] at hu
        rw [← hu.2] at about
        cases about
    · exact fun _ _ _ => .inr rfl
  · exact ⟨.idle, inv.stay ht, s.ctl i, slot.fits, slot.word, by simp [resumed]⟩

theorem swapControl_spec (lt : i < R.capacity) (other : d ≠ live) (fits : x.Fits R.participants)
    (holder : x.holder = some (p, r)) (takes : (p = d ∧ r = live + 1) ∨ r = d + 1 ∨ (p = d ∧ r = 0)) :
    Spec R strict (.repair live d i release) (swapControl R i x.word (x.withReaper (live + 1)).word)
      (if x.holder = some (d, live + 1) then .repairing i x .start else .idle) fun won v =>
        v = if won then .repairing i (x.withReaper (live + 1)) .start else .idle := by
  by_cases resumed : p = d ∧ r = live + 1
  · obtain ⟨rfl, rfl⟩ := resumed
    have same : x.withReaper (live + 1) = x := by
      cases x <;> simp_all [Control.holder, Control.withReaper]
    rw [swapControl, same]
    simp only [holder, ne_eq, not_true_eq_false, if_true, if_false]
    rfl
  have changed : (x.withReaper (live + 1)).word ≠ x.word := by
    intro same
    have small := R.participants_le
    have owned : x.isOwned = true := by cases x <;> simp_all [Control.holder, Control.isOwned]
    have reaper_eq : reaper x.word = r := by
      rw [Control.reaper_word small fits]
      cases x <;> simp_all [Control.holder, Control.fields]
    have lt' := Control.word_lt small fits
    rw [Control.withReaper_word small fits owned] at same
    rw [Queue.reaper_eq] at reaper_eq
    omega
  have fresh : ¬x.holder = some (d, live + 1) := by
    rw [holder, Option.some.injEq, Prod.mk.injEq]
    exact resumed
  rw [swapControl, if_pos changed, if_neg fresh]
  refine .exchange (Keeps.refl strict) (fun _ _ => rfl) fun s dead views t inv ht _ hc => ?_
  have ctl : s.ctl i = x := by
    rw [Shared.ctl, hc]
    exact Control.ofWord_word R.participants_le fits
  have gone : dead d = true := inv.custody.repairs ht rfl
  have slot := inv.slot i lt
  have source : dead p = true := by
    rcases takes with ⟨rfl, -⟩ | rfl | ⟨rfl, -⟩
    · exact gone
    · exact inv.custody.reaped lt (ctl ▸ holder)
    · exact gone
  have fits' := withReaper_fits fits (r := live + 1) (inv.custody.alive ht).2
  refine ⟨.repairing i (x.withReaper (live + 1)) .start, ?_, Keeps.of_same rfl rfl, rfl⟩
  refine inv.put ht lt (.inr ⟨rfl, ?_⟩) (.inl rfl) fits' (.refl ..) ?_ ?_ ?_ ?_ ?_
  · -- whoever had the slot would be dead
    intro u op' w hu about
    have alive' := (inv.custody.alive hu).1
    rcases (inv.custody.view hu).holder about with h | ⟨⟨q, h⟩, -⟩ <;>
      rw [ctl, holder, Option.some.injEq, Prod.mk.injEq] at h
    · rw [← h.1, source] at alive'
      cases alive'
    · obtain ⟨-, rfl⟩ := h
      have same : op'.owner = d := by omega
      rw [same, gone] at alive'
      cases alive'
  · refine inv.ring.put slot fits' rfl rfl rfl rfl rfl rfl fun c d r h => .inr ?_
    obtain rfl : x = .producer c d (r + 1) := ctl.symm.trans h
    exact ⟨c, d, live, rfl⟩
  · refine slot.put fits' (.refl ..) rfl (fun _ => by rw [ctl, withReaper_isConsumer]) ?_
    refine phase_put.mpr (withReaper_phase.mpr ?_)
    have phase := slot.phase
    rwa [ctl] at phase
  · exact ⟨put_ctl_self fits', ⟨p, withReaper_holder holder _⟩, rfl, trivial⟩
  · intro q r' h
    rw [withReaper_holder holder, Option.some.injEq, Prod.mk.injEq] at h
    exact h.1 ▸ source
  · exact fun _ _ _ => .inr rfl

/-! ### Judging and settling it -/

theorem complete_iff (fits : x.Fits R.participants) : x.word &&& completeBit ≠ 0 ↔ x.fields.2.1 = true :=
  Control.complete_word R.participants_le fits

theorem Inv.tail_sub_turn (inv : Inv strict s dead views) (lt : i < R.capacity) :
    (s.tail - (s.slot i).turn = 0 ↔ s.trail.turnPos i = s.trail.tailPos) ∧
      ((s.tail - (s.slot i).turn).toNat < R.half ↔ s.trail.turnPos i ≤ s.trail.tailPos) := by
  have near := inv.near lt
  rw [inv.ring.tail, (inv.slot i lt).turn]
  exact ⟨Geometry.distance_eq_zero (by omega) (by omega), Geometry.distance_lt_half (by omega) (by omega)⟩

theorem Inv.head_sub_turn (inv : Inv strict s dead views) (lt : i < R.capacity) :
    (s.head - (s.slot i).turn = 0 ↔ s.trail.turnPos i = s.trail.headPos) ∧
      ((s.head - (s.slot i).turn).toNat < R.half ↔ s.trail.turnPos i ≤ s.trail.headPos) := by
  have near := inv.near lt
  rw [inv.ring.head, (inv.slot i lt).turn]
  exact ⟨Geometry.distance_eq_zero (by omega) (by omega), Geometry.distance_lt_half (by omega) (by omega)⟩

theorem Inv.judge (inv : Inv strict s dead views) {mend' : Mend R.toGeometry}
    (ht : views t = some (op, .repairing i x mend)) (ok : mend'.Ok strict s i x) :
    Inv strict s dead (Function.update views t (some (op, .repairing i x mend'))) := by
  obtain ⟨ctl, holder, mine, -⟩ := inv.custody.view ht
  exact inv.learn ht rfl rfl ⟨ctl, holder, mine, ok⟩

theorem loadTurn_repair_spec :
    Spec R strict op (loadTurn i) (.repairing i x .start) fun turn v => v = .repairing i x (.read turn) := by
  refine .read (Keeps.refl strict) fun s dead views t inv ht _ => ?_
  exact ⟨.repairing i x (.read (s.slot i).turn), inv.judge ht rfl, rfl⟩

theorem loadTail_repair_spec (producer : x.isProducer = true) :
    Spec R strict op loadTail (.repairing i x (.read turn)) fun tail v => v = .repairing i x (if tail - turn = 0 then .clear
        else if (tail - turn).toNat < R.half then .skip else .read turn) := by
  refine .read (Keeps.refl strict) fun s dead views t inv ht _ => ?_
  obtain ⟨-, -, -, rfl⟩ := inv.custody.view ht
  obtain ⟨zero, half⟩ := inv.tail_sub_turn (inv.custody.bound ht rfl)
  refine ⟨_, inv.judge ht ?_, rfl⟩
  split
  · rename_i here
    exact ⟨producer, Nat.le_of_eq (zero.mp here).symm⟩
  rename_i apart
  split
  · rename_i near
    rw [zero] at apart
    rw [half] at near
    exact ⟨producer, by omega⟩
  · rfl

theorem storeEmpty_clear_spec (incomplete : x.fields.2.1 = false) :
    Spec R strict op (storeControl i empty) (.repairing i x .clear) fun _ v => v = .idle := by
  refine .write fun s dead views t inv ht _ => ?_
  obtain ⟨ctl, -, -, producer, late⟩ := inv.custody.view ht
  have slot := inv.slot i (inv.custody.bound ht rfl)
  refine ⟨.idle, ?_, Keeps.of_same rfl rfl, rfl⟩
  refine inv.leave (x := .empty) ht rfl rfl (.refl ..) ?_ ?_
  · exact inv.ring.put slot trivial rfl rfl rfl rfl rfl rfl fun c d r h => .inl late
  · refine slot.put trivial (.refl ..) rfl (fun _ => ?_) (.inl late)
    rw [ctl]
    cases x <;> first | rfl | cases producer

variable {control : Nat}

theorem releaseValue_spec (complete : control &&& completeBit ≠ 0 ↔ x.fields.2.1 = true)
    (still : ∀ {s : Shared R.toGeometry α}, mend.Ok strict s i x → mend.Ok strict (s.logRelease i) i x)
    (spent : ∀ {s : Shared R.toGeometry α} {dead views}, Inv strict s dead views → SlotOk s i → s.ctl i = x →
      (∃ p, x.holder = some (p, op.owner + 1)) → mend.Ok strict s i x → x.fields.2.1 = true → strict →
      s.trail.content i < s.trail.headPos ∨ (s.trail.fate (s.trail.content i) = .reserved ∧
        ∃ c d r, s.ctl (s.trail.content i % R.capacity) = .producer c d (r + 1))) :
    Spec R strict op (releaseValue R i control release) (.repairing i x mend) fun _ v => v = .repairing i x mend := by
  unfold releaseValue
  by_cases hc : control &&& completeBit ≠ 0
  · rw [if_pos hc]
    refine .action fun s dead views t inv ht _ => ?_
    obtain ⟨ctl, holder, mine, ok⟩ := inv.custody.view ht
    have lt := inv.custody.bound ht rfl
    have slot := inv.slot i lt
    refine ⟨.repairing i x mend, ?_, Keeps.of_same rfl rfl, rfl⟩
    refine inv.step (s.logRelease i) ht lt (.inl rfl) (.inl rfl) (.logRelease s i)
      (inv.ring.logRelease (spent inv slot ctl holder ok (complete.mp hc))) slot.logRelease
      ⟨ctl, holder, mine, still ok⟩ (fun p r => inv.custody.reaped lt) fun _ _ _ => .inr rfl
  · rw [if_neg hc]
    rfl

theorem release_skip_spec (complete : control &&& completeBit ≠ 0 ↔ x.fields.2.1 = true) :
    Spec R strict op (releaseValue R i control release) (.repairing i x .skip) fun _ v => v = .repairing i x .skip := by
  refine releaseValue_spec complete (fun ok => ok) fun {s dead views} inv slot ctl holder ok hc _ => .inr ?_
  obtain ⟨p, holder⟩ := holder
  cases x with
  | producer c q r =>
    obtain rfl : c = true := hc
    have phase := slot.phase
    rw [ctl] at phase
    rcases phase with ⟨h, -⟩ | ⟨reserved, written⟩
    · cases h
    · rw [(written rfl).2]
      simp only [Control.holder, Option.some.injEq, Prod.mk.injEq] at holder
      refine ⟨reserved, true, q, op.owner, ?_⟩
      rw [slot.mod, ctl, holder.2]
  | _ => cases ok.1

theorem skip_repair_spec : Spec R strict op (settleControl i available fun tr => tr.setFate i .skipped) (.repairing i x .skip)
      fun _ v => v = .idle := by
  refine .write fun s dead views t inv ht _ => ?_
  obtain ⟨ctl, -, -, producer, taken⟩ := inv.custody.view ht
  have slot := inv.slot i (inv.custody.bound ht rfl)
  have pending : s.trail.fate (s.trail.turnPos i) = .reserved ∨ s.trail.fate (s.trail.turnPos i) = .lost := by
    have phase := slot.phase
    rw [ctl] at phase
    cases x with
    | producer c p r =>
      rcases phase with ⟨-, late | lost⟩ | ⟨reserved, -⟩
      · omega
      · exact .inr lost
      · exact .inl reserved
    | _ => cases producer
  have ⟨inv', keeps⟩ := inv.settle .skipped false ht rfl pending rfl fun _ _ => rfl
  exact ⟨.idle, inv', keeps, rfl⟩

theorem repairProducer_spec (producer : x.isProducer = true) (complete : control &&& completeBit ≠ 0 ↔ x.fields.2.1 = true) :
    Spec R strict op (repairProducer R i control release) (.repairing i x .start) fun _ v => v.Idle := by
  refine .next loadTurn_repair_spec fun turn => ?_
  refine .next (loadTail_repair_spec producer) fun tail => ?_
  by_cases zero : tail - turn = 0
  · simp only [zero, if_true]
    split
    · trivial
    rename_i incomplete
    rw [complete] at incomplete
    refine .next (storeEmpty_clear_spec (by simpa using incomplete)) fun _ => ?_
    trivial
  by_cases behind : (tail - turn).toNat < R.half
  · simp only [zero, behind, if_true, if_false]
    refine .next (release_skip_spec complete) fun done => ?_
    cases done with
    | false => trivial
    | true =>
      refine .next skip_repair_spec fun _ => ?_
      trivial
  · simp only [zero, behind, if_false]
    trivial

theorem loadHead_repair_spec (consumer : x.isConsumer = true) :
    Spec R strict op (loadHeadAt (.judge i)) (.repairing i x (.read turn)) fun head v =>
      v = .repairing i x (if head = turn then .restore
        else if head - turn ≠ 0 ∧ (head - turn).toNat < R.half then .retire turn else .discard) := by
  refine .read (Keeps.refl strict) fun s dead views t inv ht judged => ?_
  obtain ⟨-, -, mine, rfl⟩ := inv.custody.view ht
  have lt := inv.custody.bound ht rfl
  have near := inv.near lt
  have here := inv.head_eq_turn lt
  have order := inv.ring.order
  obtain ⟨zero, half⟩ := inv.head_sub_turn lt
  obtain ⟨once, between⟩ : ¬Redelivers s i ∧ (strict → ¬Strands s i) := by
    cases op <;> first | exact judged | cases mine
  refine ⟨_, inv.judge ht ?_, rfl⟩
  split
  · rename_i same
    rw [here] at same
    refine ⟨consumer, Nat.le_of_eq same.symm, ?_⟩
    by_contra late
    -- turn, head and tail would coincide
    refine once ⟨(here.mpr same).symm, ?_⟩
    rw [inv.ring.head, inv.ring.tail, show s.trail.headPos = s.trail.tailPos by omega]
  rename_i apart
  rw [here] at apart
  split
  · rename_i behind
    rw [half] at behind
    exact ⟨consumer, by omega, rfl⟩
  · rename_i ahead
    rw [Ne, zero, half, not_and, Nat.not_le] at ahead
    refine ⟨consumer, by omega, fun st => ?_⟩
    by_contra early
    -- the turn would lie between head and tail
    refine between st ⟨⟨fun h => apart (here.mp h.symm), ?_⟩, fun h => ?_, ?_⟩
    · rw [inv.ring.head, (inv.slot i lt).turn, Geometry.distance_lt_half (by omega) (by omega)]
      omega
    · have := (inv.tail_eq_turn lt).mp h.symm
      omega
    · rw [(inv.tail_sub_turn lt).2]
      omega

theorem Control.eq_consumer (consumer : x.isConsumer = true) : ∃ p r, x = .consumer x.fields.2.1 p r := by
  cases x with
  | consumer c p r => exact ⟨p, r, rfl⟩
  | _ => cases consumer

theorem restore_repair_spec :
    Spec R strict op (storeControl i (Control.available x.fields.2.1).word) (.repairing i x .restore)
      fun _ v => v = .idle := by
  refine .write fun s dead views t inv ht _ => ?_
  obtain ⟨ctl, -, -, consumer, late, taken⟩ := inv.custody.view ht
  obtain ⟨p, r, hx⟩ := Control.eq_consumer consumer
  exact ⟨.idle, inv.restore ht rfl (ctl.trans hx) late taken, Keeps.of_same rfl rfl, rfl⟩

theorem release_retire_spec (complete : control &&& completeBit ≠ 0 ↔ x.fields.2.1 = true) :
    Spec R strict op (releaseValue R i control release) (.repairing i x (.retire turn))
      fun _ v => v = .repairing i x (.retire turn) := by
  refine releaseValue_spec complete (fun ok => ok) fun {s dead views} inv slot ctl _ ok hc _ => .inl ?_
  obtain ⟨p, r, hx⟩ := Control.eq_consumer ok.1
  rw [hc] at hx
  obtain ⟨w, -, -, content⟩ := slot.payload (ctl.trans hx) (Nat.lt_of_lt_of_le ok.2.1 inv.ring.order)
  exact content ▸ ok.2.1

theorem release_discard_spec (complete : control &&& completeBit ≠ 0 ↔ x.fields.2.1 = true) :
    Spec R strict op (releaseValue R i control release) (.repairing i x .discard) fun _ v => v = .repairing i x .discard := by
  refine releaseValue_spec complete (fun ok => ok) fun {s dead views} inv slot ctl _ ok hc st => .inl ?_
  obtain ⟨p, r, hx⟩ := Control.eq_consumer ok.1
  rw [hc] at hx
  have late := ok.2.2 st
  have phase := slot.phase
  rw [ctl, hx] at phase
  rcases phase with payload | ⟨-, lap, w, -, -, content⟩
  · have := inv.ring.lt_tail payload.ne_unreserved
    omega
  · have := slot.ahead
    omega

theorem storeTurn_repair_spec : Spec R strict op (storeTurn i (turn + R.lapWord)) (.repairing i x (.retire turn))
      fun _ v => v = .repairing i x .discard := by
  refine .write fun s dead views t inv ht _ => ?_
  obtain ⟨ctl, holder, mine, consumer, passed, rfl⟩ := inv.custody.view ht
  obtain ⟨p, r, hx⟩ := Control.eq_consumer consumer
  have lt := inv.custody.bound ht rfl
  have slot := inv.slot i lt
  have order := inv.ring.order
  have payload := slot.payload (ctl.trans hx) (Nat.lt_of_lt_of_le passed order)
  have late := (Turned.moveTurn slot payload).1
  refine ⟨.repairing i x .discard, ?_, Keeps.of_same rfl rfl, rfl⟩
  refine inv.step (s.moveTurn i) ht lt (.inl rfl) (.inl rfl) (.moveTurn s i) inv.ring.moveTurn
    (slot.moveTurn inv.ring (ctl.trans hx) passed payload)
    ⟨(moveTurn_ctl i).trans ctl, holder, mine, consumer, Nat.le_trans order late, fun _ => late⟩ ?_ ?_
  · intro p r
    rw [moveTurn_ctl]
    exact inv.custody.reaped lt
  · exact fun _ _ _ => .inr rfl

theorem storeEmpty_discard_spec :
    Spec R strict op (settleControl i empty fun tr => tr.discard R.capacity i) (.repairing i x .discard)
      fun _ v => v = .idle := by
  refine .write fun s dead views t inv ht _ => ?_
  obtain ⟨ctl, -, -, consumer, late, kept⟩ := inv.custody.view ht
  obtain ⟨p, r, hx⟩ := Control.eq_consumer consumer
  have slot := inv.slot i (inv.custody.bound ht rfl)
  by_cases turned : s.trail.tailPos ≤ s.trail.turnPos i
  · simp only [Trail.discard, turned, if_true]
    exact ⟨.idle, inv.recycle ht rfl (ctl.trans hx) turned, Keeps.of_same rfl rfl, rfl⟩
  · simp only [Trail.discard, turned, if_false]
    have loose : ¬strict := fun st => turned (kept st)
    refine ⟨.idle, ?_, ⟨List.prefix_refl _, fun st => absurd st loose⟩, rfl⟩
    refine inv.leave (x := .empty) ht rfl rfl (.setFate slot.mod .lost) ?_ ?_
    · exact inv.ring.put_fate slot late (by omega) (by simp) (fun st => absurd st loose) fun st => absurd st loose
    · exact slot.put trivial (.setFate slot.mod .lost) rfl (fun h => absurd h turned) (.inr (Function.update_self ..))

theorem available_or (fits : x.Fits R.participants) :
    available ||| (x.word &&& completeBit) = (Control.available x.fields.2.1).word := by
  have complete := complete_iff fits
  have bit : x.word &&& completeBit = 0 ∨ x.word &&& completeBit = completeBit := by
    rw [complete_eq]
    have : x.word / 4 % 2 < 2 := Nat.mod_lt _ (by omega)
    rcases Nat.lt_or_ge (x.word / 4 % 2) 1 with h | h
    · exact .inl (by rw [show x.word / 4 % 2 = 0 by omega])
    · exact .inr (by rw [show x.word / 4 % 2 = 1 by omega]; rfl)
  cases hc : x.fields.2.1 with
  | false =>
    rw [hc] at complete
    rcases bit with h | h
    · rw [h]
      rfl
    · rw [h] at complete
      exact absurd (complete.mp (by decide)) (by simp)
  | true =>
    rcases bit with h | h
    · exact absurd h (complete.mpr hc)
    · rw [h]
      rfl

theorem repairConsumer_spec {y : Control} (consumer : x.isConsumer = true)
    (fits : y.Fits R.participants) (same : y.fields.2.1 = x.fields.2.1) :
    Spec R strict op (repairConsumer R i y.word release) (.repairing i x .start) fun _ v => v.Idle := by
  have complete : y.word &&& completeBit ≠ 0 ↔ x.fields.2.1 = true := same ▸ complete_iff fits
  refine .next loadTurn_repair_spec fun turn => ?_
  refine .next (loadHead_repair_spec consumer) fun head => ?_
  by_cases here : head = turn
  · simp only [here, if_true]
    rw [available_or fits, same]
    refine .next restore_repair_spec fun _ => ?_
    trivial
  simp only [here, if_false]
  by_cases behind : head - turn ≠ 0 ∧ (head - turn).toNat < R.half
  · rw [if_pos behind]
    refine .next (release_retire_spec complete) fun done => ?_
    cases done with
    | false => trivial
    | true =>
      have moves : (advanceTurn R i turn head : QueueProg R.toGeometry α Unit) =
          storeTurn i (turn + R.lapWord) := if_pos behind
      simp only [moves]
      refine .next storeTurn_repair_spec fun _ => ?_
      refine .next storeEmpty_discard_spec fun _ => ?_
      trivial
  · rw [if_neg behind]
    refine .next (release_discard_spec complete) fun done => ?_
    cases done with
    | false => trivial
    | true =>
      have stays : (advanceTurn R i turn head : QueueProg R.toGeometry α Unit) = pure () := if_neg behind
      simp only [stays, Prog.pure_eq, Prog.bind_eq, Prog.done_bind]
      refine .next storeEmpty_discard_spec fun _ => ?_
      trivial

theorem repairSlotWith_spec (other : d ≠ live) :
    Spec R strict (.repair live d i release) (repairSlotWith R i d live release) .idle fun _ v => v.Idle := by
  unfold repairSlotWith
  split
  · trivial
  split
  · trivial
  rename_i bound
  have lt : i < R.capacity := Nat.not_le.mp bound
  refine .seq (loadControl_repair_spec lt) ?_
  rintro _ _ ⟨x, fits, rfl, rfl⟩
  have small := R.participants_le
  have idle : ∀ y : Control, (if x.holder = some (d, live + 1) then View.repairing i y .start else .idle :
      View R.toGeometry α).Idle := by
    intro y
    split <;> trivial
  rw [Control.canonical_word small fits]
  split
  · exact idle x
  split
  · exact idle x
  rename_i owned
  obtain ⟨p, r, holder⟩ : ∃ p r, x.holder = some (p, r) := by
    rw [Control.base_word small fits] at owned
    cases x with
    | producer c p r => exact ⟨p, r, rfl⟩
    | consumer c p r => exact ⟨p, r, rfl⟩
    | empty => exact absurd ⟨by decide, by decide⟩ owned
    | available c => exact absurd ⟨by cases c <;> decide, by cases c <;> decide⟩ owned
  rcases assigned : assign d live x.word with result | next
  · exact idle x
  obtain ⟨rfl, takes⟩ := assign_ok fits holder assigned
  refine .next (swapControl_spec lt other fits holder takes) fun won => ?_
  cases won with
  | false => trivial
  | true =>
    simp only [Bool.not_true, Bool.false_eq_true, if_true, if_false]
    rw [Control.base_word small fits]
    cases x with
    | producer c p r => exact repairProducer_spec rfl (complete_iff fits)
    | consumer c p r => exact repairConsumer_spec rfl fits rfl
    | empty => cases holder
    | available c => cases holder

/-! ### Closing -/

theorem fetchOr_spec {bits : Nat} : Spec R strict op (fetchOr bits) v fun _ w => w = v := by
  refine .write fun s dead views t inv ht _ => ⟨v, ?_, Keeps.of_same rfl rfl, rfl⟩
  rw [Protocol.update_same ht]
  have ring := inv.ring
  have custody := inv.custody
  exact
    { ring := ⟨ring.head, ring.tail, ring.order, ring.unreserved, ring.past, ring.claims, ring.takes,
        ring.takes_nodup, ring.kept, ring.released⟩
      slot := fun i lt =>
        have slot := inv.slot i lt
        ⟨slot.turn, slot.mod, slot.behind, slot.ahead, slot.fits, slot.word, slot.phase, slot.recycled⟩
      custody := ⟨custody.alive, custody.repairs, custody.one_repair, custody.view, custody.bound,
        custody.one, custody.reaped, custody.held⟩ }

theorem noneOwned_spec {slots : List Nat} : Spec R strict op (noneOwned R ownedBase slots) v fun _ w => w = v := by
  induction slots with
  | nil => rfl
  | cons i rest ih =>
    refine .seq (R := fun _ w => w = v) (peek_spec fun _ => rfl) ?_
    rintro control _ rfl
    split
    · exact ih
    · rfl

theorem finishField_spec {field : Nat} : Spec R strict op (finishField R field ownedBase) v fun _ w => w = v := by
  refine .seq (R := fun _ w => w = v) (peek_spec fun _ => rfl) ?_
  rintro state _ rfl
  split
  · refine .next noneOwned_spec fun free => ?_
    split
    · refine .next fetchOr_spec fun _ => ?_
      rfl
    · rfl
  · rfl

theorem sendClosed_spec : Spec R strict op (sendClosed R) v fun _ w => w = v := by
  refine .next finishField_spec fun _ => ?_
  rfl

theorem recvClosed_spec : Spec R strict op (recvClosed R) v fun _ w => w = v := by
  refine .next finishField_spec fun _ => ?_
  rfl

theorem isEmpty_peek_spec : Spec R strict op (isEmpty R) v fun _ w => w = v := by
  refine .seq (R := fun _ w => w = v) (peek_spec fun _ => rfl) ?_
  rintro _ _ rfl
  refine .seq (R := fun _ w => w = _) (peek_spec fun _ => rfl) ?_
  rintro _ _ rfl
  rfl

theorem terminal_spec : Spec R strict op (terminal R) v fun _ w => w = v := by
  refine .next recvClosed_spec fun closed => ?_
  split
  · rfl
  refine .next sendClosed_spec fun closed => ?_
  split
  · exact isEmpty_peek_spec
  · rfl

theorem code_spec (other : ∀ d i, op.repairs = some (d, i) → d ≠ op.owner) :
    Spec R strict op (op.code R) .idle fun _ v => v.Idle := by
  have ended : ∀ {β : Type} {prog : QueueProg R.toGeometry α β},
      Spec R strict op prog .idle (fun _ w => w = .idle) →
      Spec R strict op (prog.bind fun _ => .done ()) .idle fun _ v => v.Idle := by
    refine fun h => .seq h ?_
    rintro _ _ rfl
    trivial
  cases op with
  | produce p value send => exact produce_spec (.produce p value send)
  | consume p use => exact consume_spec (.consume p use)
  | closeSend p => exact fetchOr_spec.mono fun _ _ h => h ▸ trivial
  | closeRecv p => exact fetchOr_spec.mono fun _ _ h => h ▸ trivial
  | sendClosed p => exact ended sendClosed_spec
  | recvClosed p => exact ended recvClosed_spec
  | terminal p => exact ended terminal_spec
  | repair live d i release =>
    exact .seq (repairSlotWith_spec (other d i rfl)) fun _ _ h => h

end Specs

end Evering.Queue
