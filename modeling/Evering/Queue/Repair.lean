import Evering.Queue.Delivery

/-!
# Crashes and repair

A repair that judges a consumer's slot by comparing its turn with head goes wrong in two cases. When the
consumer has moved the turn on and turn, head and tail coincide, the consumed position becomes available a
second time. When a stale consumer has taken a slot that holds a message of the next lap, the message is
thrown away. In every run in which no repair meets the first case nothing is delivered twice, and in every
run in which none meets either case nothing is lost.
-/

namespace Evering.Queue

open Interleave Cursor List Option

section Conditions

variable {R : Route} {α : Type} {strict : Prop}

instance (s : Shared R.toGeometry α) (i : Nat) : Decidable (Redelivers s i) :=
  inferInstanceAs (Decidable (_ ∧ _))

instance (s : Shared R.toGeometry α) (i : Nat) : Decidable (Strands s i) :=
  inferInstanceAs (Decidable ((_ ∧ _) ∧ _ ∧ _))

instance [Decidable strict] (op : Op α) (site : Site) (s : Shared R.toGeometry α) :
    Decidable (Judged strict op site s) :=
  match op, site with
  | .repair .., .judge i => inferInstanceAs (Decidable (¬Redelivers s i ∧ (strict → ¬Strands s i)))
  | .repair .., .plain => .isTrue trivial
  | .repair .., .seize => .isTrue trivial
  | .produce .., _ => .isTrue trivial
  | .consume .., _ => .isTrue trivial
  | .closeSend _, _ => .isTrue trivial
  | .closeRecv _, _ => .isTrue trivial
  | .sendClosed _, _ => .isTrue trivial
  | .recvClosed _, _ => .isTrue trivial
  | .terminal _, _ => .isTrue trivial

/-- Steps in which every judgement of a repair is sound. -/
abbrev Fair (strict : Prop) : Config (Shared R.toGeometry α) Site (Op α) → Step (Op α) → Prop :=
  Allowed (Judged strict) fun _ _ => True

end Conditions

/-! ### No redelivery -/

section Redelivery

variable {R : Route} {α : Type} {strict : Prop} {s : Shared R.toGeometry α} {dead : Nat → Bool}
  {views : Views (Op α) (View R.toGeometry α)}

theorem Ring.claims_nodup (ring : Ring strict s) : s.trail.claims.Nodup := by
  rw [ring.claims]
  exact nodup_range.filter _

theorem Inv.available_ahead (inv : Inv strict s dead views) {i : Nat} (lt : i < R.capacity)
    (control : (s.slot i).control = available ∨ (s.slot i).control = available ||| completeBit) :
    ∃ p, (s.slot i).turn = R.cursor p ∧ s.trail.headPos ≤ p ∧ p < s.trail.tailPos := by
  obtain ⟨c, ctl⟩ : ∃ c, s.ctl i = .available c := by
    rcases control with h | h
    · exact ⟨false, by rw [Shared.ctl, h]; decide⟩
    · exact ⟨true, by rw [Shared.ctl, h]; decide⟩
  have phase := (inv.slot i lt).phase
  rw [ctl] at phase
  exact ⟨s.trail.turnPos i, (inv.slot i lt).turn, phase.1, inv.ring.lt_tail phase.2.ne_unreserved⟩

end Redelivery

/-- **Repair without redelivery.** In every run with crashes at any step and repairs by chains of reapers in which no repair
judges a consumer's slot while turn, head and tail coincide: head does not pass tail; every successful claim is of a
published position, each at most once and in order; what is taken is taken once and is what was published; and no position is
available again after its claim. -/
theorem repair_without_redelivery (R : Route) {α : Type} {c : Config (Shared R.toGeometry α) Site (Op α)}
    (run : (machine R α true).Run (Fair False) (.start (.init R.toGeometry α)) c) :
    (c.shared.head = R.cursor c.shared.trail.headPos ∧ c.shared.tail = R.cursor c.shared.trail.tailPos ∧
      c.shared.trail.headPos ≤ c.shared.trail.tailPos) ∧
    c.shared.trail.claims =
      (List.range c.shared.trail.headPos).filter (fun p => (c.shared.trail.fate p).isPublished) ∧
    (∀ p x, (p, x) ∈ c.shared.trail.takes →
      p ∈ c.shared.trail.claims ∧ ∃ v, x = some v ∧ c.shared.trail.fate p = .published v) ∧
    (c.shared.trail.takes.map Prod.fst).Nodup ∧
    (∀ i, i < R.capacity →
      (c.shared.slot i).control = available ∨ (c.shared.slot i).control = available ||| completeBit →
      ∃ p, (c.shared.slot i).turn = R.cursor p ∧ c.shared.trail.headPos ≤ p ∧
        p < c.shared.trail.tailPos) ∧
    ∀ c', (machine R α true).Run (Fair False) c c' →
      ∃ later, c'.shared.trail.claims = c.shared.trail.claims ++ later ∧
        ∀ p ∈ later, p ∉ c.shared.trail.claims := by
  have holds := (sound R α False).run (sound R α False).start run
  have ⟨views, inv, _⟩ := holds
  have ring := inv.ring
  refine ⟨⟨ring.head, ring.tail, ring.order⟩, ring.claims, fun p x => ring.taken, ring.takes_nodup,
    fun i lt => inv.available_ahead lt, fun c' further => ?_⟩
  · obtain ⟨later, extended⟩ :=
      ((sound R α False).run_guar (fun _ _ _ => Keeps.trans) holds further).claims
    obtain ⟨views', inv', -⟩ := (sound R α False).run holds further
    have nodup := inv'.ring.claims_nodup
    rw [← extended, nodup_append] at nodup
    exact ⟨later, extended.symm, fun p mem mem' => nodup.2.2 p mem' p mem rfl⟩

/-- A consumer dies after it has moved head, and its slot is repaired. -/
theorem repair_without_redelivery_pair :
    ∃ c, (machine pairRoute Nat true).Run (Fair False) (.start (.init pairRoute.toGeometry Nat)) c ∧
      c.shared.trail.claims = [0] ∧ c.shared.trail.recycled 0 = true ∧
      c.shared.trail.headPos ≤ c.shared.trail.tailPos := by
  have steps : ((machine pairRoute Nat true).execIf (Fair False) (.start (.init pairRoute.toGeometry Nat))
      (.spawn (.produce 0 7 .publish) :: List.replicate 13 (.run 0 0) ++
        .spawn (.consume 1 .take) :: List.replicate 7 (.run 1 0) ++
        .crash 1 :: .spawn (.repair 2 1 0 fun _ _ => true) :: List.replicate 7 (.run 2 0))).map
      (fun c => (c.shared.trail.claims, c.shared.trail.recycled 0)) = some ([0], true) := by decide +kernel
  obtain ⟨c, run, same⟩ := Machine.exists_run steps
  rw [Prod.mk.injEq] at same
  exact ⟨c, run, same.1, same.2, (repair_without_redelivery pairRoute run).1.2.2⟩

/-- The consumer of the only message dies between its two stores of `recycle`. The turn it has stored is head
and tail, so that the repair makes the message available again: it is taken twice and head passes tail. -/
theorem repair_redelivers :
    ∃ c, (machine singleRoute Nat true).Reaches (.start (.init singleRoute.toGeometry Nat)) c ∧
      c.shared.trail.takes = [(0, some 7), (1, some 7)] ∧ c.shared.trail.tailPos = 1 ∧
      c.shared.trail.headPos = 2 := by
  have steps : ((machine singleRoute Nat true).execAll (.start (.init singleRoute.toGeometry Nat))
      (.spawn (.produce 0 7 .publish) :: List.replicate 13 (.run 0 0) ++
        .spawn (.consume 1 .take) :: List.replicate 9 (.run 1 0) ++
        .crash 1 :: .spawn (.repair 2 1 0 fun _ _ => true) :: List.replicate 5 (.run 2 0) ++
        .spawn (.consume 0 .take) :: List.replicate 10 (.run 3 0))).map
      (fun c => (c.shared.trail.takes, c.shared.trail.tailPos, c.shared.trail.headPos)) =
      some ([(0, some 7), (1, some 7)], 1, 2) := by decide +kernel
  obtain ⟨c, run, same⟩ := Machine.exists_reaches steps
  rw [Prod.mk.injEq, Prod.mk.injEq] at same
  exact ⟨c, run, same⟩

/-! ### Nothing is lost -/

section Loss

variable {R : Route} {α : Type} {s : Shared R.toGeometry α} {dead : Nat → Bool}
  {views : Views (Op α) (View R.toGeometry α)}

/-- The slot of a position from head on. A reserved position has its turn and is not empty. The turn of a
position that is not reserved is there and the slot not available, or the slot is still with the consumer of
the position one lap before. -/
def Placed (s : Shared R.toGeometry α) (p : Nat) : Prop :=
  let slot := s.slot (p % R.capacity)
  if p < s.trail.tailPos then slot.turn = R.cursor p ∧ base slot.control ≠ empty
  else (slot.turn = R.cursor p ∧ base slot.control ≠ available) ∨
    (R.capacity ≤ p ∧ p - R.capacity < s.trail.headPos ∧ slot.turn = R.cursor (p - R.capacity) ∧
      base slot.control = consumer)

theorem SlotOk.base_control {i : Nat} (slot : SlotOk s i) : base (s.slot i).control = (s.ctl i).fields.1 := by
  rw [slot.word]
  exact Control.base_word R.participants_le slot.fits

theorem Inv.placed (inv : Inv True s dead views) {p : Nat} (late : s.trail.headPos ≤ p)
    (near : p < s.trail.headPos + R.capacity) : Placed s p := by
  have lt : p % R.capacity < R.capacity := Nat.mod_lt _ R.capacity_pos
  have slot := inv.slot _ lt
  have phase := slot.phase
  have order := inv.ring.order
  have behind := slot.behind
  have ahead := slot.ahead
  simp only [Placed]
  rw [slot.turn, slot.base_control]
  split
  · rename_i taken
    have here := inv.turnPos_waiting late taken
    refine ⟨by rw [here], ?_⟩
    rcases ctl : s.ctl (p % R.capacity) with _ | ⟨c, q, r⟩ | c | ⟨c, q, r⟩
    · rw [ctl] at phase
      rcases phase with early | lost
      · omega
      · exact absurd lost (inv.ring.kept trivial _)
    · simp [Control.fields, empty]
    · simp [Control.fields, empty]
    · simp [Control.fields, empty]
  rename_i free
  rcases Nat.lt_trichotomy (s.trail.turnPos (p % R.capacity)) p with h | h | h
  · have apart := lap_apart slot.mod h
    have here : s.trail.turnPos (p % R.capacity) = p - R.capacity := by
      rcases Nat.lt_or_ge (s.trail.turnPos (p % R.capacity)) (p - R.capacity) with h' | h'
      · have := lap_apart (slot.mod.trans (Nat.mod_eq_sub_mod (by omega))) h'
        omega
      · omega
    refine .inr ⟨by omega, by omega, by rw [here], ?_⟩
    -- head has passed this position, so that only its consumer can have the slot
    have past := inv.ring.past (s.trail.turnPos (p % R.capacity)) (by omega)
    rcases ctl : s.ctl (p % R.capacity) with _ | ⟨c, q, r⟩ | c | ⟨c, q, r⟩ <;>
      simp only [ctl, Phase, Vacant, Reserved] at phase
    · rcases phase with early | lost
      · omega
      · exact absurd lost (inv.ring.kept trivial _)
    · rcases phase with ⟨-, early | lost⟩ | ⟨reserved, -⟩
      · omega
      · exact absurd lost (inv.ring.kept trivial _)
      · rcases past with h' | ⟨v, h'⟩ <;> rw [reserved] at h' <;> cases h'
    · omega
    · rfl
  · refine .inl ⟨by rw [h], ?_⟩
    rcases ctl : s.ctl (p % R.capacity) with _ | ⟨c, q, r⟩ | c | ⟨c, q, r⟩
    · simp [Control.fields, available]
    · simp [Control.fields, available]
    · rw [ctl] at phase
      have := inv.ring.lt_tail phase.2.ne_unreserved
      omega
    · simp [Control.fields, available]
  · have := lap_apart slot.mod.symm h
    omega

/-- A published position that head has not passed is in its slot, available or with a consumer, and was not
released. -/
theorem Inv.unclaimed (inv : Inv True s dead views) {p : Nat} {v : α}
    (published : s.trail.fate p = .published v) (late : s.trail.headPos ≤ p) :
    (s.slot (p % R.capacity)).turn = R.cursor p ∧ (s.slot (p % R.capacity)).value = some v ∧
      ((s.slot (p % R.capacity)).control = available ||| completeBit ∨
        base (s.slot (p % R.capacity)).control = consumer) ∧ p ∉ s.trail.released := by
  have lt : p % R.capacity < R.capacity := Nat.mod_lt _ R.capacity_pos
  have slot := inv.slot _ lt
  have phase := slot.phase
  have taken := inv.ring.lt_tail (p := p) (by simp [published])
  have here := inv.turnPos_waiting late taken
  have unreleased : p ∉ s.trail.released := by
    intro mem
    rcases inv.ring.released trivial p mem with early | skipped | ⟨reserved, -⟩
    · omega
    · rw [published] at skipped
      cases skipped
    · rw [published] at reserved
      cases reserved
  rcases ctl : s.ctl (p % R.capacity) with _ | ⟨c, q, r⟩ | c | ⟨c, q, r⟩ <;>
    simp only [ctl, Phase, Vacant, Reserved, Turned, here, published, reduceCtorEq, or_false, false_and] at phase
  · omega
  · omega
  · refine ⟨by rw [slot.turn, here], phase.2.value published, .inl ?_, unreleased⟩
    cases c with
    | false =>
      have skipped : s.trail.fate p = .skipped := phase.2
      rw [published] at skipped
      cases skipped
    | true =>
      rw [slot.word, ctl]
      rfl
  · refine ⟨by rw [slot.turn, here], ?_, .inr (by rw [slot.base_control, ctl]; rfl), unreleased⟩
    rcases phase with payload | ⟨early, -⟩
    · exact payload.value published
    · omega

/-- A producer that runs alone on an open queue publishes at tail, if the slot there is free. -/
theorem produce_alone (s : Shared R.toGeometry α) (q : Nat) (value : α) (oracle : Nat → Nat)
    (sending : (s.lifecycle >>> R.sendField) &&& 0b11 = 0) (receiving : (s.lifecycle >>> R.recvField) &&& 0b11 = 0)
    (control : (s.slot (R.index s.tail)).control = empty) (turn : (s.slot (R.index s.tail)).turn = s.tail) :
    let s' := ((Op.code R (.produce q value .publish)).solo oracle 0 s).1
    s'.trail.tailPos = s.trail.tailPos + 1 ∧
      s'.trail.fate (s.trail.turnPos (R.index s.tail)) = .published value := by
  simp [Op.code, reserve, stage, publish, state, fieldState, loadTail, loadControl, loadTurn,
    compareExchangeControl, compareExchangeControlAt, compareExchangeTail, storeControl, settleControl, writeValue,
    Prog.bind_assoc, Prog.ite_bind, receiving, sending, control, turn, Shared.setSlot, Trail.reserve, Trail.setFate,
    Trail.writeValue]

/-- The word of a slot names a participant as its source or reaper. -/
def Names (control q : Nat) : Prop := source control = q + 1 ∨ reaper control = q + 1

theorem SlotOk.names {i q r : Nat} (slot : SlotOk s i) (holder : (s.ctl i).holder = some (q, r)) :
    Names (s.slot i).control q := by
  left
  rw [slot.word, Control.source_word R.participants_le slot.fits]
  rcases ctl : s.ctl i with _ | ⟨c, p, k⟩ | c | ⟨c, p, k⟩ <;> rw [ctl] at holder <;>
    simp_all [Control.holder, Control.fields]

/-- The slot at tail is free when no slot is in anybody's hands and the ring is not full. -/
theorem Inv.tail_free (inv : Inv True s dead views)
    (unowned : ∀ i, i < R.capacity → base (s.slot i).control ≠ producer ∧ base (s.slot i).control ≠ consumer)
    (room : s.trail.tailPos < s.trail.headPos + R.capacity) :
    (s.slot (R.index s.tail)).control = empty ∧ (s.slot (R.index s.tail)).turn = s.tail ∧
      s.trail.turnPos (R.index s.tail) = s.trail.tailPos := by
  have index : R.index s.tail = s.trail.tailPos % R.capacity := by
    rw [inv.ring.tail, Geometry.index_cursor]
  rw [index]
  have lt : s.trail.tailPos % R.capacity < R.capacity := Nat.mod_lt _ R.capacity_pos
  have slot := inv.slot _ lt
  have placed := inv.placed inv.ring.order room
  obtain ⟨noProducer, noConsumer⟩ := unowned _ lt
  simp only [Placed, Nat.lt_irrefl, if_false] at placed
  rcases placed with ⟨turn, notAvailable⟩ | ⟨-, -, -, isConsumer⟩
  · refine ⟨?_, by rw [turn, inv.ring.tail], ?_⟩
    · rw [slot.base_control] at noProducer noConsumer notAvailable
      rw [slot.word]
      rcases ctl : s.ctl (s.trail.tailPos % R.capacity) with _ | ⟨c, q, r⟩ | c | ⟨c, q, r⟩
      · rfl
      · exact absurd (by rw [ctl]; rfl) noProducer
      · exact absurd (by rw [ctl]; rfl) notAvailable
      · exact absurd (by rw [ctl]; rfl) noConsumer
    · have near := inv.near lt
      rw [slot.turn, Geometry.cursor_inj (by omega) (by omega)] at turn
      exact turn
  · exact absurd isConsumer noConsumer

end Loss

/-- **Repair without loss.** In every run with crashes at any step and repairs by chains of reapers in which no repair judges
a consumer's slot while turn, head and tail coincide or while the turn lies between head and tail: the successful claims are
the published positions that head has passed, each once and in order; a published position that head has not passed waits in
its slot, available or with a consumer; no fate changes; and when nothing runs and no word names the dead, consumers claim
what was published, and a producer publishes where there is room. -/
theorem repair_without_loss (R : Route) {α : Type} {c : Config (Shared R.toGeometry α) Site (Op α)}
    (run : (machine R α true).Run (Fair True) (.start (.init R.toGeometry α)) c) :
    c.shared.trail.claims =
      (List.range c.shared.trail.headPos).filter (fun p => (c.shared.trail.fate p).isPublished) ∧
    (∀ p v, c.shared.trail.fate p = .published v → c.shared.trail.headPos ≤ p →
      (c.shared.slot (p % R.capacity)).turn = R.cursor p ∧
      (c.shared.slot (p % R.capacity)).value = some v ∧
      ((c.shared.slot (p % R.capacity)).control = available ||| completeBit ∨
        base (c.shared.slot (p % R.capacity)).control = consumer) ∧
      p ∉ c.shared.trail.released) ∧
    (∀ p, c.shared.trail.headPos ≤ p → p < c.shared.trail.headPos + R.capacity → Placed c.shared p) ∧
    (∀ c', (machine R α true).Run (Fair True) c c' → ∀ p, (c.shared.trail.fate p).isSettled = true →
      c'.shared.trail.fate p = c.shared.trail.fate p) ∧
    ((∀ t, c.threads t = none) →
      (∀ i, i < R.capacity → ∀ q, c.dead q = true → ¬Names (c.shared.slot i).control q) →
      (c.shared.lifecycle >>> R.recvField) &&& 0b11 = 0 →
      ∀ q, q < R.participants → c.dead q = false →
        (∃ c', (machine R α true).Run (Fair True) c c' ∧
          c'.shared.trail.tailPos = c.shared.trail.tailPos ∧
          c'.shared.trail.claims =
            (List.range c.shared.trail.tailPos).filter fun p => (c.shared.trail.fate p).isPublished) ∧
        ((∀ i, i < R.capacity → base (c.shared.slot i).control ≠ producer ∧
            base (c.shared.slot i).control ≠ consumer) →
          c.shared.trail.tailPos < c.shared.trail.headPos + R.capacity →
          (c.shared.lifecycle >>> R.sendField) &&& 0b11 = 0 → ∀ v,
          ∃ c', (machine R α true).Run (Fair True) c c' ∧
            c'.shared.trail.tailPos = c.shared.trail.tailPos + 1 ∧
            c'.shared.trail.fate c.shared.trail.tailPos = .published v)) := by
  have holds := (sound R α True).run (sound R α True).start run
  have ⟨views, inv, _⟩ := holds
  have ring := inv.ring
  refine ⟨ring.claims, fun p v => inv.unclaimed, fun p => inv.placed, fun c' further p settled => ?_,
    fun idle clean receiving q lt alive => ⟨?_, fun unowned room sending v => ?_⟩⟩
  · have keeps := (sound R α True).run_guar (fun _ _ _ => Keeps.trans) holds further
    exact keeps.settled trivial p settled
  · have clean' : ∀ i, i < R.capacity → ∀ q r, (c.shared.ctl i).holder = some (q, r) → c.dead q = false := by
      intro i lt q r holder
      by_contra gone
      exact clean i lt q (by simpa using gone) ((inv.slot i lt).names holder)
    obtain ⟨c', rest, head, tail, fate⟩ := drain holds idle clean' receiving lt alive
    have fair : (machine R α true).Run (Fair True) c c' := rest.mono fun _ _ h => h.2
    obtain ⟨views', inv', -⟩ := (sound R α True).run holds fair
    refine ⟨c', fair, tail, ?_⟩
    rw [inv'.ring.claims, head, fate]
  · obtain ⟨control, turn, here⟩ := inv.tail_free unowned room
    have ok : ∀ (c : Config (Shared R.toGeometry α) Site (Op α)) t prog n,
        c.threads t = some (.produce q v .publish, prog) → Fair True c (.run t n) := by
      intro c t prog n ht op site act next h
      rw [ht, Option.some.injEq, Prod.mk.injEq] at h
      exact h.1 ▸ trivial
    have ready : (machine R α true).ready c.shared c.dead [] (.produce q v .publish) = true := by
      simp [machine, Op.owner, Op.repairs, lt]
    obtain ⟨c', run', shared, -, -⟩ := Machine.spawn_alone (M := machine R α true) (fun _ => trivial) ok
      (fun _ => 0) idle alive ready
    have effect := produce_alone c.shared q v (fun _ => 0) sending receiving control turn
    have code : (machine R α true).code (.produce q v .publish) = Op.code R (.produce q v .publish) := rfl
    simp only [← code, ← shared, here] at effect
    exact ⟨c', run', effect⟩

/-- A producer dies with a staged message behind a published one, and its slot is repaired. -/
theorem repair_without_loss_pair :
    ∃ c, (machine pairRoute Nat true).Run (Fair True) (.start (.init pairRoute.toGeometry Nat)) c ∧
      c.shared.trail.fate 0 = .published 7 ∧ c.shared.trail.released = [1] ∧
      ∀ p, c.shared.trail.headPos ≤ p → p < c.shared.trail.headPos + 2 → Placed c.shared p := by
  have steps : ((machine pairRoute Nat true).execIf (Fair True) (.start (.init pairRoute.toGeometry Nat))
      (.spawn (.produce 0 7 .publish) :: List.replicate 13 (.run 0 0) ++
        .spawn (.produce 1 8 .publish) :: List.replicate 12 (.run 1 0) ++
        .crash 1 :: .spawn (.repair 2 1 1 fun _ _ => true) :: List.replicate 6 (.run 2 0))).map
      (fun c => (c.shared.trail.fate 0, c.shared.trail.released)) = some (.published 7, [1]) := by decide +kernel
  obtain ⟨c, run, same⟩ := Machine.exists_run steps
  rw [Prod.mk.injEq] at same
  exact ⟨c, run, same.1, same.2, (repair_without_loss pairRoute run).2.2.1⟩

/-- A consumer reads head and the available word of slot 0, and sleeps while another one takes the message
and a producer publishes two more, the second in slot 0. It then takes the slot and dies. The repair releases
the message at position 2 and empties its slot: when head comes to it, the queue is stuck. -/
theorem repair_loses :
    ∃ c c', (machine pairRoute Nat true).Reaches (.start (.init pairRoute.toGeometry Nat)) c ∧
      c.shared.trail.fate 2 = .published 9 ∧ c.shared.trail.headPos = 1 ∧
      (machine pairRoute Nat true).Reaches c c' ∧
      c'.shared.trail.released = [2] ∧ c'.shared.head = (c'.shared.slot 0).turn ∧
      (c'.shared.slot 0).control = empty ∧ c'.shared.trail.headPos = 2 ∧ c'.shared.trail.tailPos = 3 := by
  have steps : (((machine pairRoute Nat true).execAll (.start (.init pairRoute.toGeometry Nat))
      (.spawn (.produce 1 7 .publish) :: List.replicate 13 (.run 0 0) ++
        .spawn (.consume 0 .take) :: List.replicate 3 (.run 1 0) ++
        .spawn (.consume 1 .take) :: List.replicate 10 (.run 2 0) ++
        .spawn (.produce 1 8 .publish) :: List.replicate 13 (.run 3 0) ++
        .spawn (.produce 1 9 .publish) :: List.replicate 13 (.run 4 0))).bind fun c =>
      ((machine pairRoute Nat true).execAll c
        (.run 1 0 :: .crash 0 :: .spawn (.repair 1 0 0 fun _ _ => true) :: List.replicate 6 (.run 5 0) ++
          .spawn (.repair 1 0 1 fun _ _ => true) :: .run 6 0 ::
          .spawn (.consume 1 .take) :: List.replicate 10 (.run 7 0))).map fun c' =>
      (c, c')).map (fun (c, c') =>
        ((c.shared.trail.fate 2, c.shared.trail.headPos),
          (c'.shared.trail.released, decide (c'.shared.head = (c'.shared.slot 0).turn),
            (c'.shared.slot 0).control, c'.shared.trail.headPos, c'.shared.trail.tailPos))) =
      some ((.published 9, 1), ([2], true, empty, 2, 3)) := by decide +kernel
  obtain ⟨c₁, c₂, first, second, same⟩ := exists_stages steps
  simp only [Prod.mk.injEq, decide_eq_true_eq] at same
  exact ⟨c₁, c₂, Machine.reaches_of_execAll first, same.1.1, same.1.2, Machine.reaches_of_execAll second,
    same.2⟩

end Evering.Queue
