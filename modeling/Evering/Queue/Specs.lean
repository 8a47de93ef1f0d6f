import Evering.Queue.Steps

/-!
# Specifications of the queue operations

The protocol of the queue and one specification per function: which slot the thread has before and after it
and how far it has come there. `code_spec` composes them over the operations.
-/

namespace Evering.Queue

open Interleave Cursor Function List

/-! ### Protocol -/

section Protocol

variable {R : Route} {α : Type}

/-- Turn, head and tail are one: the slot was consumed and its turn has moved on, but a repair takes the
position that the turn stands for to be available. -/
def Redelivers (s : Shared R.toGeometry α) (i : Nat) : Prop :=
  (s.slot i).turn = s.head ∧ s.head = s.tail

/-- The turn stands for a reserved position that head has not come to: a repair throws it away. -/
def Strands (s : Shared R.toGeometry α) (i : Nat) : Prop :=
  ((s.slot i).turn ≠ s.head ∧ ((s.slot i).turn - s.head).toNat < R.half) ∧
    (s.slot i).turn ≠ s.tail ∧ (s.tail - (s.slot i).turn).toNat < R.half

/-- Repairs judge a consumer's slot only when it is no such case. -/
def Judged (strict : Prop) : Op α → Site → Shared R.toGeometry α → Prop
  | .repair .., .judge i, s => ¬Redelivers s i ∧ (strict → ¬Strands s i)
  | _, _, _ => True

/-- What was claimed stays claimed, a published position stays published and a skipped one skipped. -/
structure Keeps (strict : Prop) (s s' : Shared R.toGeometry α) : Prop where
  claims : s.trail.claims <+: s'.trail.claims
  settled : strict → ∀ p, (s.trail.fate p).isSettled = true → s'.trail.fate p = s.trail.fate p

/-- A thread may end with an unresolved claim, and with a repair that it could not finish. -/
def View.Idle : View R.toGeometry α → Prop
  | idle => True
  | claimed .. => True
  | repairing .. => True
  | _ => False

def protocol (R : Route) (α : Type) (strict : Prop) :
    Protocol (Shared R.toGeometry α) Site (Op α) (View R.toGeometry α) where
  inv := Inv strict
  idle := View.Idle
  guar := Keeps strict
  cond := Judged strict

abbrev Spec (R : Route) (strict : Prop) {α β : Type} (op : Op α) (prog : QueueProg R.toGeometry α β)
    (v : View R.toGeometry α) (Q : β → View R.toGeometry α → Prop) : Prop :=
  (protocol R α strict).Triple op prog v Q

theorem Keeps.refl (strict : Prop) (s : Shared R.toGeometry α) : Keeps strict s s :=
  ⟨prefix_refl _, fun _ _ _ => rfl⟩

theorem Keeps.of_same {strict : Prop} {s s' : Shared R.toGeometry α}
    (claims : s'.trail.claims = s.trail.claims) (fate : s'.trail.fate = s.trail.fate) : Keeps strict s s' :=
  ⟨claims ▸ prefix_refl _, fun _ _ _ => by rw [fate]⟩

end Protocol

section Specs

variable {R : Route} {α β : Type} {strict : Prop} {op : Op α} {s s' : Shared R.toGeometry α}
  {dead : Nat → Bool} {views : Views (Op α) (View R.toGeometry α)} {t i : Nat}
  {v v' : View R.toGeometry α} {x : Control}

theorem View.Ok.holder (h : v.Ok strict s op) (about : v.slot = some i) : (s.ctl i).holder = some (op.owner, 0) ∨
      (∃ p, (s.ctl i).holder = some (p, op.owner + 1)) ∧ op.repairs.map Prod.snd = some i := by
  cases v <;> simp only [View.slot, Option.some.injEq, reduceCtorEq] at about <;> subst about
  case repairing i x mend =>
    obtain ⟨rfl, holder, mine, -⟩ := h
    exact .inr ⟨holder, mine⟩
  all_goals
    rw [h.1]
    exact .inl rfl

section

variable (inv : Inv strict s dead views)

include inv

theorem Inv.free (none : (s.ctl i).holder = none) : ∀ u op' w, views u = some (op', w) → w.slot ≠ some i := by
  intro u op' w hu about
  rcases (inv.custody.view hu).holder about with h | ⟨⟨p, h⟩, -⟩ <;> rw [none] at h <;> cases h

theorem Inv.put (ht : views t = some (op, v)) (lt : i < R.capacity)
    (mine : v.slot = some i ∨ v.slot = none ∧ ∀ u op' w, views u = some (op', w) → w.slot ≠ some i)
    (next : v'.slot = some i ∨ v'.slot = none) (fits : x.Fits R.participants) {tr : Trail α}
    (mark : Mark R.toGeometry i s.trail tr) (ring : Ring strict (s.put i x tr))
    (slot : SlotOk (s.put i x tr) i) (ok : v'.Ok strict (s.put i x tr) op)
    (reaped : ∀ p r, x.holder = some (p, r + 1) → dead p = true)
    (held : ∀ p r, x.holder = some (p, r) → dead p = true ∨ v'.slot = some i) :
    Inv strict (s.put i x tr) dead (update views t (some (op, v'))) := by
  refine inv.step _ ht lt mine next (.put mark) ring slot ok ?_ ?_
  · rwa [put_ctl_self fits]
  · rwa [put_ctl_self fits]

theorem Inv.leave (ht : views t = some (op, v)) (mine : v.slot = some i)
    (none : x.holder = none) {tr : Trail α} (mark : Mark R.toGeometry i s.trail tr)
    (ring : Ring strict (s.put i x tr)) (slot : SlotOk (s.put i x tr) i) :
    Inv strict (s.put i x tr) dead (update views t (some (op, .idle))) := by
  refine inv.put ht (inv.custody.bound ht mine) (.inl mine) (.inr rfl) ?_ mark ring slot trivial ?_ ?_
  · cases x <;> trivial
  · exact fun p r h => by rw [none] at h; cases h
  · exact fun p r h => by rw [none] at h; cases h

theorem Inv.stay (ht : views t = some (op, v)) : Inv strict s dead (update views t (some (op, v))) := by
  rwa [Protocol.update_same ht]

theorem Inv.learn (ht : views t = some (op, v)) (mine : v.slot = some i)
    (next : v'.slot = some i) (ok : v'.Ok strict s op) : Inv strict s dead (update views t (some (op, v'))) := by
  have lt := inv.custody.bound ht mine
  exact inv.step _ ht lt (.inl mine) (.inl next) (.refl s i) inv.ring (inv.slot i lt) ok
    (fun p r => inv.custody.reaped lt) fun p r _ => .inr next

end

theorem peek_spec {site : Site} {f : Shared R.toGeometry α → β} {Q : β → View R.toGeometry α → Prop}
    (h : ∀ b, Q b v) : Spec R strict op (.read site f) v Q :=
  .peek (Keeps.refl strict) h

theorem state_spec : Spec R strict op (state R) v fun _ w => w = v := by
  refine .seq (R := fun _ w => w = v) (peek_spec fun _ => rfl) ?_
  rintro _ _ rfl
  refine .seq (R := fun _ w => w = _) (peek_spec fun _ => rfl) ?_
  rintro _ _ rfl
  rfl

theorem loadTail_spec : Spec R strict op loadTail v fun tail w => (∃ n, tail = R.cursor n) ∧ w = v :=
  .read (Keeps.refl strict) fun s _ _ _ inv ht _ =>
    ⟨v, inv.stay ht, ⟨s.trail.tailPos, inv.ring.tail⟩, rfl⟩

theorem loadHead_spec : Spec R strict op loadHead v fun head w => (∃ n, head = R.cursor n) ∧ w = v :=
  .read (Keeps.refl strict) fun s _ _ _ inv ht _ =>
    ⟨v, inv.stay ht, ⟨s.trail.headPos, inv.ring.head⟩, rfl⟩

theorem index_lt (n : Nat) : R.index (R.cursor n) < R.capacity := by
  rw [Geometry.index_cursor]
  exact Nat.mod_lt _ R.capacity_pos

/-! ### Producers -/

theorem grab_spec (lt : i < R.capacity) :
    Spec R strict op (compareExchangeControl i empty (owned producer false op.owner)) .idle
      fun won v => v = if won then .grabbed i none else .idle := by
  rw [owned_producer]
  refine .exchange (Keeps.refl strict) (fun _ _ => rfl) fun s dead views t inv ht _ hc => ?_
  have ctl : s.ctl i = .empty := by
    rw [Shared.ctl, hc]
    rfl
  have slot := inv.slot i lt
  have vacant : Vacant s i := by
    have phase := slot.phase
    rwa [ctl] at phase
  have fits : (Control.producer false op.owner 0).Fits R.participants :=
    ⟨(inv.custody.alive ht).2, Nat.zero_le _⟩
  refine ⟨.grabbed i none, ?_, Keeps.of_same rfl rfl, rfl⟩
  refine inv.put ht lt (.inr ⟨rfl, inv.free (by rw [ctl]; rfl)⟩) (.inl rfl) fits (.refl ..) ?_ ?_ ?_ ?_ ?_
  · refine inv.ring.put slot fits rfl rfl rfl rfl rfl rfl fun c d r h => ?_
    rw [ctl] at h
    cases h
  · exact slot.put fits (.refl ..) rfl (fun _ => by rw [ctl]; rfl) (.inl ⟨rfl, vacant⟩)
  · exact ⟨put_ctl_self fits, vacant, fun w h => by cases h⟩
  · exact fun p r h => by cases h
  · exact fun _ _ _ => .inr rfl

theorem loadTurn_grabbed_spec : Spec R strict op (loadTurn i) (.grabbed i none) fun turn v => v = .grabbed i (some turn) := by
  refine .read (Keeps.refl strict) fun s dead views t inv ht _ => ?_
  obtain ⟨ctl, vacant, -⟩ := inv.custody.view ht
  refine ⟨.grabbed i (some (s.slot i).turn), inv.learn ht rfl rfl ⟨ctl, vacant, ?_⟩, rfl⟩
  exact fun w h => Option.some.inj h

theorem Inv.near (inv : Inv strict s dead views) (lt : i < R.capacity) :
    s.trail.tailPos ≤ s.trail.turnPos i + 2 * R.capacity ∧ s.trail.turnPos i ≤ s.trail.tailPos + 2 * R.capacity ∧
      s.trail.headPos ≤ s.trail.turnPos i + 2 * R.capacity ∧ s.trail.turnPos i ≤ s.trail.headPos + 2 * R.capacity := by
  have := (inv.slot i lt).behind
  have := (inv.slot i lt).ahead
  have := inv.ring.order
  omega

theorem Inv.tail_eq_turn (inv : Inv strict s dead views) (lt : i < R.capacity)  :
    s.tail = (s.slot i).turn ↔ s.trail.turnPos i = s.trail.tailPos := by
  have near := inv.near lt
  rw [inv.ring.tail, (inv.slot i lt).turn, Geometry.cursor_inj (by omega) (by omega), eq_comm]

theorem Inv.head_eq_turn (inv : Inv strict s dead views) (lt : i < R.capacity) :
    s.head = (s.slot i).turn ↔ s.trail.turnPos i = s.trail.headPos := by
  have near := inv.near lt
  rw [inv.ring.head, (inv.slot i lt).turn, Geometry.cursor_inj (by omega) (by omega), eq_comm]

variable {w : R.Word} {turn : Option R.Word} {p r : Nat} {untaken initialized : Bool}

theorem loadTail_grabbed_spec : Spec R strict op loadTail (.grabbed i (some w)) fun tail v =>
      v = if tail = w then .checked i else .grabbed i (some w) := by
  refine .read (Keeps.refl strict) fun s dead views t inv ht _ => ?_
  obtain ⟨ctl, vacant, turn⟩ := inv.custody.view ht
  have lt := inv.custody.bound ht rfl
  by_cases here : s.tail = w
  · refine ⟨.checked i, inv.learn ht rfl rfl ⟨ctl, ?_⟩, by simp [here]⟩
    exact (inv.tail_eq_turn lt).mp (here.trans (turn w rfl).symm)
  · exact ⟨.grabbed i (some w), inv.stay ht, by simp [here]⟩

theorem release_spec (mine : v.slot = some i)
    (has : ∀ {s}, v.Ok strict s op → s.ctl i = .producer false op.owner 0 ∧ Vacant s i) :
    Spec R strict op (storeControl i empty) v fun _ v => v = .idle := by
  refine .write fun s dead views t inv ht _ => ?_
  obtain ⟨ctl, vacant⟩ := has (inv.custody.view ht)
  have slot := inv.slot i (inv.custody.bound ht mine)
  refine ⟨.idle, ?_, Keeps.of_same rfl rfl, rfl⟩
  refine inv.leave (x := .empty) ht mine rfl (.refl ..) ?_ ?_
  · refine inv.ring.put slot trivial rfl rfl rfl rfl rfl rfl fun c d r h => ?_
    rw [ctl] at h
    cases h
  · exact slot.put trivial (.refl ..) rfl (fun _ => by rw [ctl]; rfl) vacant

theorem release_grabbed_spec : Spec R strict op (storeControl i empty) (.grabbed i turn) fun _ v => v = .idle :=
  release_spec rfl fun ok => ⟨ok.1, ok.2.1⟩

theorem release_checked_spec : Spec R strict op (storeControl i empty) (.checked i) fun _ v => v = .idle :=
  release_spec rfl fun ok => ⟨ok.1, .inl (Nat.le_of_eq ok.2.symm)⟩

theorem compareExchangeTail_spec {tail : R.Word} :
    Spec R strict op (compareExchangeTail i tail (R.next tail)) (.checked i) fun won v =>
      v = if won then .reserved i none else .checked i := by
  refine .exchange (Keeps.refl strict) (fun _ _ => rfl) fun s dead views t inv ht _ same => ?_
  subst same
  obtain ⟨ctl, here⟩ := inv.custody.view ht
  have lt := inv.custody.bound ht rfl
  have slot := inv.slot i lt
  refine ⟨.reserved i none, ?_, ⟨prefix_refl _, fun _ p settled => ?_⟩, rfl⟩
  · refine inv.step _ ht lt (.inl rfl) (.inl rfl) (.moveTail slot here) (inv.ring.moveTail here)
      (slot.moveTail here ctl) ⟨ctl, update_self .., fun v h => by cases h⟩ ?_ ?_
    · exact fun p r => inv.custody.reaped lt
    · exact fun _ _ _ => .inr rfl
  · refine update_of_ne ?_ ..
    rintro rfl
    rw [here, (inv.ring.unreserved _).mpr (Nat.le_refl _)] at settled
    cases settled

theorem reserve_spec (op : Op α) : Spec R strict op (reserve R op.owner) .idle fun r v => match r with
      | .error _ => v = .idle | .ok i => v = .reserved i none := by
  refine .next state_spec fun st => ?_
  split
  · rfl
  refine .seq loadTail_spec ?_
  rintro _ _ ⟨⟨n, rfl⟩, rfl⟩
  have lt : R.index (R.cursor n) < R.capacity := index_lt n
  refine .next (grab_spec lt) fun won => ?_
  cases won with
  | false =>
    refine .seq loadHead_spec ?_
    rintro head _ ⟨-, rfl⟩
    simp only [Prog.pure_eq]
    split <;> rfl
  | true =>
    refine .next loadTurn_grabbed_spec fun turn => ?_
    split
    · refine .next release_grabbed_spec fun _ => ?_
      rfl
    rename_i same
    obtain rfl : turn = R.cursor n := by simpa using same
    refine .next loadTail_grabbed_spec fun tail => ?_
    by_cases still : tail = R.cursor n
    swap
    · simp only [still, ne_eq, not_false_eq_true, if_true, if_false]
      refine .next release_grabbed_spec fun _ => ?_
      rfl
    simp only [still, ne_eq, not_true_eq_false, if_true, if_false]
    refine .next state_spec fun st => ?_
    split
    · refine .next release_checked_spec fun _ => ?_
      rfl
    refine .next compareExchangeTail_spec fun won => ?_
    cases won with
    | false =>
      refine .next release_checked_spec fun _ => ?_
      rfl
    | true => rfl

variable {value : α}

theorem writeValue_spec :
    Spec R strict op (writeValue i value) (.reserved i none) fun _ v => v = .reserved i (some value) := by
  refine .write fun s dead views t inv ht _ => ?_
  obtain ⟨ctl, reserved, -⟩ := inv.custody.view ht
  have lt := inv.custody.bound ht rfl
  have slot := inv.slot i lt
  refine ⟨.reserved i (some value), ?_, Keeps.of_same rfl rfl, rfl⟩
  refine inv.step (s.fill i value) ht lt (.inl rfl) (.inl rfl) (.fill s i value)
    (inv.ring.fill value) (slot.fill ctl reserved value) ⟨(fill_ctl value i).trans ctl, reserved, ?_⟩ ?_ ?_
  · intro v h
    rw [fill_slot, fill_content]
    exact ⟨h, rfl⟩
  · intro p r
    rw [fill_ctl]
    exact inv.custody.reaped lt
  · exact fun _ _ _ => .inr rfl

theorem loadControl_reserved_spec {value : Option α} : Spec R strict op (loadControl i) (.reserved i value) fun control v =>
      source control - 1 = op.owner ∧ v = .reserved i value := by
  refine .read (Keeps.refl strict) fun s dead views t inv ht _ => ?_
  have ctl := (inv.custody.view ht).1
  have slot := inv.slot i (inv.custody.bound ht rfl)
  refine ⟨.reserved i value, inv.stay ht, ?_, rfl⟩
  rw [slot.word, Control.source_word R.participants_le slot.fits, ctl]
  rfl

theorem completeControl_spec : Spec R strict op (storeControl i (owned producer true op.owner)) (.reserved i (some value))
      fun _ v => v = .staged i value := by
  rw [owned_producer]
  refine .write fun s dead views t inv ht _ => ?_
  obtain ⟨ctl, reserved, written⟩ := inv.custody.view ht
  have lt := inv.custody.bound ht rfl
  have slot := inv.slot i lt
  have fits : (Control.producer true op.owner 0).Fits R.participants :=
    ⟨(inv.custody.alive ht).2, Nat.zero_le _⟩
  obtain ⟨bytes, content⟩ := written value rfl
  have bytes' : ((s.put i (.producer true op.owner 0) s.trail).slot i).value = some value := by
    rw [put_slot_self]
    exact bytes
  refine ⟨.staged i value, ?_, Keeps.of_same rfl rfl, rfl⟩
  refine inv.put ht lt (.inl rfl) (.inl rfl) fits (.refl ..) ?_ ?_ ?_ ?_ ?_
  · refine inv.ring.put slot fits rfl rfl rfl rfl rfl rfl fun c d r h => ?_
    rw [ctl] at h
    cases h
  · refine slot.put fits (.refl ..) rfl (fun _ => by rw [ctl]; rfl) (.inr ⟨reserved, fun _ => ⟨?_, content⟩⟩)
    exact Option.isSome_iff_exists.mpr ⟨value, bytes'⟩
  · exact ⟨put_ctl_self fits, reserved, bytes', content⟩
  · exact fun p r h => by cases h
  · exact fun _ _ _ => .inr rfl

theorem stage_spec : Spec R strict op (stage i value) (.reserved i none) fun _ v => v = .staged i value := by
  refine .next writeValue_spec fun _ => ?_
  refine .seq loadControl_reserved_spec ?_
  rintro control _ ⟨source, rfl⟩
  rw [source]
  exact completeControl_spec

theorem Inv.settle (inv : Inv strict s dead views) (f : Fate α) (complete : Bool)
    (ht : views t = some (op, v)) (mine : v.slot = some i)
    (pending : s.trail.fate (s.trail.turnPos i) = .reserved ∨ s.trail.fate (s.trail.turnPos i) = .lost)
    (payload : if complete then
        ∃ w, f = .published w ∧ (s.slot i).value = some w ∧ s.trail.content i = s.trail.turnPos i else f = .skipped)
    (rel : strict → s.trail.turnPos i ∈ s.trail.released → f = .skipped) :
    Inv strict (s.put i (.available complete) (s.trail.setFate i f)) dead (update views t (some (op, .idle))) ∧
      Keeps strict s (s.put i (.available complete) (s.trail.setFate i f)) := by
  have slot := inv.slot i (inv.custody.bound ht mine)
  have taken : s.trail.turnPos i < s.trail.tailPos := by
    refine inv.ring.lt_tail fun h => ?_
    rcases pending with h' | h' <;> rw [h] at h' <;> cases h'
  have late : s.trail.headPos ≤ s.trail.turnPos i := by
    by_contra early
    rcases inv.ring.past (s.trail.turnPos i) (by omega) with h | ⟨w, h⟩ <;>
      rcases pending with h' | h' <;> rw [h] at h' <;> cases h'
  have fate : (s.put i (.available complete) (s.trail.setFate i f)).trail.fate (s.trail.turnPos i) = f :=
    update_self ..
  refine ⟨inv.leave ht mine rfl (.setFate slot.mod f) ?_ ?_, ⟨prefix_refl _, ?_⟩⟩
  · have settled : f ≠ .unreserved ∧ f ≠ .lost := by
      cases complete with
      | false =>
        obtain rfl : f = .skipped := payload
        simp
      | true =>
        obtain ⟨w, rfl, -⟩ := payload
        simp
    exact inv.ring.put_fate slot late taken settled.1 (fun _ => settled.2) rel
  · refine slot.put trivial (.setFate slot.mod f) rfl (fun h => by omega) ⟨late, ?_⟩
    cases complete with
    | false => exact fate.trans payload
    | true =>
      obtain ⟨w, rfl, value, content⟩ := payload
      refine ⟨w, fate, ?_, content⟩
      rw [put_slot_self]
      exact value
  · intro _ p settled
    refine update_of_ne ?_ ..
    rintro rfl
    rcases pending with h | h <;> rw [h] at settled <;> cases settled

theorem skip_spec (mine : v.slot = some i)
    (reserved : ∀ {s}, v.Ok strict s op → s.trail.fate (s.trail.turnPos i) = .reserved) :
    Spec R strict op (skip i) v fun _ v => v = .idle := by
  refine .write fun s dead views t inv ht _ => ?_
  have ⟨inv', keeps⟩ := inv.settle .skipped false ht mine (.inl (reserved (inv.custody.view ht))) rfl fun _ _ => rfl
  exact ⟨.idle, inv', keeps, rfl⟩

theorem publish_spec : Spec R strict op (publish i value) (.staged i value) fun _ v => v = .idle := by
  refine .write fun s dead views t inv ht _ => ?_
  obtain ⟨ctl, reserved, bytes, content⟩ := inv.custody.view ht
  have slot := inv.slot i (inv.custody.bound ht rfl)
  have ⟨inv', keeps⟩ := inv.settle (.published value) true ht rfl (.inl reserved)
    ⟨value, rfl, bytes, content⟩ fun st mem => by
      -- a released reservation is in the hands of a reaper
      rcases inv.ring.released st _ mem with early | skipped | ⟨-, c, d, r, h⟩
      · rcases inv.ring.past _ early with h | ⟨w, h⟩ <;> rw [reserved] at h <;> cases h
      · rw [reserved] at skipped
        cases skipped
      · rw [slot.mod, ctl] at h
        cases h
  exact ⟨.idle, inv', keeps, rfl⟩

theorem cancel_spec : Spec R strict op (cancel i) (.staged i value) fun _ v => v = .idle := by
  refine .seq (R := fun _ w => w = .staged i value) (peek_spec fun _ => rfl) ?_
  rintro _ _ rfl
  refine .next (skip_spec rfl fun ok => ok.2.1) fun _ => ?_
  rfl

theorem produce_spec (op : Op α) {send : Send} :
    Spec R strict op (Op.code R (.produce op.owner value send)) .idle fun _ v => v.Idle := by
  refine .seq (reserve_spec op) ?_
  rintro (_ | i) _ rfl
  · trivial
  cases send with
  | dropReserved =>
    refine (skip_spec (v := .reserved i none) rfl fun ok => ok.2.1).mono ?_
    exact fun _ _ h => h ▸ trivial
  | publish =>
    refine .next stage_spec fun _ => ?_
    exact publish_spec.mono fun _ _ h => h ▸ trivial
  | cancel =>
    refine .next stage_spec fun _ => ?_
    refine .next cancel_spec fun _ => ?_
    trivial

/-! ### Consumers -/

variable {c : Bool}

theorem SlotOk.payload (slot : SlotOk s i) (ctl : s.ctl i = .consumer c p r)
    (taken : s.trail.turnPos i < s.trail.tailPos) : Payload s i (s.trail.turnPos i) c := by
  have phase := slot.phase
  rw [ctl] at phase
  rcases phase with payload | ⟨late, -⟩
  · exact payload
  · omega

theorem take_control_spec (lt : i < R.capacity) :
    Spec R strict op (compareExchangeControlAt .seize i (Control.available c).word (owned consumer c op.owner)) .idle
      fun won v => v = if won then .taken i c none else .idle := by
  rw [owned_consumer]
  refine .exchange (Keeps.refl strict) (fun _ _ => rfl) fun s dead views t inv ht _ hc => ?_
  have ctl : s.ctl i = .available c := by
    rw [Shared.ctl, hc]
    exact Control.ofWord_word R.participants_le (show (Control.available c).Fits R.participants from trivial)
  have slot := inv.slot i lt
  obtain ⟨late, payload⟩ : _ ∧ _ := by
    have phase := slot.phase
    rwa [ctl] at phase
  have taken := inv.ring.lt_tail payload.ne_unreserved
  have fits : (Control.consumer c op.owner 0).Fits R.participants :=
    ⟨(inv.custody.alive ht).2, Nat.zero_le _⟩
  refine ⟨.taken i c none, ?_, Keeps.of_same rfl rfl, rfl⟩
  refine inv.put ht lt (.inr ⟨rfl, inv.free (by rw [ctl]; rfl)⟩) (.inl rfl) fits (.refl ..) ?_ ?_ ?_ ?_ ?_
  · refine inv.ring.put slot fits rfl rfl rfl rfl rfl rfl fun c d r h => ?_
    rw [ctl] at h
    cases h
  · exact slot.put fits (.refl ..) rfl (fun h => by omega) (.inl (payload_put.mpr payload))
  · exact ⟨put_ctl_self fits, late, taken, fun w h => by cases h⟩
  · exact fun p r h => by cases h
  · exact fun _ _ _ => .inr rfl

theorem loadTurn_taken_spec : Spec R strict op (loadTurn i) (.taken i c none) fun turn v => v = .taken i c (some turn) := by
  refine .read (Keeps.refl strict) fun s dead views t inv ht _ => ?_
  obtain ⟨ctl, late, taken, -⟩ := inv.custody.view ht
  refine ⟨.taken i c (some (s.slot i).turn), inv.learn ht rfl rfl ⟨ctl, late, taken, ?_⟩, rfl⟩
  exact fun w h => Option.some.inj h

theorem loadHead_taken_spec : Spec R strict op loadHead (.taken i c (some w)) fun head v =>
      v = if head = w then .matched i c w else .taken i c (some w) := by
  refine .read (Keeps.refl strict) fun s dead views t inv ht _ => ?_
  obtain ⟨ctl, late, taken, turn⟩ := inv.custody.view ht
  have lt := inv.custody.bound ht rfl
  by_cases here : s.head = w
  · refine ⟨.matched i c w, inv.learn ht rfl rfl ⟨ctl, ?_, taken, turn w rfl⟩, by simp [here]⟩
    exact (inv.head_eq_turn lt).mp (here.trans (turn w rfl).symm)
  · exact ⟨.taken i c (some w), inv.stay ht, by simp [here]⟩

theorem Inv.restore (inv : Inv strict s dead views) (ht : views t = some (op, v)) (mine : v.slot = some i)
    (ctl : s.ctl i = .consumer c p r)
    (late : s.trail.headPos ≤ s.trail.turnPos i) (taken : s.trail.turnPos i < s.trail.tailPos) :
    Inv strict (s.put i (.available c) s.trail) dead (update views t (some (op, .idle))) := by
  have slot := inv.slot i (inv.custody.bound ht mine)
  have payload := slot.payload ctl taken
  refine inv.leave ht mine rfl (.refl ..) ?_ ?_
  · refine inv.ring.put slot trivial rfl rfl rfl rfl rfl rfl fun c d r h => ?_
    rw [ctl] at h
    cases h
  · exact slot.put trivial (.refl ..) rfl (fun h => by omega) ⟨late, payload_put.mpr payload⟩

theorem restore_taken_spec :
    Spec R strict op (storeControl i (Control.available c).word) (.taken i c turn) fun _ v => v = .idle := by
  refine .write fun s dead views t inv ht _ => ?_
  obtain ⟨ctl, late, taken, -⟩ := inv.custody.view ht
  exact ⟨.idle, inv.restore ht rfl ctl late taken, Keeps.of_same rfl rfl, rfl⟩

variable {turn : R.Word}

theorem restore_matched_spec : Spec R strict op (storeControl i (Control.available c).word) (.matched i c turn)
      fun _ v => v = .idle := by
  refine .write fun s dead views t inv ht _ => ?_
  obtain ⟨ctl, here, taken, -⟩ := inv.custody.view ht
  exact ⟨.idle, inv.restore ht rfl ctl (Nat.le_of_eq here.symm) taken, Keeps.of_same rfl rfl, rfl⟩

theorem compareExchangeHead_spec {head : R.Word} :
    Spec R strict op (compareExchangeHead i c head (R.next head)) (.matched i c turn) fun won v =>
      v = if won then .claimed i c turn true else .matched i c turn := by
  refine .exchange (Keeps.refl strict) (fun _ _ => rfl) fun s dead views t inv ht _ same => ?_
  subst same
  obtain ⟨ctl, here, taken, turned⟩ := inv.custody.view ht
  have lt := inv.custody.bound ht rfl
  have slot := inv.slot i lt
  refine ⟨.claimed i c turn true, ?_, ⟨prefix_append .., fun _ _ _ => rfl⟩, rfl⟩
  refine inv.step (s.moveHead i c) ht lt (.inl rfl) (.inl rfl) (.moveHead slot here c)
    (inv.ring.moveHead here taken (slot.payload ctl taken)) (slot.moveHead ctl)
    ⟨ctl, Nat.lt_succ_of_le (Nat.le_of_eq here), turned, fun _ mem => ?_⟩ ?_ ?_
  · -- only positions before head have been taken
    obtain ⟨⟨p, y⟩, mem', same⟩ := mem_map.mp mem
    have := (inv.ring.takes p y mem').1
    have : p = s.trail.turnPos i := same
    omega
  · exact fun p r => inv.custody.reaped lt
  · exact fun _ _ _ => .inr rfl

theorem storeTurn_claimed_spec : Spec R strict op (storeTurn i (turn + R.lapWord)) (.claimed i c turn untaken)
      fun _ v => v = .turned i c := by
  refine .write fun s dead views t inv ht _ => ?_
  obtain ⟨ctl, passed, rfl, -⟩ := inv.custody.view ht
  have lt := inv.custody.bound ht rfl
  have slot := inv.slot i lt
  have taken := Nat.lt_of_lt_of_le passed inv.ring.order
  have payload := slot.payload ctl taken
  refine ⟨.turned i c, ?_, Keeps.of_same rfl rfl, rfl⟩
  refine inv.step (s.moveTurn i) ht lt (.inl rfl) (.inl rfl) (.moveTurn s i) inv.ring.moveTurn
    (slot.moveTurn inv.ring ctl passed payload)
    ⟨(moveTurn_ctl i).trans ctl, (Turned.moveTurn slot payload).1⟩ ?_ ?_
  · intro p r
    rw [moveTurn_ctl]
    exact inv.custody.reaped lt
  · exact fun _ _ _ => .inr rfl

theorem Inv.recycle (inv : Inv strict s dead views) (ht : views t = some (op, v)) (mine : v.slot = some i)
    (ctl : s.ctl i = .consumer c p r) (late : s.trail.tailPos ≤ s.trail.turnPos i) :
    Inv strict (s.put i .empty (s.trail.recycle R.capacity i)) dead (update views t (some (op, .idle))) := by
  have slot := inv.slot i (inv.custody.bound ht mine)
  have lap : R.capacity ≤ s.trail.turnPos i := by
    have phase := slot.phase
    rw [ctl] at phase
    rcases phase with payload | ⟨-, lap, -⟩
    · have := inv.ring.lt_tail payload.ne_unreserved
      omega
    · exact lap
  refine inv.leave ht mine rfl (.recycle slot.mod lap) ?_ (slot.put_recycle late lap)
  refine inv.ring.put slot trivial rfl rfl rfl rfl rfl rfl fun c d r h => ?_
  rw [ctl] at h
  cases h

theorem recycle_spec : Spec R strict op (recycle ⟨i, turn + R.lapWord, initialized⟩) (.claimed i c turn untaken)
      fun _ v => v = .idle := by
  refine .next storeTurn_claimed_spec fun _ => ?_
  refine .write fun s dead views t inv ht _ => ?_
  obtain ⟨ctl, late⟩ := inv.custody.view ht
  exact ⟨.idle, inv.recycle ht rfl ctl late, Keeps.of_same rfl rfl, rfl⟩

theorem claim_spec (op : Op α) : Spec R strict op (claim R op.owner) .idle fun r v => match r with
      | .error _ => v = .idle
      | .ok claim => ∃ turn, claim.nextTurn = turn + R.lapWord ∧ v = .claimed claim.index true turn true := by
  refine .seq (R := fun _ w => w = .idle) (peek_spec fun _ => rfl) ?_
  rintro field _ rfl
  split
  · rfl
  refine .seq loadHead_spec ?_
  rintro _ _ ⟨⟨n, rfl⟩, rfl⟩
  have lt : R.index (R.cursor n) < R.capacity := index_lt n
  refine .seq (R := fun _ w => w = .idle) (peek_spec fun _ => rfl) ?_
  rintro control _ rfl
  split
  · refine .seq loadTail_spec ?_
    rintro tail _ ⟨-, rfl⟩
    simp only [Prog.pure_eq]
    split <;> rfl
  rename_i words
  obtain ⟨c, rfl, complete⟩ : ∃ c, control = (Control.available c).word ∧ decide (control &&& completeBit ≠ 0) = c := by
    by_cases h : control = available
    · exact ⟨false, h, by rw [h]; rfl⟩
    · have h' : control = available ||| completeBit := by
        by_contra other
        exact words ⟨h, other⟩
      exact ⟨true, h', by rw [h']; rfl⟩
  rw [complete]
  refine .next (take_control_spec lt) fun won => ?_
  cases won with
  | false => rfl
  | true =>
    refine .next loadTurn_taken_spec fun turn => ?_
    split
    · refine .next restore_taken_spec fun _ => ?_
      rfl
    rename_i same
    obtain rfl : turn = R.cursor n := by simpa using same
    refine .next loadHead_taken_spec fun head => ?_
    by_cases still : head = R.cursor n
    swap
    · simp only [still, ne_eq, not_false_eq_true, if_true, if_false]
      refine .next restore_taken_spec fun _ => ?_
      rfl
    simp only [still, ne_eq, not_true_eq_false, if_true, if_false]
    refine .next compareExchangeHead_spec fun won => ?_
    cases won with
    | false =>
      refine .next restore_matched_spec fun _ => ?_
      rfl
    | true =>
      cases c with
      | false =>
        refine .next recycle_spec fun _ => ?_
        rfl
      | true => exact ⟨R.cursor n, rfl, rfl⟩

theorem take_spec : Spec R strict op (take ⟨i, turn + R.lapWord, initialized⟩) (.claimed i true turn true)
      fun _ v => v = .idle := by
  refine .seq (R := fun _ v => v = .claimed i true turn false) (.action ?_) ?_
  · intro s dead views t inv ht _
    obtain ⟨ctl, passed, turned, fresh⟩ := inv.custody.view ht
    have lt := inv.custody.bound ht rfl
    have slot := inv.slot i lt
    have payload := slot.payload ctl (Nat.lt_of_lt_of_le passed inv.ring.order)
    refine ⟨.claimed i true turn false, ?_, Keeps.of_same rfl rfl, rfl⟩
    refine inv.step (s.logTake i) ht lt (.inl rfl) (.inl rfl) (.logTake slot)
      (inv.ring.logTake passed payload (fresh rfl)) slot.logTake
      ⟨ctl, passed, turned, fun h => by cases h⟩ ?_ ?_
    · exact fun p r => inv.custody.reaped lt
    · exact fun _ _ _ => .inr rfl
  rintro _ _ rfl
  refine .next recycle_spec fun _ => ?_
  rfl

theorem dropClaim_spec : Spec R strict op (dropClaim ⟨i, turn + R.lapWord, initialized⟩) (.claimed i true turn true)
      fun _ v => v = .idle := by
  unfold dropClaim
  split
  · refine .seq (R := fun _ v => v = .claimed i true turn true) (peek_spec fun _ => rfl) ?_
    rintro _ _ rfl
    exact recycle_spec
  · exact recycle_spec

theorem consume_spec (op : Op α) {use : Use} :
    Spec R strict op (Op.code R (.consume op.owner use)) .idle fun _ v => v.Idle := by
  refine .seq (claim_spec op) ?_
  rintro (_ | ⟨i, nextTurn, initialized⟩) w h
  · obtain rfl : w = .idle := h
    trivial
  obtain ⟨turn, rfl, rfl⟩ : ∃ turn, nextTurn = turn + R.lapWord ∧ w = .claimed i true turn true := h
  cases use with
  | take =>
    refine .next take_spec fun _ => ?_
    trivial
  | drop => exact dropClaim_spec.mono fun _ _ h => h ▸ trivial
  | forget => trivial

end Specs

end Evering.Queue
