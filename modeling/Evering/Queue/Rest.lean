import Evering.Interleave.Focus
import Evering.Queue.Closing

/-!
# A queue on which nothing runs

What the operations of one participant do to a queue when no other thread is at work. A position that waits for head is
available: a claim passes it, and returns it if it was published. Slots in the hands of a consumer are unresolved claims,
which no operation on another slot touches.
-/

namespace Evering.Queue

open Interleave Cursor

variable {α : Type} {R : Route} {s s' : Shared R.toGeometry α} {q : Nat} {oracle : Nat → Nat}

/-- The queue as a run leaves it in which every thread has ended, for the participant `q`. Whoever a word names is
alive. -/
def Rests (R : Route) (q : Nat) (s : Shared R.toGeometry α) : Prop :=
  ∃ c : Config (Shared R.toGeometry α) Site (Op α), (protocol R α True).Holds c ∧ c.shared = s ∧
    (∀ t, c.threads t = none) ∧ q < R.participants ∧ c.dead q = false ∧
    ∀ i, i < R.capacity → ∀ p r, (s.ctl i).holder = some (p, r) → c.dead p = false

/-- One more position is passed, and its slot is free. -/
structure Passes (R : Route) (s s' : Shared R.toGeometry α) : Prop where
  headPos : s'.trail.headPos = s.trail.headPos + 1
  tailPos : s'.trail.tailPos = s.trail.tailPos
  fate : s'.trail.fate = s.trail.fate
  lifecycle : s'.lifecycle = s.lifecycle
  control : ∀ i, (s'.slot i).control = if i = R.index s.head then empty else (s.slot i).control

/-! ### What the words say -/

section

variable (rests : Rests R q s)

include rests

theorem Rests.inv : ∃ dead views, Inv True s dead views ∧ (∀ t, views t = none) ∧
    ∀ i, i < R.capacity → ∀ p r, (s.ctl i).holder = some (p, r) → dead p = false := by
  obtain ⟨c, ⟨views, inv, follows, -⟩, rfl, idle, -, -, clean⟩ := rests
  exact ⟨c.dead, views, inv, fun t => follows.view_none (idle t), clean⟩

theorem Rests.held {i p r : Nat} (lt : i < R.capacity) (holder : (s.ctl i).holder = some (p, r)) :
    (s.ctl i).isConsumer = true ∧ s.trail.turnPos i < s.trail.headPos := by
  obtain ⟨dead, views, inv, idle, clean⟩ := rests.inv
  rcases inv.custody.held lt holder (clean i lt p r holder) with claimed | ⟨t, op, v, view, -⟩
  · exact claimed
  · rw [idle t] at view
    cases view

theorem Rests.index : R.index s.head = s.trail.headPos % R.capacity := by
  obtain ⟨dead, views, inv, -⟩ := rests.inv
  rw [inv.ring.head, Geometry.index_cursor]

theorem Rests.order : s.trail.headPos ≤ s.trail.tailPos := by
  obtain ⟨dead, views, inv, -⟩ := rests.inv
  exact inv.ring.order

theorem Rests.window : s.trail.tailPos ≤ s.trail.headPos + R.capacity := by
  obtain ⟨dead, views, inv, -⟩ := rests.inv
  exact inv.window

theorem Rests.tail_eq_head : s.tail = s.head ↔ s.trail.headPos = s.trail.tailPos := by
  have order := rests.order
  have window := rests.window
  obtain ⟨dead, views, inv, -⟩ := rests.inv
  rw [inv.ring.head, inv.ring.tail, Geometry.cursor_inj (by omega) (by omega), eq_comm]

theorem Rests.waiting (waits : s.trail.headPos < s.trail.tailPos) :
    ∃ complete, (s.slot (R.index s.head)).control = (Control.available complete).word ∧
      (s.slot (R.index s.head)).turn = s.head ∧ s.trail.turnPos (R.index s.head) = s.trail.headPos ∧
      Payload s (R.index s.head) s.trail.headPos complete := by
  have index := rests.index
  obtain ⟨dead, views, inv, idle, clean⟩ := rests.inv
  have lt : s.trail.headPos % R.capacity < R.capacity := Nat.mod_lt _ R.capacity_pos
  obtain ⟨complete, ctl⟩ := inv.waiting idle clean (Nat.le_refl _) waits
  have here := inv.turnPos_waiting (Nat.le_refl _) waits
  have slot := inv.slot _ lt
  have phase := slot.phase
  rw [ctl] at phase
  rw [index]
  refine ⟨complete, by rw [slot.word, ctl], by rw [slot.turn, here, inv.ring.head], here, ?_⟩
  have payload := phase.2
  rwa [here] at payload

theorem Rests.unavailable (none : s.trail.headPos = s.trail.tailPos) : (s.slot (R.index s.head)).control ≠ available ∧
      (s.slot (R.index s.head)).control ≠ available ||| completeBit := by
  have index := rests.index
  obtain ⟨dead, views, inv, -⟩ := rests.inv
  have lt : R.index s.head < R.capacity := by
    rw [index]
    exact Nat.mod_lt _ R.capacity_pos
  have slot := inv.slot _ lt
  have other : ∀ complete, s.ctl (R.index s.head) ≠ .available complete := by
    intro complete ctl
    have phase := slot.phase
    rw [ctl] at phase
    have := inv.ring.lt_tail phase.2.ne_unreserved
    have := phase.1
    omega
  rw [slot.word]
  constructor
  · intro word
    refine other false ?_
    rw [Shared.ctl, slot.word, word]
    decide
  · intro word
    refine other true ?_
    rw [Shared.ctl, slot.word, word]
    decide

end

/-! ### Claims -/

theorem claim_closed (receiving : (s.lifecycle >>> R.recvField) &&& 0b11 ≠ 0) :
    (claim R q).Post oracle s fun s' r => s' = s ∧ r = .error .closed := by
  intro n
  simp [claim, fieldState, receiving]

theorem Rests.claim_empty (rests : Rests R q s) (receiving : (s.lifecycle >>> R.recvField) &&& 0b11 = 0)
    (none : s.trail.headPos = s.trail.tailPos) : (claim R q).Post oracle s fun s' r => s' = s ∧ r = .error .empty := by
  intro n
  simp [claim, fieldState, loadHead, loadHeadAt, loadControl, loadTail, receiving, rests.unavailable none,
    rests.tail_eq_head.mpr none]

/-- The state after the claim of the position at head. -/
def Shared.claimed (s : Shared R.toGeometry α) (q : Nat) (complete : Bool) : Shared R.toGeometry α :=
  let i := R.index s.head
  { s.setSlot i { s.slot i with control := owned consumer complete q } with
    head := R.next s.head
    trail := s.trail.claim i complete }

/-- The state after the slot of a claim is recycled. -/
def Shared.recycled (s : Shared R.toGeometry α) (i : Nat) (turn : R.Word) : Shared R.toGeometry α :=
  { s.setSlot i { s.slot i with turn, control := empty } with
    trail := (s.trail.advanceTurn R.capacity i).recycle R.capacity i }

theorem claim_complete_alone (receiving : (s.lifecycle >>> R.recvField) &&& 0b11 = 0)
    (control : (s.slot (R.index s.head)).control = (Control.available true).word)
    (turn : (s.slot (R.index s.head)).turn = s.head) (oracle : Nat → Nat) (n : Nat) : (claim R q).solo oracle n s =
      (s.claimed q true, .ok { index := R.index s.head, nextTurn := s.head + R.lapWord, initialized := true }) := by
  have words : ¬((Control.available true).word ≠ available ∧
      (Control.available true).word ≠ available ||| completeBit) := by decide
  have bit : (Control.available true).word &&& completeBit ≠ 0 := by decide
  simp [claim, fieldState, loadHead, loadHeadAt, loadControl, loadTurn, compareExchangeControlAt, compareExchangeHead,
    receiving, control, turn, words, bit, Shared.setSlot, Shared.claimed]

theorem claim_skipped_alone (receiving : (s.lifecycle >>> R.recvField) &&& 0b11 = 0)
    (control : (s.slot (R.index s.head)).control = (Control.available false).word)
    (turn : (s.slot (R.index s.head)).turn = s.head) (oracle : Nat → Nat) (n : Nat) : (claim R q).solo oracle n s =
      ((s.claimed q false).recycled (R.index s.head) (s.head + R.lapWord), .error .busy) := by
  have words : ¬((Control.available false).word ≠ available ∧
      (Control.available false).word ≠ available ||| completeBit) := by decide
  have bit : (Control.available false).word &&& completeBit = 0 := by decide
  simp [claim, fieldState, loadHead, loadHeadAt, loadControl, loadTurn, compareExchangeControlAt, compareExchangeHead,
    recycle, storeTurn, settleControl, receiving, control, turn, words, bit, Shared.setSlot, Shared.claimed,
    Shared.recycled, Prog.bind_assoc]

/-- The state after the value at index `i` is taken out and its slot recycled. -/
def Shared.taken (s : Shared R.toGeometry α) (i : Nat) (turn : R.Word) : Shared R.toGeometry α :=
  ({ s with trail := s.trail.take i (s.slot i).value } : Shared R.toGeometry α).recycled i turn

theorem take_alone (s : Shared R.toGeometry α) (c : Claim R.toGeometry) (oracle : Nat → Nat) (n : Nat) :
    (take c).solo oracle n s = (s.taken c.index c.nextTurn, (s.slot c.index).value) := by
  simp [take, recycle, storeTurn, settleControl, Shared.taken, Shared.recycled, Shared.setSlot, Prog.bind_assoc]

theorem passes_of_claimed (s : Shared R.toGeometry α) (complete : Bool) (turn : R.Word) :
    Passes R s ((s.claimed q complete).recycled (R.index s.head) turn) where
  headPos := rfl
  tailPos := rfl
  fate := rfl
  lifecycle := rfl
  control := by
    intro i
    by_cases here : i = R.index s.head
    · subst here
      simp [Shared.recycled, Shared.setSlot]
    · simp [Shared.recycled, Shared.claimed, Shared.setSlot, here]

theorem passes_of_taken (s : Shared R.toGeometry α) (turn : R.Word) :
    Passes R s ((s.claimed q true).taken (R.index s.head) turn) where
  headPos := rfl
  tailPos := rfl
  fate := rfl
  lifecycle := rfl
  control := (passes_of_claimed s true turn).control

theorem Rests.alone (rests : Rests R q s) (op : Op α) (mine : op.owner = q) (calm : op.repairs = none)
    {n : Nat} (next : ((op.code R).solo oracle n s).1 = s')
    (words : ∀ i, i < R.capacity → ∀ p r, (s'.ctl i).holder = some (p, r) → (s.ctl i).holder = some (p, r)) :
    Rests R q s' := by
  obtain ⟨c, holds, rfl, idle, numbered, alive, clean⟩ := rests
  have ok : ∀ (c : Config (Shared R.toGeometry α) Site (Op α)) t prog n,
      c.threads t = some (op, prog) → Allowed (Judged True) (fun _ _ => True) c (.run t n) := by
    intro c t prog n ht op' site act next h
    rw [ht, Option.some.injEq, Prod.mk.injEq] at h
    obtain ⟨rfl, -⟩ := h
    cases op with
    | repair live dead index release => cases calm
    | _ => trivial
  have ready : (machine R α true).ready c.shared c.dead [] op = true := by
    simp [machine, mine, calm, numbered]
  have alive' : c.dead ((machine R α true).owner op) = false := by
    rw [← alive, ← mine]
    rfl
  obtain ⟨c', run, shared, dead, idle'⟩ := Machine.spawn_alone (M := machine R α true)
    (fun c => trivial) ok (fun k => oracle (n + k)) idle alive' ready
  have code : (machine R α true).code op = op.code R := rfl
  rw [code, ← Prog.solo_shift, Nat.add_zero, next] at shared
  refine ⟨c', (sound R α True).run holds run, shared, idle', numbered, by rw [dead, alive], ?_⟩
  intro i lt p r holder
  rw [dead]
  exact clean i lt p r (words i lt p r holder)

theorem Rests.consume (rests : Rests R q s)
    (next : ((Op.code R (.consume q .take)).solo (fun _ => 0) 0 s).1 = s') (passes : Passes R s s') : Rests R q s' := by
  refine rests.alone (.consume q .take) rfl rfl next fun i lt p r holder => ?_
  rw [Shared.ctl, passes.control i] at holder
  split at holder
  · rw [show Control.ofWord empty = .empty by decide] at holder
    cases holder
  · exact holder

/-- A claim of a published position returns its value and, when it is taken, leaves the queue at rest. -/
theorem Rests.claim_published (rests : Rests R q s) (receiving : (s.lifecycle >>> R.recvField) &&& 0b11 = 0)
    (waits : s.trail.headPos < s.trail.tailPos) {value : α} (published : s.trail.fate s.trail.headPos = .published value) :
    ∃ s' s'' turn, (∀ oracle n, (claim R q).solo oracle n s = (s', .ok ⟨R.index s.head, turn, true⟩)) ∧
      (s'.slot (R.index s.head)).value = some value ∧
      (∀ oracle n, (take (R := R) ⟨R.index s.head, turn, true⟩).solo oracle n s' = (s'', some value)) ∧
      Passes R s s'' ∧ Rests R q s'' := by
  obtain ⟨complete, control, turn, -, payload⟩ := rests.waiting waits
  have value_eq := payload.value published
  obtain rfl : complete = true := by
    cases complete with
    | false =>
      have skipped : s.trail.fate s.trail.headPos = .skipped := payload
      rw [published] at skipped
      cases skipped
    | true => rfl
  have claimed := claim_complete_alone (q := q) receiving control turn
  have kept : ((s.claimed q true).slot (R.index s.head)).value = some value := by
    simpa [Shared.claimed, Shared.setSlot] using value_eq
  have took := take_alone (s.claimed q true) ⟨R.index s.head, s.head + R.lapWord, true⟩
  simp only [kept] at took
  refine ⟨_, _, _, claimed, kept, took, passes_of_taken s _, ?_⟩
  refine rests.consume ?_ (passes_of_taken s _)
  exact Prog.solo_bind_fst (claimed _ _) fun m => Prog.solo_bind_fst (took _ m) fun _ => rfl

theorem Rests.claim_skipped (rests : Rests R q s) (receiving : (s.lifecycle >>> R.recvField) &&& 0b11 = 0)
    (waits : s.trail.headPos < s.trail.tailPos) (skipped : s.trail.fate s.trail.headPos = .skipped) :
    ∃ s', (∀ oracle n, (claim R q).solo oracle n s = (s', .error .busy)) ∧ Passes R s s' ∧ Rests R q s' := by
  obtain ⟨complete, control, turn, -, payload⟩ := rests.waiting waits
  obtain rfl : complete = false := by
    cases complete with
    | false => rfl
    | true =>
      obtain ⟨value, published, -⟩ := payload
      rw [skipped] at published
      cases published
  have claimed := claim_skipped_alone (q := q) receiving control turn
  refine ⟨_, claimed, passes_of_claimed s false _, rests.consume ?_ (passes_of_claimed s false _)⟩
  exact Prog.solo_bind_fst (claimed _ _) fun _ => rfl

/-! ### Closing -/

/-- The queues differ in their lifecycle bytes, which agree on the receiving side. -/
structure Reopens (R : Route) (s s' : Shared R.toGeometry α) : Prop where
  same : s' = { s with lifecycle := s'.lifecycle }
  receiving : (s'.lifecycle >>> R.recvField) &&& 0b11 = (s.lifecycle >>> R.recvField) &&& 0b11
  sending : s.lifecycle.testBit R.sendField = true → s'.lifecycle.testBit R.sendField = true

theorem Reopens.refl (s : Shared R.toGeometry α) : Reopens R s s := ⟨rfl, rfl, id⟩

theorem Reopens.setBit (s : Shared R.toGeometry α) {bit : Nat} (mine : bit = R.sendField ∨ bit = R.sendField + 1) :
    Reopens R s { s with lifecycle := s.lifecycle ||| 1 <<< bit } := by
  have apart := R.apart
  have low : decide (R.recvField = bit) = false := decide_eq_false (by omega)
  have high : decide (R.recvField + 1 = bit) = false := decide_eq_false (by omega)
  refine ⟨rfl, ?_, fun sent => ?_⟩
  · rw [field_eq, field_eq, testBit_close, testBit_close, low, high, Bool.or_false, Bool.or_false]
  · rw [testBit_close, sent]
    rfl

theorem closeSend_post :
    (closeSend R).Post oracle s fun s' _ => Reopens R s s' ∧ s'.lifecycle.testBit R.sendField = true := by
  refine .write ⟨.setBit s (.inl rfl), ?_⟩
  rw [testBit_close, decide_eq_true rfl, Bool.or_true]

theorem isEmpty_post : (isEmpty R).Post oracle s fun s' r => s' = s ∧ r = decide (s.tail = s.head) := by
  intro n
  simp [isEmpty, loadHead, loadHeadAt, loadTail]

theorem noneOwned_post (ownedBase : Nat) (slots : List Nat) : (noneOwned R ownedBase slots).Post oracle s fun s' r =>
    s' = s ∧ (r = true ↔ ∀ i ∈ slots, base (s.slot i).control ≠ ownedBase) := by
  induction slots with
  | nil => exact .done ⟨rfl, by simp⟩
  | cons i rest ih =>
    refine .bind (R := fun s' control => s' = s ∧ control = (s.slot i).control) (.read ⟨rfl, rfl⟩) ?_
    rintro s' control ⟨rfl, rfl⟩
    by_cases free : base (s'.slot i).control ≠ ownedBase
    · rw [if_pos free]
      refine ih.mono fun t r h => ⟨h.1, ?_⟩
      rw [h.2]
      simp [free]
    · rw [if_neg free]
      refine .done ⟨rfl, ?_⟩
      simp only [List.forall_mem_cons, free, false_and, Bool.false_eq_true]

theorem finishField_post {field ownedBase : Nat} (closed : s.lifecycle.testBit field = true) :
    (finishField R field ownedBase).Post oracle s fun s' r =>
      (s' = s ∨ s' = { s with lifecycle := s.lifecycle ||| 1 <<< (field + 1) }) ∧
        ((∀ i, i < R.capacity → base (s.slot i).control ≠ ownedBase) → r = 3) ∧
        (s.lifecycle.testBit (field + 1) = false → (∃ i, i < R.capacity ∧ base (s.slot i).control = ownedBase) →
          r ≠ 3) := by
  refine .bind (R := fun s' state => s' = s ∧ state = (s.lifecycle >>> field) &&& 0b11) (.read ⟨rfl, rfl⟩) ?_
  rintro s' state ⟨rfl, rfl⟩
  rw [field_eq, closed]
  rcases finished : s'.lifecycle.testBit (field + 1) with _ | _
  · refine .bind (noneOwned_post ownedBase _) ?_
    rintro t none ⟨rfl, free⟩
    simp only [List.mem_range] at free
    cases none with
    | false =>
      refine .done ⟨.inl rfl, fun all => absurd (free.mpr all) (by simp), fun _ _ => by decide⟩
    | true =>
      refine .bind (R := fun t' _ => t' = { t with lifecycle := t.lifecycle ||| 1 <<< (field + 1) })
        (.write (by rw [Nat.shiftLeft_succ_inside])) ?_
      rintro t' _ rfl
      refine .done ⟨.inr rfl, fun _ => rfl, ?_⟩
      rintro - ⟨i, lt, theirs⟩
      exact absurd theirs (free.mp rfl i lt)
  · exact .done ⟨.inl rfl, fun _ => rfl, fun h => by cases h⟩

theorem sendClosed_post (closed : s.lifecycle.testBit R.sendField = true) :
    (sendClosed R).Post oracle s fun s' r => Reopens R s s' ∧
      ((∀ i, i < R.capacity → base (s.slot i).control ≠ producer) → r = true) := by
  refine .bind (finishField_post closed) ?_
  rintro s' state ⟨changed, free, -⟩
  refine .done ⟨?_, fun all => decide_eq_true (free all)⟩
  rcases changed with rfl | rfl
  · exact .refl s'
  · exact .setBit s (.inr rfl)

theorem recvClosed_post (receiving : (s.lifecycle >>> R.recvField) &&& 0b11 = 0) :
    ((closeRecv R).bind fun _ => recvClosed R).Post oracle s fun s' r =>
      s' = { s with lifecycle := s'.lifecycle } ∧ (s'.lifecycle >>> R.recvField) &&& 0b11 ≠ 0 ∧
        (r = true ↔ ∀ i, i < R.capacity → base (s.slot i).control ≠ consumer) := by
  have fresh : s.lifecycle.testBit (R.recvField + 1) = false := by
    rw [field_eq] at receiving
    exact Bool.toNat_eq_zero.mp (by omega)
  refine .bind (R := fun s' _ => s' = { s with lifecycle := s.lifecycle ||| 1 <<< R.recvField }) (.write rfl) ?_
  rintro s' _ rfl
  have closed : (s.lifecycle ||| 1 <<< R.recvField).testBit R.recvField = true := by
    rw [testBit_close, decide_eq_true rfl, Bool.or_true]
  have still : (s.lifecycle ||| 1 <<< R.recvField).testBit (R.recvField + 1) = false := by
    rw [testBit_close, fresh]
    simp
  refine .bind (finishField_post closed) ?_
  rintro s' state ⟨changed, free, taken⟩
  refine .done ⟨?_, ?_, ?_⟩
  · rcases changed with rfl | rfl <;> rfl
  · have bit : s'.lifecycle.testBit R.recvField = true := by
      rcases changed with rfl | rfl
      · exact closed
      · rw [testBit_close, closed]
        rfl
    rw [field_eq, bit]
    simp
  · rw [decide_eq_true_eq]
    refine ⟨fun three i lt theirs => taken still ⟨i, lt, theirs⟩ three, free⟩

theorem Rests.closeSend (rests : Rests R q s) : (closeSend R).Post oracle s fun s' _ => Rests R q s' := by
  intro n
  have ran : ((Op.code R (.closeSend q)).solo oracle n s).1 = ((Queue.closeSend R).solo oracle n s).1 := rfl
  exact rests.alone (.closeSend q) rfl rfl ran fun i lt p r holder => holder

theorem Rests.unsent (rests : Rests R q s) {i : Nat} (lt : i < R.capacity) : base (s.slot i).control ≠ producer := by
  obtain ⟨dead, views, inv, -⟩ := rests.inv
  have slot := inv.slot i lt
  rw [slot.word, Control.base_word R.toGeometry.participants_le slot.fits]
  rcases ctl : s.ctl i with _ | ⟨c, p, r⟩ | c | ⟨c, p, r⟩
  · simp only [Control.fields]
    decide
  · have held := (rests.held (p := p) (r := r) lt (by rw [ctl]; rfl)).1
    rw [ctl] at held
    cases held
  · simp only [Control.fields]
    decide
  · simp only [Control.fields]
    decide

theorem Rests.sendClosed (rests : Rests R q s) (closed : s.lifecycle.testBit R.sendField = true) :
    (sendClosed R).Post oracle s fun s' _ => Rests R q s' := by
  intro n
  have ran : ((Op.code R (.sendClosed q)).solo oracle n s).1 = ((Queue.sendClosed R).solo oracle n s).1 :=
    congrArg Prod.fst (Prog.solo_bind_pure (f := fun _ => ()) rfl)
  refine rests.alone (.sendClosed q) rfl rfl ran fun i lt p r holder => ?_
  have same := (@sendClosed_post _ R s oracle closed n).1.same
  rw [same] at holder
  exact holder

/-! ### Unresolved claims -/

theorem claim_apart : (claim R q).Post oracle s fun s' r => s'.lifecycle = s.lifecycle ∧
    ∀ i, base (s.slot i).control = consumer → s'.slot i = s.slot i ∧ ∀ c, r = .ok c → c.index ≠ i := by
  intro n
  by_cases receiving : (s.lifecycle >>> R.recvField) &&& 0b11 = 0
  swap
  · simp [claim, fieldState, receiving]
  by_cases free : (s.slot (R.index s.head)).control ≠ available ∧
      (s.slot (R.index s.head)).control ≠ available ||| completeBit
  · by_cases last : s.tail = s.head <;>
      simp [claim, fieldState, loadHead, loadHeadAt, loadControl, loadTail, receiving, free, last]
  by_cases turn : (s.slot (R.index s.head)).turn = s.head
  swap
  · simp [claim, fieldState, loadHead, loadHeadAt, loadControl, loadTurn, compareExchangeControlAt, storeControl,
      settleControl, receiving, free, turn, Shared.setSlot]
  have apart : ∀ i, base (s.slot i).control = consumer → i ≠ R.index s.head := by
    rintro i theirs rfl
    refine free ⟨fun h => ?_, fun h => ?_⟩ <;> rw [h] at theirs <;> exact absurd theirs (by decide)
  have word : ∃ complete, (s.slot (R.index s.head)).control = (Control.available complete).word := by
    by_cases skipped : (s.slot (R.index s.head)).control = available
    · exact ⟨false, skipped⟩
    · exact ⟨true, not_not.mp fun other => free ⟨skipped, other⟩⟩
  obtain ⟨complete, control⟩ := word
  cases complete with
  | false =>
    rw [claim_skipped_alone receiving control turn]
    refine ⟨rfl, fun i theirs => ⟨?_, fun _ ok => by cases ok⟩⟩
    simp [Shared.recycled, Shared.claimed, Shared.setSlot, apart i theirs]
  | true =>
    rw [claim_complete_alone receiving control turn]
    refine ⟨rfl, fun i theirs => ⟨Function.update_of_ne (apart i theirs) .., ?_⟩⟩
    rintro c h rfl
    rw [← Except.ok.inj h] at theirs
    exact apart _ theirs rfl

theorem take_apart {c : Claim R.toGeometry} : (take c).Post oracle s fun s' _ =>
    s'.lifecycle = s.lifecycle ∧ ∀ i, c.index ≠ i → s'.slot i = s.slot i := by
  intro n
  rw [take_alone]
  exact ⟨rfl, fun i apart => Function.update_of_ne apart.symm ..⟩

end Evering.Queue
