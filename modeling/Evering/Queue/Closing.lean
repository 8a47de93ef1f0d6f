import Evering.Queue.Gates

/-!
# Closing a direction

What the answers of `send_closed`, `recv_closed` and `terminal` mean for the rest of a run without crashes.
-/

namespace Evering.Queue

open Interleave Cursor Function List Option Views Protocol

variable {α : Type} {R : Route} {heard : Prop} {s : Shared R.toGeometry α} {dead : Nat → Bool}
  {views : Views (Op α) Hold} {t : Nat} {op : Op α} {v w : Hold}

/-! ### Scans -/

/-- A bit of the lifecycle byte is set. The second bit of a field is set only after a scan. -/
theorem Gates.setBit (inv : Gates R heard s dead views) (ht : views t = some (op, v)) {lifecycle bit : Nat}
    (set : ∀ b, lifecycle.testBit b = (s.lifecycle.testBit b || decide (b = bit)))
    (send : bit = R.sendField + 1 → s.lifecycle.testBit R.sendField = true ∧ ∀ u op' j, views u ≠ some (op', .passed j))
    (recv : bit = R.recvField + 1 → s.lifecycle.testBit R.recvField = true ∧
      (heard → ∀ j, j < R.capacity → base (s.slot j).control ≠ consumer)) (free : w.slot = none)
    (ok : w.Ok R heard { s with lifecycle } (update views t (some (op, w)))) :
    Gates R heard { s with lifecycle } dead (update views t (some (op, w))) ∧ Shut R heard s { s with lifecycle } := by
  have bits : ∀ b, s.lifecycle.testBit b = true → lifecycle.testBit b = true := by
    intro b is_set
    rw [set, is_set]
    rfl
  have shut : Shut R heard s { s with lifecycle } :=
    ⟨Nat.le_refl _, fun done => ⟨⟨bits _ done.1, bits _ done.2⟩, rfl, rfl, rfl⟩,
      fun done => ⟨⟨bits _ done.1, bits _ done.2⟩, fun _ => ⟨rfl, rfl⟩⟩⟩
  -- a second bit that was not set now was set before
  have second : ∀ field, lifecycle.testBit (field + 1) = true → bit ≠ field + 1 →
      s.lifecycle.testBit (field + 1) = true := by
    intro field is_set other
    rw [set] at is_set
    simpa [other.symm] using is_set
  have enter : ∀ j, w = .passed j → v = .passed j ∨ s.lifecycle.testBit R.sendField = false := by
    intro j same
    rw [same] at free
    cases free
  have next : ∀ j, w.slot = some j → v.slot = some j ∨ ∀ u op' w', views u = some (op', w') → w'.slot ≠ some j := by
    intro j has
    rw [free] at has
    cases has
  refine ⟨inv.move ht inv.head inv.tail ?_ ?_ shut bits (fun _ _ _ _ _ _ _ => rfl) next enter (fun _ _ _ => id) ok
    ?_ ?_, shut⟩
  · intro is_set
    by_cases here : bit = R.sendField + 1
    · exact bits _ (send here).1
    · exact bits _ (inv.sendOrder (second R.sendField is_set here))
  · intro is_set
    by_cases here : bit = R.recvField + 1
    · exact bits _ (recv here).1
    · exact bits _ (inv.recvOrder (second R.recvField is_set here))
  · intro done
    by_cases here : bit = R.sendField + 1
    · refine .inr fun u op' j at_u => ?_
      rcases update_cases at_u with ⟨-, -, same⟩ | ⟨-, old⟩
      · rw [← same] at free
        cases free
      · exact (send here).2 u op' j old
    · have high := second R.sendField done.2 here
      exact .inl ⟨inv.sendOrder high, high⟩
  · intro hear done
    by_cases here : bit = R.recvField + 1
    · exact .inr ((recv here).2 hear)
    · have high := second R.recvField done.2 here
      exact .inl ⟨inv.recvOrder high, high⟩

theorem gate_fetchOr {field : Nat} (side : field = R.sendField ∨ field = R.recvField) (free : v.slot = none) :
    GateSpec R heard op (fetchOr (1 <<< field)) v fun _ w => w = v := by
  refine .write fun s dead views t inv view _ => ⟨v, ?_⟩
  have ok := (inv : Gates R heard s dead views).view view
  have apart := R.apart
  have moved := inv.setBit view (w := v) (testBit_close s.lifecycle field) (fun h => by omega) (fun h => by omega) free ?_
  · exact ⟨moved.1, moved.2, rfl⟩
  · refine ok.keep ?_ (fun b is_set => ?_) (fun _ _ => rfl) ?_ (fun _ _ _ => id)
    · exact ⟨Nat.le_refl _, fun done => ⟨done.or _, rfl, rfl, rfl⟩, fun done => ⟨done.or _, fun _ => ⟨rfl, rfl⟩⟩⟩
    · rw [Nat.testBit_or, is_set]
      rfl
    · intro _ u op' j at_u
      rw [update_same view] at at_u
      exact ⟨op', at_u⟩

theorem gate_closeSend (free : v.slot = none) : GateSpec R heard op (closeSend R) v fun _ w => w = v :=
  gate_fetchOr (.inl rfl) free

theorem gate_closeRecv (free : v.slot = none) : GateSpec R heard op (closeRecv R) v fun _ w => w = v :=
  gate_fetchOr (.inr rfl) free

theorem finished_of {lifecycle field : Nat} (closed : lifecycle.testBit field = true) :
    (lifecycle ||| 2 <<< field).testBit field = true ∧ (lifecycle ||| 2 <<< field).testBit (field + 1) = true := by
  rw [testBit_finish, testBit_finish, closed]
  simp

/-- How one side comes to its end: what a thread knows that has scanned some of the slots, and what it knows at the end -/
structure Ending (R : Route) (heard : Prop) (op : Op α) (field owner : Nat) (scan : Nat → Hold) (done : Hold) : Prop where
  unheld : ∀ k, (scan k).slot = none
  ended : done.slot = none
  first : ∀ {s : Shared R.toGeometry α} {dead views t v}, Gates R heard s dead views → views t = some (op, v) →
    s.lifecycle.testBit field = true → Gates R heard s dead (update views t (some (op, scan 0)))
  pass : ∀ {k} {s : Shared R.toGeometry α} {dead views t}, Gates R heard s dead views → views t = some (op, scan k) →
    base (s.slot k).control ≠ owner → Gates R heard s dead (update views t (some (op, scan (k + 1))))
  found : ∀ {s : Shared R.toGeometry α} {dead views t v}, Gates R heard s dead views → views t = some (op, v) →
    (s.lifecycle >>> field) &&& 0b11 = 3 → Gates R heard s dead (update views t (some (op, done)))
  last : ∀ {s : Shared R.toGeometry α} {dead views t}, Gates R heard s dead views → views t = some (op, scan R.capacity) →
    Gates R heard { s with lifecycle := s.lifecycle ||| 2 <<< field } dead (update views t (some (op, done))) ∧
      Shut R heard s { s with lifecycle := s.lifecycle ||| 2 <<< field }

section Ending

variable {field owner : Nat} {scan : Nat → Hold} {done : Hold} (ending : Ending R heard op field owner scan done)

include ending

theorem gate_noneOwned (m k : Nat) (all : k + m = R.capacity) :
    GateSpec R heard op (noneOwned R owner (List.range' k m)) (scan k) fun free w =>
      w.slot = none ∧ (free = true → w = scan R.capacity) := by
  induction m generalizing k with
  | zero =>
    obtain rfl : k = R.capacity := by omega
    exact ⟨ending.unheld _, fun _ => rfl⟩
  | succ m ih =>
    rw [range'_succ]
    refine .seq (R := fun control w => w = if base control = owner then scan k else scan (k + 1)) ?_ ?_
    · refine .read Shut.refl fun s dead views t inv view _ => ?_
      by_cases theirs : base (s.slot k).control = owner
      · rw [if_pos theirs]
        exact ⟨scan k, by rwa [update_same view], rfl⟩
      · rw [if_neg theirs]
        exact ⟨scan (k + 1), ending.pass inv view theirs, rfl⟩
    · rintro control w rfl
      by_cases theirs : base control = owner
      · rw [if_neg (not_not.mpr theirs), if_pos theirs]
        exact ⟨ending.unheld k, nofun⟩
      · rw [if_pos theirs, if_neg theirs]
        exact ih (k + 1) (by omega)

theorem gate_finishField (free : v.slot = none) : GateSpec R heard op (finishField R field owner) v fun state w =>
    w.slot = none ∧ (state = 3 → w = done) := by
  refine .seq (R := fun state w => w.slot = none ∧ (state = 1 → w = scan 0) ∧ (state = 3 → w = done)) ?_ ?_
  · refine .read Shut.refl fun s dead views t inv view _ => ?_
    by_cases closed : (s.lifecycle >>> field) &&& 0b11 = 1
    · refine ⟨scan 0, ending.first inv view (field_eq_one closed), ending.unheld 0, fun _ => rfl, fun other => ?_⟩
      rw [closed] at other
      cases other
    by_cases finished : (s.lifecycle >>> field) &&& 0b11 = 3
    · exact ⟨done, ending.found inv view finished, ending.ended, fun other => absurd other closed, fun _ => rfl⟩
    · exact ⟨v, by rwa [update_same view], free, fun other => absurd other closed, fun other => absurd other finished⟩
  rintro state w ⟨free, closed, finished⟩
  by_cases one : state = 1
  swap
  · rw [if_neg one]
    exact ⟨free, finished⟩
  rw [if_pos one]
  obtain rfl := closed one
  rw [range_eq_range']
  refine .seq (gate_noneOwned ending R.capacity 0 (Nat.zero_add _)) ?_
  rintro clear w ⟨free, scanned⟩
  cases clear with
  | false => exact ⟨free, fun h => by omega⟩
  | true =>
    obtain rfl := scanned rfl
    refine .seq (R := fun _ w => w = done) (.write fun s dead views t inv view _ => ⟨done, ?_⟩) ?_
    · exact ⟨(ending.last inv view).1, (ending.last inv view).2, rfl⟩
    · rintro _ _ rfl
      exact ⟨ending.ended, fun _ => rfl⟩

theorem gate_closed (free : v.slot = none) :
    GateSpec R heard op (do let state ← finishField R field owner; pure (decide (state = 3))) v fun closed w =>
      w.slot = none ∧ (closed = true → w = done) := by
  refine .seq (gate_finishField ending free) ?_
  rintro state w ⟨free, done⟩
  exact ⟨free, fun closed => done (of_decide_eq_true closed)⟩

end Ending

theorem ending_send : Ending R heard op R.sendField producer .scanSend .sendDone where
  unheld _ := rfl
  ended := rfl
  first inv view closed := inv.look view nofun nofun ⟨closed, fun _ _ _ _ => Nat.zero_le _⟩
  pass {k s dead views t} inv view theirs := by
    obtain ⟨closed, before⟩ := inv.view view
    refine inv.look view nofun nofun ⟨closed, fun u op' j at_u => ?_⟩
    rcases update_cases at_u with ⟨-, -, same⟩ | ⟨-, old⟩
    · cases same
    · have le := before u op' j old
      have other : j ≠ k := by
        rintro rfl
        exact theirs (inv.view old).2
      omega
  found inv view finished := inv.look view nofun nofun (field_eq_three.mp finished)
  last {s dead views t} inv view := by
    obtain ⟨closed, past⟩ := inv.view view
    refine inv.setBit view (testBit_finish s.lifecycle R.sendField) (fun _ => ⟨closed, fun u op' j at_u => ?_⟩)
      (fun h => by have := R.apart; omega) rfl (finished_of closed)
    have lt := (inv.view at_u).1
    have le := past u op' j at_u
    omega

theorem ending_recv : Ending R heard op R.recvField consumer .scanRecv .recvDone where
  unheld _ := rfl
  ended := rfl
  first inv view closed := inv.look view nofun nofun ⟨closed, fun _ _ h => by omega⟩
  pass {k s dead views t} inv view theirs := by
    obtain ⟨closed, before⟩ := inv.view view
    refine inv.look view nofun nofun ⟨closed, fun hear j lt => ?_⟩
    by_cases last : j = k
    · exact last ▸ theirs
    · exact before hear j (by omega)
  found inv view finished := inv.look view nofun nofun (field_eq_three.mp finished)
  last {s dead views t} inv view := by
    obtain ⟨closed, past⟩ := inv.view view
    exact inv.setBit view (testBit_finish s.lifecycle R.recvField) (fun h => by have := R.apart; omega)
      (fun _ => ⟨closed, past⟩) rfl (finished_of closed)

/-! ### Answers -/

/-- The way in which `terminal` came to be true. -/
inductive Side
  | send
  | recv
  deriving DecidableEq

/-- `terminal`, with the side that is over. -/
def terminalBy (R : Route) : QueueProg R.toGeometry α (Option Side) := do
  if ← recvClosed R then return some .recv
  if ← sendClosed R then
    let empty ← isEmpty R
    return if empty then some .send else none
  else return none

theorem terminal_eq_terminalBy :
    (terminal R : QueueProg R.toGeometry α Bool) = (terminalBy R).bind fun side => .done side.isSome := by
  simp only [terminal, terminalBy, Prog.bind_eq, Prog.bind_assoc]
  congr 1
  funext ended
  cases ended with
  | true => rfl
  | false =>
    simp only [Bool.false_eq_true, if_false, Prog.bind_assoc]
    congr 1
    funext closed
    cases closed with
    | false => rfl
    | true =>
      simp only [if_true, Prog.bind_assoc, Prog.pure_eq, Prog.done_bind]
      simp only [isEmpty, Prog.bind_eq, Prog.bind_assoc]
      congr 1
      funext head
      congr 1
      funext tail
      by_cases same : tail = head <;> simp [same]

inductive Report
  | other
  | sendClosed (closed : Bool)
  | recvClosed (closed : Bool)
  | terminal (side : Option Side)
  deriving DecidableEq

/-- The operation with its answer. -/
def Op.answer (R : Route) : Op α → QueueProg R.toGeometry α Report
  | .sendClosed _ => do return .sendClosed (← Queue.sendClosed R)
  | .recvClosed _ => do return .recvClosed (← Queue.recvClosed R)
  | .terminal _ => do return .terminal (← terminalBy R)
  | op => do
    op.code R
    return .other

/-- The queue machine with the answers of its operations. -/
def answering (R : Route) (α : Type) : Machine (Shared R.toGeometry α × List Report) Site (Op α) where
  owner := Op.owner
  code := fun op => (op.answer R).report id
  ready := fun s dead running op => (machine R α true).ready s.1 dead running op

/-- What an answer means. -/
def Report.Right (s : Shared R.toGeometry α) : Report → Prop
  | sendClosed true => Finished s.lifecycle R.sendField
  | recvClosed true => Finished s.lifecycle R.recvField
  | terminal (some .send) => Finished s.lifecycle R.sendField ∧ s.trail.tailPos ≤ s.trail.headPos
  | terminal (some .recv) => Finished s.lifecycle R.recvField
  | _ => True

/-- The protocol of the queue and the one of its gates, with answers that are right. -/
def answers (R : Route) (heard : Prop) (α : Type) :
    Protocol (Shared R.toGeometry α × List Report) Site (Op α) (View R.toGeometry α × Hold) :=
  (((protocol R α True).both (gates R heard α)).under (Heard R heard)).reporting fun r s => r.Right s

theorem Report.Right.later {s' : Shared R.toGeometry α} {r : Report} (right : r.Right s)
    (shut : Shut R heard s s') : r.Right s' := by
  match r, right with
  | .sendClosed true, right => exact (shut.send right).1
  | .recvClosed true, right => exact (shut.recv right).1
  | .terminal (some .recv), right => exact (shut.recv right).1
  | .terminal (some .send), right =>
    obtain ⟨done, -, tailPos, -⟩ := shut.send right.1
    have head_le := shut.headPos
    have past := right.2
    exact ⟨done, by omega⟩
  | .sendClosed false, _ => trivial
  | .recvClosed false, _ => trivial
  | .terminal none, _ => trivial
  | .other, _ => trivial

theorem Inv.window {strict : Prop} {views : Views (Op α) (View R.toGeometry α)}
    (inv : Inv strict s dead views) : s.trail.tailPos ≤ s.trail.headPos + R.capacity := by
  have slot := inv.slot _ (Nat.mod_lt s.trail.headPos R.capacity_pos)
  have behind := slot.behind
  have reached : s.trail.turnPos (s.trail.headPos % R.capacity) ≤ s.trail.headPos := by
    by_contra later
    have apart := lap_apart slot.mod.symm (Nat.lt_of_not_le later)
    have ahead := slot.ahead
    omega
  omega

theorem isEmpty_spec : ((protocol R α True).both (gates R heard α)).Triple op (isEmpty R) (.idle, .sendDone)
    fun empty w => w.1 = .idle ∧ (empty = true → w.2 = .drained) := by
  refine .seq (R := fun head w => ∃ n m, n ≤ m ∧ m ≤ n + R.capacity ∧ head = R.cursor n ∧
    w = (.idle, .seenHead n m)) ?_ ?_
  · refine .read (fun s => ⟨Keeps.refl True s, Shut.refl s⟩) fun s dead views t inv view _ => ?_
    have right : Protocol.Views.right views t = some (op, Hold.sendDone) := by
      simp [Protocol.Views.right, view]
    have left : Protocol.Views.left views t = some (op, View.idle) := by
      simp [Protocol.Views.left, view]
    have done : Finished s.lifecycle R.sendField := Gates.view inv.2 right
    have ring := (inv.1 : Inv True s dead _).ring
    have window := (inv.1 : Inv True s dead _).window
    refine ⟨(.idle, .seenHead s.trail.headPos s.trail.tailPos), ⟨?_, ?_⟩, _, _, ring.order, window, ring.head, rfl⟩
    · rw [left_update, update_same left]
      exact inv.1
    · rw [right_update]
      exact Gates.look inv.2 right (fun _ has => by cases has) (fun _ is => by cases is) ⟨done, Nat.le_refl _, rfl⟩
  rintro head _ ⟨n, m, le, near, rfl, rfl⟩
  refine .seq (R := fun tail w => w.1 = .idle ∧ (tail = R.cursor n → w.2 = .drained)) ?_ ?_
  · refine .read (fun s => ⟨Keeps.refl True s, Shut.refl s⟩) fun s dead views t inv view _ => ?_
    have right : Protocol.Views.right views t = some (op, Hold.seenHead n m) := by
      simp [Protocol.Views.right, view]
    have left : Protocol.Views.left views t = some (op, View.idle) := by
      simp [Protocol.Views.left, view]
    obtain ⟨done, passed, tailPos⟩ := Gates.view inv.2 right
    have tail : s.tail = R.cursor m := by
      rw [Gates.tail inv.2, tailPos]
    by_cases same : R.cursor m = R.cursor n
    · have here : m = n := (R.toGeometry.cursor_inj (by omega) (by omega)).mp same
      refine ⟨(.idle, .drained), ⟨?_, ?_⟩, rfl, fun _ => rfl⟩
      · rw [left_update, update_same left]
        exact inv.1
      · rw [right_update]
        exact Gates.look inv.2 right (fun _ has => by cases has) (fun _ is => by cases is) ⟨done, by omega⟩
    · refine ⟨(.idle, .seenHead n m), by rwa [update_same view], rfl, fun other => ?_⟩
      exact absurd (tail.symm.trans other) same
  rintro tail w ⟨idle, empty⟩
  exact ⟨idle, fun same => empty (of_decide_eq_true same)⟩

/-- What a thread knows when it has its answer. -/
def Report.Known : Report → Hold → Prop
  | sendClosed true, w => w = .sendDone
  | recvClosed true, w => w = .recvDone
  | terminal (some .send), w => w = .drained
  | terminal (some .recv), w => w = .recvDone
  | _, _ => True

theorem Report.Known.right {r : Report} (known : r.Known w) (ok : w.Ok R heard s views) : r.Right s := by
  match r, known with
  | .sendClosed true, known =>
    obtain rfl : w = .sendDone := known
    exact ok
  | .recvClosed true, known =>
    obtain rfl : w = .recvDone := known
    exact ok
  | .terminal (some .send), known =>
    obtain rfl : w = .drained := known
    exact ok
  | .terminal (some .recv), known =>
    obtain rfl : w = .recvDone := known
    exact ok
  | .sendClosed false, _ => trivial
  | .recvClosed false, _ => trivial
  | .terminal none, _ => trivial
  | .other, _ => trivial

abbrev AnswerSpec (R : Route) (heard : Prop) {α β : Type} (op : Op α) (prog : QueueProg R.toGeometry α β)
    (w : View R.toGeometry α × Hold) (Q : β → View R.toGeometry α × Hold → Prop) : Prop :=
  ((protocol R α True).both (gates R heard α)).Triple op prog w Q

theorem terminalBy_spec : AnswerSpec R heard op (terminalBy R) (.idle, .none)
    fun side w => w.1.Idle ∧ (Report.terminal side).Known w.2 := by
  refine .seq (recvClosed_spec.both (gate_closed ending_recv rfl)) ?_
  rintro closed ⟨_, w⟩ ⟨rfl, free, done⟩
  cases closed with
  | true => exact ⟨trivial, done rfl⟩
  | false =>
    refine .seq (sendClosed_spec.both (gate_closed ending_send free)) ?_
    rintro closed ⟨_, w⟩ ⟨rfl, free, done⟩
    cases closed with
    | false => exact ⟨trivial, trivial⟩
    | true =>
      obtain rfl : w = .sendDone := done rfl
      refine .seq isEmpty_spec ?_
      rintro empty ⟨_, w⟩ ⟨rfl, drained⟩
      cases empty with
      | false => exact ⟨trivial, trivial⟩
      | true => exact ⟨trivial, drained rfl⟩

theorem answer_spec (calm : op.repairs = none) : AnswerSpec R heard op (op.answer R) (.idle, .none)
    fun r w => w.1.Idle ∧ r.Known w.2 := by
  have code : Spec R True op (op.code R) .idle fun _ v => v.Idle := code_spec (by simp [calm])
  cases op with
  | sendClosed p =>
    refine .seq (sendClosed_spec.both (gate_closed ending_send rfl)) ?_
    rintro closed ⟨_, w⟩ ⟨rfl, -, done⟩
    cases closed with
    | false => exact ⟨trivial, trivial⟩
    | true => exact ⟨trivial, done rfl⟩
  | recvClosed p =>
    refine .seq (recvClosed_spec.both (gate_closed ending_recv rfl)) ?_
    rintro closed ⟨_, w⟩ ⟨rfl, -, done⟩
    cases closed with
    | false => exact ⟨trivial, trivial⟩
    | true => exact ⟨trivial, done rfl⟩
  | terminal p => exact .seq terminalBy_spec fun _ _ h => h
  | produce p value send => exact .seq (code.both gate_produce) fun _ _ h => ⟨h.1, trivial⟩
  | consume p use => exact .seq (code.both gate_consume) fun _ _ h => ⟨h.1, trivial⟩
  | closeSend p => exact .seq (code.both (gate_closeSend rfl)) fun _ _ h => ⟨h.1, trivial⟩
  | closeRecv p => exact .seq (code.both (gate_closeRecv rfl)) fun _ _ h => ⟨h.1, trivial⟩
  | repair live d i release => cases calm

theorem Gates.spawn (inv : Gates R heard s dead views) : Gates R heard s dead (update views t (some (op, .none))) := by
  have entered : ∀ {u op' j}, update views t (some (op, Hold.none)) u = some (op', .passed j) →
      views u = some (op', .passed j) := by
    intro u op' j at_u
    rcases update_cases at_u with ⟨-, -, same⟩ | ⟨-, old⟩
    · cases same
    · exact old
  refine { inv with view := ?view, one := ?one, silent := ?silent }
  case view =>
    exact Views.put trivial fun _ old => (inv.view old).keep (.refl s) (fun _ => id) (fun _ _ => rfl)
      (fun _ _ op' _ at_u => ⟨op', entered at_u⟩) fun _ _ _ => id
  case one => exact Views.put_pair (fun _ _ => rfl) (fun _ _ => nofun) (fun _ _ _ => nofun) inv.one
  case silent => exact fun done u op' j at_u => inv.silent done u op' j (entered at_u)

theorem Gates.retire (inv : Gates R heard s dead views) : Gates R heard s dead (update views t none) := by
  have old {u op' w} (at_u : update views t none u = some (op', w)) := (retire_some at_u).2
  refine { inv with view := ?view, one := ?one, silent := ?silent }
  case view =>
    intro u op' w at_u
    exact (inv.view (old at_u)).keep (.refl s) (fun _ => id) (fun _ _ => rfl) (fun _ _ op' _ at_u => ⟨op', old at_u⟩)
      (fun _ _ _ => id)
  case one => exact fun at_u at_u' => inv.one (old at_u) (old at_u')
  case silent => exact fun done u op' j at_u => inv.silent done u op' j (old at_u)

theorem Gates.init : Gates R heard (Shared.init R.toGeometry α) (fun _ => false) fun _ => none where
  alive := fun _ => rfl
  head := (Ring.init R.toGeometry α : Ring True _).head
  tail := (Ring.init R.toGeometry α : Ring True _).tail
  sendOrder := by simp [Shared.init]
  recvOrder := by simp [Shared.init]
  view := fun h => by cases h
  one := fun h => by cases h
  silent := fun _ _ _ _ h => by cases h
  deaf := fun _ done => by simp [Finished, Shared.init] at done

theorem answers_sound (R : Route) (heard : Prop) (α : Type) :
    (answers R heard α).Sound (answering R α) (.init R.toGeometry α, []) where
  init := ⟨⟨.init, .init⟩, by simp⟩
  spawn := by
    intro s dead views t op ops inv free alive within ready
    obtain ⟨⟨main, gated⟩, right⟩ := inv
    have calm : op.repairs = none := by
      rcases repairs : op.repairs with _ | ⟨d, i⟩
      · rfl
      · simp [answering, machine, repairs, (gated : Gates ..).alive d] at ready
    have numbered : op.owner < R.participants := by
      simp only [answering, machine, Bool.and_eq_true, decide_eq_true_eq] at ready
      exact ready.1
    refine ⟨(.idle, .none), ⟨⟨?_, ?_⟩, right⟩, ?_⟩
    · rw [left_update]
      refine ⟨main.ring, main.slot, main.custody.spawn ?_ alive numbered (by simp [calm]) (by simp [calm])⟩
      simp [Protocol.Views.left, free]
    · rw [right_update]
      exact Gates.spawn gated
    · refine (Protocol.Triple.report ?_ ?_ ((answer_spec calm).under ?_)).mono fun _ _ post => post.elim fun _ h => ⟨h.1, trivial⟩
      · exact fun guar right => right.later guar.2
      · intro r w s dead views u known inv view
        have mine : Protocol.Views.right views u = some (op, w.2) := by
          simp [Protocol.Views.right, view]
        exact known.2.right (Gates.view inv.2 mine)
      · intro site s met
        refine ⟨?_, met⟩
        cases op <;> trivial
  retire := by
    intro s dead views t op v inv view idle
    refine ⟨⟨?_, ?_⟩, inv.2⟩
    · rw [left_retire]
      have mine : Protocol.Views.left views t = some (op, v.1) := by
        simp [Protocol.Views.left, view]
      exact ⟨inv.1.1.ring, inv.1.1.slot, inv.1.1.custody.retire mine idle.1⟩
    · rw [right_retire]
      exact Gates.retire inv.1.2
  crash := fun _ stop => stop.2.elim
  rejoin := fun inv dead => by
    rw [Gates.alive inv.1.2] at dead
    cases dead
  refl := fun s => ⟨⟨Keeps.refl True _, Shut.refl _⟩, fun _ => id⟩

/-! ### Closed for good -/

theorem allowed_of_uncrashed {c : Config (Shared R.toGeometry α × List Report) Site (Op α)} {st : Step (Op α)}
    (calm : Uncrashed c st) : Allowed (answers R False α).cond (answers R False α).stop c st := by
  cases st with
  | spawn op => trivial
  | run t n =>
    intro op site act next _
    cases site with
    | seize => exact False.elim
    | _ => trivial
  | crash p => exact calm.elim
  | rejoin p => trivial

theorem Answered.trans {s₁ s₂ s₃ : Shared R.toGeometry α × List Report}
    (h : (answers R heard α).guar s₁ s₂) (h' : (answers R heard α).guar s₂ s₃) : (answers R heard α).guar s₁ s₃ :=
  ⟨⟨h.1.1.trans h'.1.1, h.1.2.trans h'.1.2⟩, fun r mem => h'.2 r (h.2 r mem)⟩

/-- **Sending is over for good.** In every run of producers, consumers, closers and those who ask: when
`send_closed` has answered true, no later step moves tail or publishes a position; when `terminal` has answered
true because sending is over and the queue is empty, every published position was claimed and no later step
claims one. -/
theorem send_closure (R : Route) {α : Type} {c : Config (Shared R.toGeometry α × List Report) Site (Op α)}
    (run : (answering R α).Run Uncrashed (.start (.init R.toGeometry α, [])) c) :
    (.sendClosed true ∈ c.shared.2 → ∀ c', (answering R α).Run Uncrashed c c' →
      c'.shared.1.tail = c.shared.1.tail ∧ c'.shared.1.trail.tailPos = c.shared.1.trail.tailPos ∧
      c'.shared.1.trail.fate = c.shared.1.trail.fate) ∧
    (.terminal (some .send) ∈ c.shared.2 →
      (∀ p, (c.shared.1.trail.fate p).isPublished = true → p ∈ c.shared.1.trail.claims) ∧
      ∀ c', (answering R α).Run Uncrashed c c' →
        c'.shared.1.head = c.shared.1.head ∧ c'.shared.1.trail.claims = c.shared.1.trail.claims) := by
  have run' := run.mono fun _ _ => allowed_of_uncrashed
  have sound := answers_sound R False α
  have holds := sound.run sound.start run'
  have ⟨views, ⟨⟨main, gated⟩, right⟩, _⟩ := holds
  have ring := (main : Inv True _ _ _).ring
  have later : ∀ c', (answering R α).Run Uncrashed c c' → Shut R False c.shared.1 c'.shared.1 ∧
      c'.shared.1.trail.headPos ≤ c'.shared.1.trail.tailPos ∧
      c'.shared.1.head = R.cursor c'.shared.1.trail.headPos ∧
      c'.shared.1.trail.claims = (List.range c'.shared.1.trail.headPos).filter
        fun p => (c'.shared.1.trail.fate p).isPublished := by
    intro c' further
    have further' := further.mono fun _ _ => allowed_of_uncrashed
    obtain ⟨views', ⟨⟨main', -⟩, -⟩, -⟩ := sound.run holds further'
    have ring' := (main' : Inv True _ _ _).ring
    have shut := sound.run_guar (fun _ _ _ => Answered.trans) holds further'
    exact ⟨shut.1.2, ring'.order, ring'.head, ring'.claims⟩
  refine ⟨fun closed c' further => ?_, fun ended => ⟨fun p published => ?_, fun c' further => ?_⟩⟩
  · exact ((later c' further).1.send (right _ closed)).2
  · obtain ⟨-, past⟩ : Finished _ _ ∧ _ := right _ ended
    rw [ring.claims, mem_filter, mem_range]
    refine ⟨?_, published⟩
    have reserved : c.shared.1.trail.fate p ≠ .unreserved := by
      intro unreserved
      rw [unreserved] at published
      cases published
    have := ring.lt_tail reserved
    omega
  · obtain ⟨done, past⟩ : Finished _ _ ∧ _ := right _ ended
    obtain ⟨shut, order, head, claims⟩ := later c' further
    obtain ⟨-, -, tailPos, fate⟩ := shut.send done
    have head_le := shut.headPos
    have same : c'.shared.1.trail.headPos = c.shared.1.trail.headPos := by omega
    rw [head, claims, same, fate]
    exact ⟨ring.head.symm, ring.claims.symm⟩

/-- A value is published and taken, sending is closed, and `terminal` finds the queue empty. -/
theorem send_closure_pair : ∃ c, (answering pairRoute Nat).Run Uncrashed
      (.start (.init pairRoute.toGeometry Nat, [])) c ∧
    Report.terminal (some .send) ∈ c.shared.2 ∧ (c.shared.1.trail.fate 0).isPublished = true ∧
    0 ∈ c.shared.1.trail.claims := by
  have steps : ((answering pairRoute Nat).execIf Uncrashed (.start (.init pairRoute.toGeometry Nat, []))
      (inTurn [(.produce 0 7 .publish, 13), (.closeSend 0, 1), (.consume 1 .take, 10), (.terminal 1, 7)])).map
        (fun c => (decide (Report.terminal (some .send) ∈ c.shared.2), (c.shared.1.trail.fate 0).isPublished)) =
      some (true, true) := by decide +kernel
  obtain ⟨c, run, same⟩ := Machine.exists_run steps
  rw [Prod.mk.injEq, decide_eq_true_eq] at same
  exact ⟨c, run, same.1, same.2, ((send_closure pairRoute run).2 same.1).1 0 same.2⟩

instance {heard : Prop} [Decidable heard] (op : Op α) (site : Site) (s : Shared R.toGeometry α) :
    Decidable (Heard R heard op site s) :=
  match site with
  | .seize => inferInstanceAs (Decidable (heard → (s.lifecycle >>> R.recvField) &&& 0b11 = 0))
  | .plain => .isTrue trivial
  | .judge _ => .isTrue trivial

/-- Nobody crashes, and a claim takes a slot only while the receiving side is open. -/
abbrev Hearing (R : Route) (α : Type) (c : Config (Shared R.toGeometry α × List Report) Site (Op α)) :
    Step (Op α) → Prop :=
  Allowed (fun op site s => Heard R True op site s.1) (fun _ _ => False) c

/-- **Receiving is over for good**, in every run of producers, consumers, closers and those who ask in which a claim
takes a slot's word only while the receiving side is open: when `recv_closed` has answered true, or `terminal` for
this reason, no slot is a consumer's, and no later step makes one a consumer's or moves head. -/
theorem recv_closure (R : Route) {α : Type} {c : Config (Shared R.toGeometry α × List Report) Site (Op α)}
    (run : (answering R α).Run (Hearing R α) (.start (.init R.toGeometry α, [])) c)
    (closed : .recvClosed true ∈ c.shared.2 ∨ .terminal (some .recv) ∈ c.shared.2)
    {c' : Config (Shared R.toGeometry α × List Report) Site (Op α)} (further : (answering R α).Run (Hearing R α) c c') :
    Finished c'.shared.1.lifecycle R.recvField ∧ c'.shared.1.head = c.shared.1.head ∧
      c'.shared.1.trail.claims = c.shared.1.trail.claims ∧
      ∀ i, i < R.capacity → base (c'.shared.1.slot i).control ≠ consumer := by
  have allowed : ∀ c st, Hearing R α c st → Allowed (answers R True α).cond (answers R True α).stop c st := by
    intro c st hearing
    cases st with
    | spawn op => trivial
    | run t n => exact hearing
    | crash p => exact hearing.elim
    | rejoin p => trivial
  have sound := answers_sound R True α
  have holds := sound.run sound.start (run.mono allowed)
  have ⟨_, ⟨_, right⟩, _⟩ := holds
  have done : Finished c.shared.1.lifecycle R.recvField := closed.elim (right _) (right _)
  have shut := sound.run_guar (fun _ _ _ => Answered.trans) holds (further.mono allowed)
  obtain ⟨_, ⟨⟨-, gated⟩, -⟩, -⟩ := sound.run holds (further.mono allowed)
  obtain ⟨done', same⟩ := shut.1.2.recv done
  exact ⟨done', (same trivial).1, (same trivial).2, Gates.deaf gated trivial done'⟩

/-- A value is published and taken, receiving is closed, and a later claim finds the gate closed. -/
theorem recv_closure_pair : ∃ c c', (answering pairRoute Nat).Run (Hearing pairRoute Nat)
      (.start (.init pairRoute.toGeometry Nat, [])) c ∧ Report.recvClosed true ∈ c.shared.2 ∧
    (answering pairRoute Nat).Run (Hearing pairRoute Nat) c c' ∧ c'.count = 6 ∧
    c'.shared.1.head = c.shared.1.head := by
  have steps : ((answering pairRoute Nat).execIf (Hearing pairRoute Nat)
      (.start (.init pairRoute.toGeometry Nat, [])) (inTurn [(.produce 0 7 .publish, 13), (.consume 1 .take, 10),
        (.produce 0 8 .publish, 13), (.closeRecv 1, 1), (.recvClosed 1, 4)])).bind (fun c =>
      ((answering pairRoute Nat).execIf (Hearing pairRoute Nat) c [.spawn (.consume 1 .take), .run 5 0]).map fun c' =>
        (decide (Report.recvClosed true ∈ c.shared.2), c'.count)) = some (true, 6) := by
    decide +kernel
  obtain ⟨c, executed, rest⟩ := bind_eq_some_iff.mp steps
  obtain ⟨c', executed', same⟩ := map_eq_some_iff.mp rest
  rw [Prod.mk.injEq, decide_eq_true_eq] at same
  have run := Machine.run_of_execIf executed
  have further := Machine.run_of_execIf executed'
  exact ⟨c, c', run, same.1, further, same.2, (recv_closure pairRoute run (.inl same.1) further).2.1⟩

/-- A consumer looks at the gate, at head and at the slot's word; receiving is closed and `recv_closed` finds no
consumer's slot; then the consumer takes the slot and moves head. -/
theorem recv_closed_then_claim : ∃ c c', (answering pairRoute Nat).Run Uncrashed
      (.start (.init pairRoute.toGeometry Nat, [])) c ∧ Report.recvClosed true ∈ c.shared.2 ∧
    c.shared.1.trail.claims = [] ∧ base (c.shared.1.slot 0).control ≠ consumer ∧
    (answering pairRoute Nat).Run Uncrashed c c' ∧ c'.shared.1.head ≠ c.shared.1.head ∧
    c'.shared.1.trail.claims = [0] ∧ base (c'.shared.1.slot 0).control = consumer := by
  have steps : ((answering pairRoute Nat).execIf Uncrashed (.start (.init pairRoute.toGeometry Nat, []))
      (inTurn [(.produce 0 7 .publish, 13), (.consume 1 .take, 3), (.closeRecv 1, 1), (.recvClosed 1, 4)])).bind
      (fun c => ((answering pairRoute Nat).execIf Uncrashed c (List.replicate 5 (.run 1 0))).map fun c' =>
        decide (Report.recvClosed true ∈ c.shared.2 ∧ c.shared.1.trail.claims = [] ∧
          base (c.shared.1.slot 0).control ≠ consumer ∧ c'.shared.1.head ≠ c.shared.1.head ∧
          c'.shared.1.trail.claims = [0] ∧ base (c'.shared.1.slot 0).control = consumer)) = some true := by
    decide +kernel
  obtain ⟨c, executed, rest⟩ := bind_eq_some_iff.mp steps
  obtain ⟨c', executed', same⟩ := map_eq_some_iff.mp rest
  obtain ⟨closed, unclaimed, free, moved, claimed, taken⟩ := of_decide_eq_true same
  exact ⟨c, c', Machine.run_of_execIf executed, closed, unclaimed, free, Machine.run_of_execIf executed', moved,
    claimed, taken⟩

end Evering.Queue
