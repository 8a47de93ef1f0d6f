import Evering.Interleave.Report
import Evering.Queue.Delivery

/-!
# The gates of a direction

Each side of a direction has two bits of the lifecycle byte: the first one is set when the side is closed, the
second one when a scan over the slots has found none in the hands of the side. A producer looks at the bits
again after it has taken a slot, so that whoever moves tail had its slot before the sending side was closed, and
a later scan meets it. A consumer looks at the bits only before it takes a slot.
-/

namespace Evering.Queue

open Interleave Cursor Function Views Protocol

/-! ### The lifecycle byte -/

/-- Both bits of a field are set. -/
def Finished (lifecycle field : Nat) : Prop :=
  lifecycle.testBit field = true ∧ lifecycle.testBit (field + 1) = true

theorem field_eq (lifecycle field : Nat) : (lifecycle >>> field) &&& 0b11 =
    (lifecycle.testBit field).toNat + 2 * (lifecycle.testBit (field + 1)).toNat := by
  have low : lifecycle.testBit field = (lifecycle >>> field).testBit 0 := by
    rw [Nat.testBit_shiftRight, Nat.add_zero]
  have high : lifecycle.testBit (field + 1) = (lifecycle >>> field).testBit 1 := by
    rw [Nat.testBit_shiftRight]
  have mask : (lifecycle >>> field) &&& 0b11 = (lifecycle >>> field) % 4 :=
    Nat.and_two_pow_sub_one_eq_mod _ 2
  rw [low, high, mask, Nat.testBit_zero, Nat.testBit_succ, Nat.testBit_zero]
  generalize lifecycle >>> field = word
  rcases Nat.mod_two_eq_zero_or_one word with even | odd <;>
    rcases Nat.mod_two_eq_zero_or_one (word / 2) with even' | odd' <;>
    simp only [*, decide_true, decide_false, Nat.zero_ne_one, Bool.toNat_true, Bool.toNat_false] <;> omega

variable {lifecycle field : Nat}

theorem field_eq_zero (h : (lifecycle >>> field) &&& 0b11 = 0) : lifecycle.testBit field = false := by
  rw [field_eq] at h
  exact Bool.toNat_eq_zero.mp (by omega)

theorem field_eq_three : (lifecycle >>> field) &&& 0b11 = 3 ↔ Finished lifecycle field := by
  rw [field_eq, Finished]
  rcases lifecycle.testBit field with _ | _ <;> rcases lifecycle.testBit (field + 1) with _ | _ <;> simp

theorem field_eq_one (h : (lifecycle >>> field) &&& 0b11 = 1) : lifecycle.testBit field = true := by
  rw [field_eq] at h
  rcases hb : lifecycle.testBit field with _ | _
  · rw [hb] at h
    simp only [Bool.toNat_false] at h
    omega
  · rfl

theorem testBit_close (lifecycle field bit : Nat) :
    (lifecycle ||| 1 <<< field).testBit bit = (lifecycle.testBit bit || decide (bit = field)) := by
  rw [Nat.testBit_or, Nat.shiftLeft_eq, Nat.one_mul, Nat.testBit_two_pow]
  congr 1
  simp [eq_comm]

theorem testBit_finish (lifecycle field bit : Nat) :
    (lifecycle ||| 2 <<< field).testBit bit = (lifecycle.testBit bit || decide (bit = field + 1)) := by
  have shift : 2 <<< field = 1 <<< (field + 1) := by
    rw [Nat.shiftLeft_succ_inside]
  rw [shift, testBit_close]

theorem Finished.or (h : Finished lifecycle field) (bits : Nat) : Finished (lifecycle ||| bits) field := by
  constructor
  · rw [Nat.testBit_or, h.1]
    rfl
  · rw [Nat.testBit_or, h.2]
    rfl

/-! ### Who is on which side of a gate -/

/-- How far a thread has come with the gates. -/
inductive Hold
  | none
  /-- `PRODUCER` on slot `i`, perhaps after the sending side was closed -/
  | grabbed (i : Nat)
  /-- `PRODUCER` on slot `i`, which was taken before the sending side was closed -/
  | passed (i : Nat)
  /-- `CONSUMER` on slot `i` -/
  | seized (i : Nat)
  /-- the sending side is closed, and whoever passed the gate has no slot before `k` -/
  | scanSend (k : Nat)
  /-- the receiving side is closed, and no slot before `k` is a consumer's -/
  | scanRecv (k : Nat)
  | sendDone
  | recvDone
  /-- sending is over with tail at position `m`, and head has come to position `n` -/
  | seenHead (n m : Nat)
  | drained

def Hold.slot : Hold → Option Nat
  | grabbed i => some i
  | passed i => some i
  | seized i => some i
  | _ => Option.none

variable {α : Type} (R : Route) (heard : Prop)

/-- What a thread may rely on; `heard` says that no claim takes a slot after the receiving side was closed. -/
def Hold.Ok (s : Shared R.toGeometry α) (views : Views (Op α) Hold) : Hold → Prop
  | none => True
  | grabbed i => i < R.capacity ∧ base (s.slot i).control = producer
  | passed i => i < R.capacity ∧ base (s.slot i).control = producer
  | seized i => i < R.capacity ∧ base (s.slot i).control = consumer
  | scanSend k => s.lifecycle.testBit R.sendField = true ∧
      ∀ u op i, views u = some (op, passed i) → k ≤ i
  | scanRecv k => s.lifecycle.testBit R.recvField = true ∧
      (heard → ∀ i, i < k → base (s.slot i).control ≠ consumer)
  | sendDone => Finished s.lifecycle R.sendField
  | recvDone => Finished s.lifecycle R.recvField
  | seenHead n m => Finished s.lifecycle R.sendField ∧ n ≤ s.trail.headPos ∧ s.trail.tailPos = m
  | drained => Finished s.lifecycle R.sendField ∧ s.trail.tailPos ≤ s.trail.headPos

structure Gates (s : Shared R.toGeometry α) (dead : Nat → Bool) (views : Views (Op α) Hold) : Prop where
  alive : ∀ p, dead p = false
  head : s.head = R.cursor s.trail.headPos
  tail : s.tail = R.cursor s.trail.tailPos
  sendOrder : s.lifecycle.testBit (R.sendField + 1) = true → s.lifecycle.testBit R.sendField = true
  recvOrder : s.lifecycle.testBit (R.recvField + 1) = true → s.lifecycle.testBit R.recvField = true
  view : ∀ {t op v}, views t = some (op, v) → v.Ok R heard s views
  one : ∀ {t u op op' v w i}, views t = some (op, v) → views u = some (op', w) → v.slot = some i →
    w.slot = some i → t = u
  /-- when sending is over, nobody is past the gate -/
  silent : Finished s.lifecycle R.sendField → ∀ t op i, views t ≠ some (op, .passed i)
  /-- when receiving is over, no slot is a consumer's -/
  deaf : heard → Finished s.lifecycle R.recvField → ∀ i, i < R.capacity → base (s.slot i).control ≠ consumer

/-- What closing guarantees of every step. -/
structure Shut (s s' : Shared R.toGeometry α) : Prop where
  headPos : s.trail.headPos ≤ s'.trail.headPos
  send : Finished s.lifecycle R.sendField → Finished s'.lifecycle R.sendField ∧ s'.tail = s.tail ∧
    s'.trail.tailPos = s.trail.tailPos ∧ s'.trail.fate = s.trail.fate
  recv : Finished s.lifecycle R.recvField → Finished s'.lifecycle R.recvField ∧
    (heard → s'.head = s.head ∧ s'.trail.claims = s.trail.claims)

/-- Claims take slots only while the receiving side is open. -/
def Heard : Op α → Site → Shared R.toGeometry α → Prop
  | _, .seize, s => heard → (s.lifecycle >>> R.recvField) &&& 0b11 = 0
  | _, _, _ => True

def gates (α : Type) : Protocol (Shared R.toGeometry α) Site (Op α) Hold where
  inv := Gates R heard
  idle := fun _ => True
  guar := Shut R heard
  cond := Heard R heard
  stop := fun _ _ => False

variable {R heard} {s s' : Shared R.toGeometry α} {dead : Nat → Bool} {views : Views (Op α) Hold} {t i : Nat}
  {op : Op α} {v v' : Hold}

theorem Shut.of_same (lifecycle : s'.lifecycle = s.lifecycle) (head : s'.head = s.head) (tail : s'.tail = s.tail)
    (headPos : s'.trail.headPos = s.trail.headPos) (tailPos : s'.trail.tailPos = s.trail.tailPos)
    (fate : Finished s.lifecycle R.sendField → s'.trail.fate = s.trail.fate)
    (claims : s'.trail.claims = s.trail.claims) : Shut R heard s s' where
  headPos := by omega
  send := by
    intro done
    rw [lifecycle]
    exact ⟨done, tail, tailPos, fate done⟩
  recv := by
    intro done
    rw [lifecycle]
    exact ⟨done, fun _ => ⟨head, claims⟩⟩

theorem Shut.refl (s : Shared R.toGeometry α) : Shut R heard s s :=
  .of_same rfl rfl rfl rfl rfl (fun _ => rfl) rfl

theorem Shut.trans {s₁ s₂ s₃ : Shared R.toGeometry α} (h : Shut R heard s₁ s₂) (h' : Shut R heard s₂ s₃) :
    Shut R heard s₁ s₃ where
  headPos := Nat.le_trans h.headPos h'.headPos
  send := by
    intro done
    obtain ⟨done, tail, tailPos, fate⟩ := h.send done
    obtain ⟨done', tail', tailPos', fate'⟩ := h'.send done
    exact ⟨done', tail'.trans tail, tailPos'.trans tailPos, fate'.trans fate⟩
  recv := by
    intro done
    obtain ⟨done, same⟩ := h.recv done
    obtain ⟨done', same'⟩ := h'.recv done
    exact ⟨done', fun heard => ⟨(same' heard).1.trans (same heard).1, (same' heard).2.trans (same heard).2⟩⟩

variable {w : Hold} {p word n : Nat} {value : α}

theorem Hold.Ok.keep {views' : Views (Op α) Hold} (ok : w.Ok R heard s views)
    (shut : Shut R heard s s') (bits : ∀ bit, s.lifecycle.testBit bit = true → s'.lifecycle.testBit bit = true)
    (slot : ∀ j, w.slot = some j → base (s'.slot j).control = base (s.slot j).control)
    (enter : s.lifecycle.testBit R.sendField = true → ∀ u op j, views' u = some (op, .passed j) →
      ∃ op, views u = some (op, .passed j))
    (seize : heard → s.lifecycle.testBit R.recvField = true → ∀ j, base (s'.slot j).control = consumer →
      base (s.slot j).control = consumer) : w.Ok R heard s' views' := by
  cases w with
  | none => trivial
  | grabbed j => exact ⟨ok.1, (slot j rfl).trans ok.2⟩
  | passed j => exact ⟨ok.1, (slot j rfl).trans ok.2⟩
  | seized j => exact ⟨ok.1, (slot j rfl).trans ok.2⟩
  | scanSend k =>
    refine ⟨bits _ ok.1, fun u op j at_u => ?_⟩
    obtain ⟨op', old⟩ := enter ok.1 u op j at_u
    exact ok.2 u op' j old
  | scanRecv k => exact ⟨bits _ ok.1, fun hear j lt theirs => ok.2 hear j lt (seize hear ok.1 j theirs)⟩
  | sendDone => exact (shut.send ok).1
  | recvDone => exact (shut.recv ok).1
  | seenHead n m =>
    obtain ⟨done, -, tailPos, -⟩ := shut.send ok.1
    have head_le := shut.headPos
    have before := ok.2.1
    exact ⟨done, by omega, tailPos.trans ok.2.2⟩
  | drained =>
    obtain ⟨done, past⟩ := ok
    obtain ⟨done', -, tailPos, -⟩ := shut.send done
    have head_le := shut.headPos
    exact ⟨done', by omega⟩

/-- **Step of one thread.** -/
theorem Gates.move (inv : Gates R heard s dead views) (ht : views t = some (op, v))
    (head : s'.head = R.cursor s'.trail.headPos) (tail : s'.tail = R.cursor s'.trail.tailPos)
    (sendOrder : s'.lifecycle.testBit (R.sendField + 1) = true → s'.lifecycle.testBit R.sendField = true)
    (recvOrder : s'.lifecycle.testBit (R.recvField + 1) = true → s'.lifecycle.testBit R.recvField = true)
    (shut : Shut R heard s s') (bits : ∀ bit, s.lifecycle.testBit bit = true → s'.lifecycle.testBit bit = true)
    (slot : ∀ u op' w j, u ≠ t → views u = some (op', w) → w.slot = some j →
      base (s'.slot j).control = base (s.slot j).control)
    (next : ∀ j, v'.slot = some j → v.slot = some j ∨ ∀ u op' w, views u = some (op', w) → w.slot ≠ some j)
    (enter : ∀ j, v' = .passed j → v = .passed j ∨ s.lifecycle.testBit R.sendField = false)
    (seize : heard → s.lifecycle.testBit R.recvField = true → ∀ j, base (s'.slot j).control = consumer →
      base (s.slot j).control = consumer) (ok : v'.Ok R heard s' (update views t (some (op, v'))))
    (silent : Finished s'.lifecycle R.sendField → Finished s.lifecycle R.sendField ∨
      ∀ u op' j, update views t (some (op, v')) u ≠ some (op', .passed j))
    (deaf : heard → Finished s'.lifecycle R.recvField → Finished s.lifecycle R.recvField ∨
      ∀ j, j < R.capacity → base (s'.slot j).control ≠ consumer) :
    Gates R heard s' dead (update views t (some (op, v'))) := by
  -- nobody passes the gate of a side that is closed
  have entered : s.lifecycle.testBit R.sendField = true → ∀ u op' j,
      update views t (some (op, v')) u = some (op', .passed j) →
      ∃ op'', views u = some (op'', .passed j) := by
    intro closed u op' j at_u
    rcases update_cases at_u with ⟨rfl, rfl, same⟩ | ⟨-, old⟩
    · rcases enter j same.symm with old | still_open
      · exact ⟨op', old ▸ ht⟩
      · rw [closed] at still_open
        cases still_open
    · exact ⟨op', old⟩
  constructor
  case alive => exact inv.alive
  case head => exact head
  case tail => exact tail
  case sendOrder => exact sendOrder
  case recvOrder => exact recvOrder
  case view =>
    exact Views.put ok fun ne old => (inv.view old).keep shut bits (fun j => slot _ _ _ j ne old) entered seize
  case one =>
    intro u u' op₁ op₂ w w' j
    have mine : ∀ {u op' w}, u ≠ t → views u = some (op', w) → w.slot = some j → v'.slot ≠ some j := by
      intro u op' w ne old has has'
      rcases next j has' with had | free
      · exact ne (inv.one old ht has had)
      · exact free u op' w old has
    exact Views.put_pair (fun _ _ => rfl) (fun ne old has has' => (mine ne old has' has).elim)
      (fun ne old has has' => (mine ne old has has').elim) inv.one
  case silent =>
    intro done u op' j at_u
    rcases silent done with before | none
    · obtain ⟨op'', old⟩ := entered before.1 u op' j at_u
      exact inv.silent before u op'' j old
    · exact none u op' j at_u
  case deaf =>
    intro hear done j lt theirs
    rcases deaf hear done with before | none
    · exact inv.deaf hear before j lt (seize hear before.1 j theirs)
    · exact none j lt theirs

theorem Gates.look (inv : Gates R heard s dead views) (ht : views t = some (op, v))
    (next : ∀ j, v'.slot = some j → v.slot = some j)
    (enter : ∀ j, v' = .passed j → v = .passed j ∨ s.lifecycle.testBit R.sendField = false)
    (ok : v'.Ok R heard s (update views t (some (op, v')))) : Gates R heard s dead (update views t (some (op, v'))) :=
  inv.move ht inv.head inv.tail inv.sendOrder inv.recvOrder (.refl s) (fun _ => id) (fun _ _ _ _ _ _ _ => rfl)
    (fun j has => .inl (next j has)) enter (fun _ _ _ => id) ok .inl (fun _ => .inl)

theorem Gates.put (inv : Gates R heard s dead views) (ht : views t = some (op, v)) (lifecycle : s'.lifecycle = s.lifecycle)
    (head : s'.head = R.cursor s'.trail.headPos) (tail : s'.tail = R.cursor s'.trail.tailPos)
    (shut : Shut R heard s s') (frame : ∀ j, j ≠ i → (s'.slot j).control = (s.slot j).control)
    (mine : v.slot = some i ∨ base (s.slot i).control ≠ producer ∧ base (s.slot i).control ≠ consumer)
    (next : ∀ j, v'.slot = some j → j = i) (enter : ∀ j, v' = .passed j → v = .passed j)
    (seize : base (s'.slot i).control = consumer → base (s.slot i).control = consumer ∨
      (heard → s.lifecycle.testBit R.recvField = false)) (ok : v'.Ok R heard s' (update views t (some (op, v')))) :
    Gates R heard s' dead (update views t (some (op, v'))) := by
  -- no other thread has slot `i`
  have alone : ∀ {u op' w}, views u = some (op', w) → w.slot = some i → u = t := by
    intro u op' w view has
    rcases mine with mine | ⟨unsent, unreceived⟩
    · exact inv.one view ht has mine
    · have holds := inv.view view
      cases w with
      | grabbed j =>
        cases has
        exact absurd holds.2 unsent
      | passed j =>
        cases has
        exact absurd holds.2 unsent
      | seized j =>
        cases has
        exact absurd holds.2 unreceived
      | _ => cases has
  refine inv.move ht head tail (by rw [lifecycle]; exact inv.sendOrder) (by rw [lifecycle]; exact inv.recvOrder)
    shut (by rw [lifecycle]; exact fun _ => id) ?_ ?_ (fun j has => .inl (enter j has)) ?_ ok ?_ ?_
  · intro u op' w j ne view has
    rw [frame j fun same => ne (alone view (same ▸ has))]
  · intro j has
    obtain rfl := next j has
    by_cases mine : v.slot = some j
    · exact .inl mine
    · refine .inr fun u op' w view has' => mine ?_
      obtain rfl := alone view has'
      obtain ⟨-, rfl⟩ := Prod.mk.inj (Option.some.inj (ht.symm.trans view))
      exact has'
  · intro hear closed j theirs
    by_cases same : j = i
    · subst same
      rcases seize theirs with before | still_open
      · exact before
      · rw [still_open hear] at closed
        cases closed
    · rwa [← frame j same]
  · rw [lifecycle]
    exact .inl
  · rw [lifecycle]
    exact fun _ => .inl

/-! ### Single actions -/

abbrev GateSpec (R : Route) (heard : Prop) {α β : Type} (op : Op α) (prog : QueueProg R.toGeometry α β)
    (v : Hold) (Q : β → Hold → Prop) : Prop :=
  (gates R heard α).Triple op prog v Q

theorem base_owned_producer (complete : Bool) (p : Nat) : base (owned producer complete p) = producer := by
  rw [base_eq, owned_eq (by decide)]
  simp only [producer]
  omega

theorem base_owned_consumer (complete : Bool) (p : Nat) : base (owned consumer complete p) = consumer := by
  rw [base_eq, owned_eq (by decide)]
  simp only [consumer]
  omega

theorem gate_peek {β : Type} {site : Site} {f : Shared R.toGeometry α → β} {Q : β → Hold → Prop}
    (h : ∀ a, Q a v) : GateSpec R heard op (Prog.read site f) v Q :=
  .peek Shut.refl h

theorem gate_state : GateSpec R heard op (state R) v fun _ w => w = v := by
  refine .seq (R := fun _ w => w = v) (gate_peek fun _ => rfl) ?_
  rintro send _ rfl
  refine .seq (R := fun _ w => w = _) (gate_peek fun _ => rfl) ?_
  rintro recv _ rfl
  rfl

theorem gate_loadTail : GateSpec R heard op loadTail v fun tail w => (∃ n, tail = R.cursor n) ∧ w = v :=
  .read Shut.refl fun s _ _ _ inv view _ =>
    ⟨v, by rwa [update_same view], ⟨_, inv.tail⟩, rfl⟩

theorem gate_loadHead : GateSpec R heard op loadHead v fun head w => (∃ n, head = R.cursor n) ∧ w = v :=
  .read Shut.refl fun s _ _ _ inv view _ =>
    ⟨v, by rwa [update_same view], ⟨_, inv.head⟩, rfl⟩

theorem gate_recheck : GateSpec R heard op (state R) (.grabbed i) fun st w => w = .passed i ∨ w = .grabbed i ∧ st ≠ 0 := by
  refine .seq (R := fun send w => w = .passed i ∨ w = .grabbed i ∧ send ≠ 0) ?_ ?_
  · refine .read Shut.refl fun s dead views t inv view _ => ?_
    by_cases still_open : (s.lifecycle >>> R.sendField) &&& 0b11 = 0
    · refine ⟨.passed i, inv.look view (fun j has => has) (fun j _ => .inr (field_eq_zero still_open)) ?_, .inl rfl⟩
      exact inv.view view
    · exact ⟨.grabbed i, by rwa [update_same view], .inr ⟨rfl, still_open⟩⟩
  rintro send w h
  refine .seq (R := fun _ w' => w' = w) (gate_peek fun _ => rfl) ?_
  rintro recv _ rfl
  refine h.imp_right fun ⟨same, closed⟩ => ⟨same, fun none => closed ?_⟩
  exact (Nat.or_eq_zero_iff.mp none).1

theorem gate_grab (lt : i < R.capacity) :
    GateSpec R heard op (compareExchangeControl i empty (owned producer false p)) .none fun won w =>
      w = if won then .grabbed i else .none := by
  refine .exchange .refl (fun _ _ => rfl) fun s dead views t inv view _ free => ?_
  have shut : Shut R heard s (s.setSlot i { s.slot i with control := owned producer false p }) :=
    .of_same rfl rfl rfl rfl rfl (fun _ => rfl) rfl
  refine ⟨.grabbed i, ?_, shut, rfl⟩
  refine Gates.put inv view (i := i) rfl inv.head inv.tail shut ?_ (.inr ?_) ?_ nofun ?_ ?_
  · intro j ne
    simp [Shared.setSlot, update_of_ne ne]
  · rw [free]
    exact ⟨by decide, by decide⟩
  · intro j has
    exact (Option.some.inj has).symm
  · intro theirs
    simp only [Shared.setSlot, update_self, base_owned_producer] at theirs
    exact absurd theirs (by decide)
  · refine ⟨lt, ?_⟩
    simp only [Shared.setSlot, update_self, base_owned_producer]

theorem gate_seize (lt : i < R.capacity) {control : Nat} {complete : Bool} (word : base control = available) :
    GateSpec R heard op (compareExchangeControlAt .seize i control (owned consumer complete p)) .none fun won w =>
      w = if won then .seized i else .none := by
  refine .exchange .refl (fun _ _ => rfl) fun s dead views t inv view cond free => ?_
  have shut : Shut R heard s (s.setSlot i { s.slot i with control := owned consumer complete p }) :=
    .of_same rfl rfl rfl rfl rfl (fun _ => rfl) rfl
  refine ⟨.seized i, ?_, shut, rfl⟩
  refine Gates.put inv view (i := i) rfl inv.head inv.tail shut ?_ (.inr ?_) ?_ nofun ?_ ?_
  · intro j ne
    simp [Shared.setSlot, update_of_ne ne]
  · rw [free, word]
    exact ⟨by decide, by decide⟩
  · intro j has
    exact (Option.some.inj has).symm
  · exact fun _ => .inr fun hear => field_eq_zero (cond hear)
  · refine ⟨lt, ?_⟩
    simp only [Shared.setSlot, update_self, base_owned_consumer]

theorem gate_settle {mark : Trail α → Trail α} (has : v.slot = some i)
    (quiet : base word ≠ consumer) (after : w = .none ∨ w = v ∧ v = .passed i ∧ base word = producer)
    (headPos : ∀ tr, (mark tr).headPos = tr.headPos) (tailPos : ∀ tr, (mark tr).tailPos = tr.tailPos)
    (claims : ∀ tr, (mark tr).claims = tr.claims) (fate : (∀ tr, (mark tr).fate = tr.fate) ∨ v = .passed i) :
    GateSpec R heard op (settleControl i word mark) v fun _ w' => w' = w := by
  refine .write fun s dead views t inv view _ => ?_
  have shut : Shut R heard s { s.setSlot i { s.slot i with control := word } with trail := mark s.trail } := by
    refine .of_same rfl rfl rfl (headPos _) (tailPos _) (fun done => ?_) (claims _)
    rcases fate with same | passed
    · exact same _
    · exact absurd (passed ▸ view) (inv.silent done t op i)
  refine ⟨w, ?_, shut, rfl⟩
  refine Gates.put inv view (i := i) rfl ?_ ?_ shut ?_ (.inl has) ?_ ?_ ?_ ?_
  · rw [headPos]
    exact inv.head
  · rw [tailPos]
    exact inv.tail
  · intro j ne
    simp [Shared.setSlot, update_of_ne ne]
  · intro j has'
    rcases after with rfl | ⟨rfl, -, -⟩
    · cases has'
    · rw [has] at has'
      exact (Option.some.inj has').symm
  · intro j same
    rcases after with rfl | ⟨rfl, -, -⟩
    · cases same
    · exact same
  · intro theirs
    simp only [Shared.setSlot, update_self] at theirs
    exact absurd theirs quiet
  · rcases after with rfl | ⟨rfl, rfl, word⟩
    · trivial
    · refine ⟨(inv.view view).1, ?_⟩
      simp only [Shared.setSlot, update_self]
      exact word

theorem gate_release (has : v.slot = some i) (quiet : base word ≠ consumer) :
    GateSpec R heard op (storeControl i word) v fun _ w => w = .none :=
  gate_settle has quiet (.inl rfl) (fun _ => rfl) (fun _ => rfl) (fun _ => rfl) (.inl fun _ => rfl)

theorem gate_edit {f : Shared R.toGeometry α → Shared R.toGeometry α} (lifecycle : ∀ s, (f s).lifecycle = s.lifecycle)
    (head : ∀ s, (f s).head = s.head) (tail : ∀ s, (f s).tail = s.tail)
    (control : ∀ s j, ((f s).slot j).control = (s.slot j).control)
    (headPos : ∀ s, (f s).trail.headPos = s.trail.headPos) (tailPos : ∀ s, (f s).trail.tailPos = s.trail.tailPos)
    (claims : ∀ s, (f s).trail.claims = s.trail.claims) (fate : ∀ s, (f s).trail.fate = s.trail.fate)
    (has : v.slot = some i) : GateSpec R heard op (Prog.write .plain f) v fun _ w => w = v := by
  refine .write fun s dead views t inv view _ => ?_
  have shut : Shut R heard s (f s) :=
    .of_same (lifecycle s) (head s) (tail s) (headPos s) (tailPos s) (fun _ => fate s) (claims s)
  refine ⟨v, ?_, shut, rfl⟩
  refine Gates.put inv view (i := i) (lifecycle s) ?_ ?_ shut (fun j _ => control s j) (.inl has) ?_ (fun _ => id) ?_ ?_
  · rw [head, headPos]
    exact inv.head
  · rw [tail, tailPos]
    exact inv.tail
  · intro j has'
    rw [has] at has'
    exact (Option.some.inj has').symm
  · rw [control]
    exact .inl
  · refine (inv.view view).keep shut (by rw [lifecycle]; exact fun _ => id) (fun j _ => by rw [control]) ?_ ?_
    · intro _ u op' j at_u
      rw [update_same view] at at_u
      exact ⟨op', at_u⟩
    · intro _ _ j
      rw [control]
      exact id

/-! ### Producers and consumers -/

theorem gate_moveTail : GateSpec R heard op
    (compareExchangeTail i (R.cursor n) (R.next (R.cursor n))) (.passed i) fun _ w => w = .passed i := by
  refine .exchange .refl (fun _ _ => rfl) fun s dead views t inv view _ here => ?_
  -- whoever is past the gate keeps sending from being over
  have unfinished : ¬Finished s.lifecycle R.sendField := fun done => inv.silent done t op i view
  have shut : Shut R heard s { s with tail := R.next (R.cursor n), trail := s.trail.reserve i } :=
    ⟨Nat.le_refl _, fun done => absurd done unfinished, fun done => ⟨done, fun _ => ⟨rfl, rfl⟩⟩⟩
  refine ⟨.passed i, ?_, shut, rfl⟩
  refine Gates.put inv view (i := i) rfl inv.head ?_ shut (fun _ _ => rfl) (.inl rfl)
    (fun j has => (Option.some.inj has).symm) (fun _ => id) .inl (inv.view view)
  show R.next (R.cursor n) = R.cursor (s.trail.tailPos + 1)
  rw [← here, inv.tail, R.next_cursor]

theorem gate_moveHead {initialized : Bool} : GateSpec R heard op
    (compareExchangeHead i initialized (R.cursor n) (R.next (R.cursor n))) (.seized i) fun _ w => w = .seized i := by
  refine .exchange .refl (fun _ _ => rfl) fun s dead views t inv view _ here => ?_
  obtain ⟨lt, theirs⟩ : i < R.capacity ∧ base (s.slot i).control = consumer := inv.view view
  have shut : Shut R heard s { s with head := R.next (R.cursor n), trail := s.trail.claim i initialized } :=
    ⟨Nat.le_succ _, fun done => ⟨done, rfl, rfl, rfl⟩,
      fun done => ⟨done, fun hear => absurd theirs (inv.deaf hear done i lt)⟩⟩
  refine ⟨.seized i, ?_, shut, rfl⟩
  refine Gates.put inv view (i := i) rfl ?_ inv.tail shut (fun _ _ => rfl) (.inl rfl)
    (fun j has => (Option.some.inj has).symm) nofun .inl (inv.view view)
  show R.next (R.cursor n) = R.cursor (s.trail.headPos + 1)
  rw [← here, inv.head, R.next_cursor]

theorem gate_reserve : GateSpec R heard op (reserve R p) .none fun r w => match r with
    | .error _ => True
    | .ok i => w = .passed i := by
  refine .next gate_state fun st => ?_
  split
  · trivial
  refine .seq gate_loadTail ?_
  rintro _ _ ⟨⟨n, rfl⟩, rfl⟩
  refine .next (gate_grab (index_lt n)) fun won => ?_
  have back : ∀ {v : Hold} {e : ReserveError}, v.slot = some (R.index (R.cursor n)) →
      GateSpec R heard op ((storeControl (R.index (R.cursor n)) empty).bind fun _ => .done (Except.error e)) v
        fun (r : Except ReserveError Nat) w => match r with
          | .error _ => True
          | .ok i => w = .passed i := by
    intro v e has
    exact .seq (gate_release has (by decide)) fun _ _ _ => trivial
  cases won with
  | false =>
    refine .seq gate_loadHead ?_
    rintro head _ ⟨-, rfl⟩
    simp only [Prog.pure_eq]
    split <;> trivial
  | true =>
    refine .seq (R := fun _ w => w = .grabbed (R.index (R.cursor n))) (gate_peek fun _ => rfl) ?_
    rintro turn _ rfl
    split
    · exact back rfl
    refine .seq gate_loadTail ?_
    rintro tail _ ⟨-, rfl⟩
    split
    · exact back rfl
    refine .seq gate_recheck ?_
    rintro st w h
    split
    · rcases h with rfl | ⟨rfl, -⟩
      · exact back rfl
      · exact back rfl
    rename_i still_open
    obtain rfl : w = .passed (R.index (R.cursor n)) := by
      rcases h with same | ⟨-, closed⟩
      · exact same
      · exact absurd closed still_open
    refine .next gate_moveTail fun won => ?_
    cases won with
    | false => exact back rfl
    | true => rfl

theorem gate_stage : GateSpec R heard op (stage i value) (.passed i) fun _ w => w = .passed i := by
  refine .seq (gate_edit (i := i) (fun _ => rfl) (fun _ => rfl) (fun _ => rfl) ?_ (fun _ => rfl) (fun _ => rfl)
    (fun _ => rfl) (fun _ => rfl) rfl) ?_
  · intro s j
    by_cases same : j = i
    · subst same
      simp [Shared.setSlot]
    · simp [Shared.setSlot, update_of_ne same]
  rintro _ _ rfl
  refine .seq (R := fun _ w => w = .passed i) (gate_peek fun _ => rfl) ?_
  rintro control _ rfl
  refine gate_settle rfl ?_ (.inr ⟨rfl, rfl, base_owned_producer ..⟩) (fun _ => rfl) (fun _ => rfl) (fun _ => rfl)
    (.inl fun _ => rfl)
  rw [base_owned_producer]
  decide

theorem gate_skip : GateSpec R heard op (skip i) (.passed i) fun _ w => w = .none :=
  gate_settle rfl (by decide) (.inl rfl) (fun _ => rfl) (fun _ => rfl) (fun _ => rfl) (.inr rfl)

theorem gate_produce {send : Send} : GateSpec R heard op (Op.code R (.produce p value send)) .none fun _ _ => True := by
  refine .seq gate_reserve ?_
  rintro (_ | i) w h
  · trivial
  obtain rfl : w = .passed i := h
  cases send with
  | dropReserved => exact gate_skip.mono fun _ _ _ => trivial
  | publish =>
    refine .next gate_stage fun _ => ?_
    have published : GateSpec R heard op (publish i value) (.passed i) fun _ w => w = .none :=
      gate_settle rfl (by decide) (.inl rfl) (fun _ => rfl) (fun _ => rfl) (fun _ => rfl) (.inr rfl)
    exact published.mono fun _ _ _ => trivial
  | cancel =>
    refine .next gate_stage fun _ => ?_
    refine .seq (R := fun _ _ => True) ?_ fun _ _ _ => trivial
    refine .seq (R := fun _ w => w = .passed i) (gate_peek fun _ => rfl) ?_
    rintro _ _ rfl
    exact .seq gate_skip fun _ _ _ => trivial

theorem gate_recycle {claim : Claim R.toGeometry} :
    GateSpec R heard op (recycle claim) (.seized claim.index) fun _ w => w = .none := by
  refine .seq (gate_edit (i := claim.index) (fun _ => rfl) (fun _ => rfl) (fun _ => rfl) ?_ (fun _ => rfl)
    (fun _ => rfl) (fun _ => rfl) (fun _ => rfl) rfl) ?_
  · intro s j
    by_cases same : j = claim.index
    · subst same
      simp [Shared.setSlot]
    · simp [Shared.setSlot, update_of_ne same]
  rintro _ _ rfl
  exact gate_settle rfl (by decide) (.inl rfl) (fun _ => rfl) (fun _ => rfl) (fun _ => rfl) (.inl fun _ => rfl)

theorem gate_claim : GateSpec R heard op (claim R p) .none fun r w => match r with
    | .error _ => True
    | .ok claim => w = .seized claim.index := by
  refine .seq (R := fun _ w => w = .none) (gate_peek fun _ => rfl) ?_
  rintro field _ rfl
  split
  · trivial
  refine .seq gate_loadHead ?_
  rintro _ _ ⟨⟨n, rfl⟩, rfl⟩
  refine .seq (R := fun _ w => w = .none) (gate_peek fun _ => rfl) ?_
  rintro control _ rfl
  split
  · refine .seq gate_loadTail ?_
    rintro tail _ ⟨-, rfl⟩
    simp only [Prog.pure_eq]
    split <;> trivial
  rename_i words
  have word : base control = available := by
    by_cases plain : control = available
    · rw [plain]
      rfl
    · have complete : control = available ||| completeBit := by
        by_contra other
        exact words ⟨plain, other⟩
      rw [complete]
      rfl
  have back : ∀ {e : ClaimError}, GateSpec R heard op
      ((storeControl (R.index (R.cursor n)) control).bind fun _ => .done (Except.error e))
      (.seized (R.index (R.cursor n))) fun (r : Except ClaimError (Claim R.toGeometry)) w => match r with
        | .error _ => True
        | .ok claim => w = .seized claim.index := by
    intro e
    exact .seq (gate_release rfl (by rw [word]; decide)) fun _ _ _ => trivial
  refine .next (gate_seize (index_lt n) word) fun won => ?_
  cases won with
  | false => trivial
  | true =>
    refine .seq (R := fun _ w => w = .seized (R.index (R.cursor n))) (gate_peek fun _ => rfl) ?_
    rintro turn _ rfl
    split
    · exact back
    refine .seq gate_loadHead ?_
    rintro head _ ⟨-, rfl⟩
    split
    · exact back
    refine .next gate_moveHead fun won => ?_
    cases won with
    | false => exact back
    | true =>
      simp only [Bool.not_true, Bool.false_eq_true, if_false]
      split
      · exact .seq gate_recycle fun _ _ _ => trivial
      · rfl

theorem gate_consume {use : Use} : GateSpec R heard op (Op.code R (.consume p use)) .none fun _ _ => True := by
  refine .seq gate_claim ?_
  rintro (_ | claim) w h
  · trivial
  obtain rfl : w = .seized claim.index := h
  cases use with
  | take =>
    refine .seq (R := fun _ _ => True) ?_ fun _ _ _ => trivial
    refine .seq (R := fun _ w => w = .seized claim.index) (.action ?_) ?_
    · intro s dead views t inv view _
      have shut : Shut R heard s { s with trail := s.trail.take claim.index (s.slot claim.index).value } :=
        .of_same rfl rfl rfl rfl rfl (fun _ => rfl) rfl
      refine ⟨.seized claim.index, ?_, shut, rfl⟩
      exact Gates.put inv view (i := claim.index) rfl inv.head inv.tail shut (fun _ _ => rfl) (.inl rfl)
        (fun j has => (Option.some.inj has).symm) nofun .inl (inv.view view)
    rintro _ _ rfl
    exact .seq gate_recycle fun _ _ _ => trivial
  | drop =>
    show GateSpec R heard op (dropClaim claim) (.seized claim.index) _
    unfold dropClaim
    split
    · refine .seq (R := fun _ w => w = .seized claim.index) (gate_peek fun _ => rfl) ?_
      rintro _ _ rfl
      exact gate_recycle.mono fun _ _ _ => trivial
    · exact gate_recycle.mono fun _ _ _ => trivial
  | forget => trivial

end Evering.Queue
