import Evering.Interleave.Protocol
import Evering.Interleave.Solo
import Evering.Header.Model

/-!
# A layout is initialized once and published before use

The thread that moves the status to `Initializing` is the only one that writes the header until it stores a final status,
and from `Initialized` on nothing writes it. So a thread that has claimed the status, or has seen `Initialized`, knows the
whole header: its view is a copy of it. A member bit belongs either to the admission that has just claimed it or to the
handle of one that succeeded.
-/

namespace Evering.Header

open Interleave List Option Function

/-! ### What is recorded -/

section Recorded

variable {L : Layout}

/-- The recorded header is the one this configuration and context would write. -/
def Matches (field : LayoutField → Nat) (info : Option L.Info) (conf : L.Config) (ctx : Context) : Prop :=
  (L.storage conf).isSome = true ∧ info = some (L.info conf ctx) ∧
    ∀ f ∈ recordFields ++ headerFields, field f = expected conf ctx f

/-- The status moves towards a final one. -/
def Status.Moves (before after : Status) : Prop :=
  after = before ∨ (before = .uninitialized ∧ after = .initializing) ∨
    (before = .initializing ∧ (after = .initialized ∨ after = .corrupted))

end Recorded

/-! ### Views -/

inductive Stage
  | outside
  /-- has claimed the status and `init` has not run -/
  | writing
  /-- has claimed the status and `init` has run -/
  | built
  /-- has seen the status `Initialized` -/
  | seen
  deriving DecidableEq

structure View (L : Layout) where
  stage : Stage
  field : LayoutField → Nat
  info : Option L.Info
  /-- slot whose member bit belongs to this admission -/
  held : Option Nat
  leaving : Option Nat

section Views

variable {L : Layout}

def View.outside : View L := ⟨.outside, fun _ => 0, none, none, none⟩

def View.writes (v : View L) : Prop := v.stage = .writing ∨ v.stage = .built

structure Knows (s : Shared L) (v : View L) : Prop where
  writing : v.stage = .writing → s.status = .initializing ∧ s.inits = 0
  built : v.stage = .built → s.status = .initializing ∧ s.inits = 1
  seen : v.stage = .seen → s.status = .initialized
  copy : v.stage ≠ .outside → s.field = v.field ∧ s.info = v.info
  /-- the members word has not been written yet -/
  blank : v.stage = .writing → v.held = none → s.members = 0
  held : ∀ i, v.held = some i → s.members.getLsbD i = true ∧ s.handle i = false
  leaving : ∀ i, v.leaving = some i → s.handle i = true

/-- Two threads do not write both, nor hold or leave the same slot. -/
structure Apart (v w : View L) : Prop where
  writes : v.writes → ¬w.writes
  held : ∀ i, v.held = some i → w.held ≠ some i
  leaving : ∀ i, v.leaving = some i → w.leaving ≠ some i

theorem Apart.symm {v w : View L} (apart : Apart v w) : Apart w v :=
  ⟨fun h h' => apart.writes h' h, fun i h h' => apart.held i h' h, fun i h h' => apart.leaving i h' h⟩

structure Global (s : Shared L) : Prop where
  zero : s.status = .uninitialized → s.inits = 0 ∧ s.members = 0
  once : s.inits ≤ 1
  ran : s.status = .initialized → s.inits = 1
  early : s.early = false
  admitted : ∀ a ∈ s.admitted, s.status = .initialized ∧ Matches s.field s.info a.1 a.2
  handle : ∀ i, s.handle i = true → s.status = .initialized ∧ s.members.getLsbD i = true
  count : ∀ i, s.log.count (.claimed i) =
    s.log.count (.refused i) + s.log.count (.left i) + (s.members.getLsbD i).toNat

structure Kept (s : Shared L) (views : Views (Op L) (View L)) : Prop where
  state : Global s
  knows : ∀ t op v, views t = some (op, v) → Knows s v
  own : ∀ t op v, views t = some (op, v) → ∀ i, v.leaving = some i → op.leaves = some i
  apart : ∀ t t' op op' v v', t ≠ t' → views t = some (op, v) → views t' = some (op', v') → Apart v v'

variable (L) in
def admission : Protocol (Shared L) Unit (Op L) (View L) where
  inv := fun s _ views => Kept s views
  idle := fun _ => True
  guar := fun s s' => s.status.Moves s'.status

theorem Status.Moves.refl (status : Status) : status.Moves status := .inl rfl

variable {op : Op L} {β : Type} {v : View L}
variable {Q : β → View L → Prop} {f : Shared L → β}

theorem action_spec {f : Shared L → Shared L × β} (h : ∀ s, Global s → Knows s v → ∃ v', Global (f s).1 ∧ Knows (f s).1 v' ∧
      (∀ w, Knows s w → Apart v w → Apart v' w ∧ Knows (f s).1 w) ∧ s.status.Moves (f s).1.status ∧
      (∀ i, v'.leaving = some i → v.leaving = some i) ∧ Q (f s).2 v') : (admission L).Triple op (.action () f) v Q := by
  refine .action fun s dead views t inv view _ => ?_
  obtain ⟨v', state, knows, others, moves, stays, post⟩ := h s inv.state (inv.knows t op v view)
  have other : ∀ u op' w, u ≠ t → views u = some (op', w) → Apart v' w ∧ Knows (f s).1 w := fun u op' w ne hu =>
    others w (inv.knows u op' w hu) (inv.apart t u op op' v w ne.symm view hu)
  refine ⟨v', ⟨state, fun _ _ _ => Views.put knows fun ne hu => (other _ _ _ ne hu).2, fun _ _ _ => ?_, fun _ _ _ _ _ _ => ?_⟩,
    moves, post⟩
  · exact Views.put (fun i leaving => inv.own t op v view i (stays i leaving)) fun _ => inv.own _ _ _
  · intro ne hu hu'
    exact Views.put_pair (fun ne => absurd rfl ne) (fun ne' hu _ => (other _ _ _ ne' hu).1)
      (fun ne' hu _ => (other _ _ _ ne' hu).1.symm) (fun hu hu' ne => inv.apart _ _ _ _ _ _ ne hu hu') hu hu' ne

theorem look_spec
    (h : ∀ s, Knows s v → ∃ v', Knows s v' ∧ (∀ w, Apart v w → Apart v' w) ∧ (∀ i, v'.leaving = some i → v.leaving = some i) ∧
      Q (f s) v') : (admission L).Triple op (.read () f) v Q := by
  refine action_spec (f := fun s => (s, f s)) fun s state knows => ?_
  obtain ⟨v', knows', apart, stays, post⟩ := h s knows
  exact ⟨v', state, knows', fun w knowsW apartW => ⟨apart w apartW, knowsW⟩, .refl _, stays, post⟩

/-! ### Comparing -/

theorem observe_spec (seen : v.stage = .seen) (h : ∀ s, Knows s v → Q (f s) v) : (admission L).Triple op (observe f) v Q := by
  refine action_spec fun s state knows => ?_
  have early : (s.early || decide (s.status ≠ .initialized)) = s.early := by simp [knows.seen seen]
  simp only [early]
  exact ⟨v, state, knows, fun w knowsW apartW => ⟨apartW, knowsW⟩, .refl _, fun _ h => h, h s knows⟩

theorem runChecks_spec (seen : v.stage = .seen) (checks : List Check) :
    (admission L).Triple op (runChecks checks) v fun r v' =>
      v' = v ∧ (r = none → ∀ check ∈ checks, check.ok (v.field check.field) = true) := by
  induction checks with
  | nil => exact ⟨rfl, fun _ _ mem => by cases mem⟩
  | cons check rest ih =>
    refine .seq (R := fun n v' => v' = v ∧ n = v.field check.field) (observe_spec seen fun s knows => ⟨rfl, ?_⟩) ?_
    · rw [(knows.copy (by rw [seen]; decide)).1]
    rintro _ v ⟨rfl, rfl⟩
    by_cases ok : check.ok (v.field check.field) = true
    · simp only [ok, if_true]
      refine ih.mono fun r v' post => ⟨post.1, fun none check' mem => ?_⟩
      rcases mem_cons.mp mem with rfl | mem
      · exact ok
      · exact post.2 none check' mem
    · simp only [ok]
      exact ⟨rfl, fun none => by cases none⟩

theorem matches_of_checks {field : LayoutField → Nat} {info : Option L.Info} {conf : L.Config} {ctx : Context}
    {address size align : Nat} (inspected : ∀ check ∈ inspectChecks L ctx address, check.ok (field check.field) = true)
    (storage : L.storage conf = some (size, align))
    (extent : ∀ check ∈ [Check.equals .extent size, .equals .extentAlign align], check.ok (field check.field) = true)
    (same : info = some (L.info conf ctx)) : Matches field info conf ctx := by
  refine ⟨by rw [storage]; rfl, same, ?_⟩
  simp only [inspectChecks, recordedChecks, Check.equals, map_cons, map_nil, mem_append, mem_cons,
    not_mem_nil, or_false, forall_eq, or_imp, forall_and, beq_iff_eq] at inspected extent
  simp only [recordFields, headerFields, cons_append, nil_append, forall_mem_cons, expected, storage, getD_some]
  simp_all

theorem mismatchAt_spec (seen : v.stage = .seen) (conf : L.Config) (ctx : Context) (address : Nat) :
    (admission L).Triple op (mismatchAt conf ctx address) v fun r v' =>
      v' = v ∧ (r = none → Matches v.field v.info conf ctx) := by
  refine .seq (R := fun _ v' => v' = v) (look_spec fun s knows => ⟨v, knows, fun _ h => h, fun _ h => h, rfl⟩) ?_
  rintro status v rfl
  split
  · exact ⟨rfl, fun none => by cases none⟩
  refine .seq (runChecks_spec seen _) ?_
  rintro (_ | field) v ⟨rfl, inspected⟩
  · refine .seq (R := fun info v' => v' = v ∧ info = v.info) (observe_spec seen fun s knows => ⟨rfl, ?_⟩) ?_
    · rw [(knows.copy (by rw [seen]; decide)).2]
    rintro _ v ⟨rfl, rfl⟩
    rcases storage : L.storage conf with _ | ⟨size, align⟩
    · exact ⟨rfl, fun none => by cases none⟩
    refine .seq (runChecks_spec seen _) ?_
    rintro (_ | field) v ⟨rfl, extent⟩
    · by_cases same : v.info = some (L.info conf ctx)
      · refine (if_neg (not_not.mpr same)).symm ▸ ?_
        exact ⟨rfl, fun _ => matches_of_checks (inspected rfl) storage (extent rfl) same⟩
      · refine (if_pos same).symm ▸ ?_
        exact ⟨rfl, fun none => by cases none⟩
    · exact ⟨rfl, fun none => by cases none⟩
  · exact ⟨rfl, fun none => by cases none⟩

end Views

/-! ### Members -/

section Members

variable {L : Layout} {slot i : Nat} {members : BitVec L.target.bits}

theorem bit_get (lt : slot < L.target.bits) : (bit slot : BitVec L.target.bits).getLsbD i = decide (i = slot) := by
  unfold bit
  rw [BitVec.getLsbD_twoPow]
  by_cases same : i = slot
  · simp [same, lt]
  · simp [same, Ne.symm same]

theorem get_set (lt : slot < L.target.bits) :
    (members ||| bit slot).getLsbD i = (members.getLsbD i || decide (i = slot)) := by
  rw [BitVec.getLsbD_or, bit_get lt]

theorem get_clear (lt : slot < L.target.bits) :
    (members &&& ~~~(bit slot)).getLsbD i = (members.getLsbD i && decide (i ≠ slot)) := by
  rw [BitVec.getLsbD_and, BitVec.getLsbD_not, bit_get lt]
  by_cases inside : i < L.target.bits
  · simp [inside]
  · simp [BitVec.getLsbD_of_ge members i (by omega)]

theorem get_of_and_eq_zero (lt : slot < L.target.bits) (clear : members &&& bit slot = 0) : members.getLsbD slot = false := by
  have get := congrArg (fun x => x.getLsbD slot) clear
  simpa [BitVec.getLsbD_and, bit_get lt] using get

end Members

section Steps

variable {L : Layout} {op : Op L} {v : View L} {slot : Nat}
variable {log : List Event} {members : BitVec L.target.bits} {s : Shared L} {w : View L}

theorem count_clear (lt : slot < L.target.bits)
    (count : ∀ i, log.count (.claimed i) = log.count (.refused i) + log.count (.left i) + (members.getLsbD i).toNat)
    (set : members.getLsbD slot = true) {event : Event} (taken : event = .refused slot ∨ event = .left slot) (i : Nat) :
    (event :: log).count (.claimed i) = (event :: log).count (.refused i) + (event :: log).count (.left i) +
      ((members &&& ~~~(bit slot)).getLsbD i).toNat := by
  have before := count i
  rw [get_clear lt]
  by_cases same : i = slot
  · subst same
    rw [set] at before
    rcases taken with rfl | rfl <;> simp [before] <;> omega
  · rcases taken with rfl | rfl <;> simp [before, same, Ne.symm same]

theorem count_claim {members' : BitVec L.target.bits}
    (count : ∀ i, log.count (.claimed i) = log.count (.refused i) + log.count (.left i) + (members.getLsbD i).toNat)
    (clear : members.getLsbD slot = false)
    (now : ∀ i, members'.getLsbD i = (members.getLsbD i || decide (i = slot))) (i : Nat) :
    (Event.claimed slot :: log).count (.claimed i) = (Event.claimed slot :: log).count (.refused i) +
      (Event.claimed slot :: log).count (.left i) + (members'.getLsbD i).toNat := by
  have before := count i
  rw [now i]
  by_cases same : i = slot
  · subst same
    rw [clear] at before
    simp [before, clear]
  · simp [before, same, Ne.symm same]

theorem Global.none_admitted (state : Global s) (early : s.status ≠ .initialized) :
    s.admitted = [] ∧ ∀ i, s.handle i = false := by
  refine ⟨eq_nil_iff_forall_not_mem.mpr fun a mem => early (state.admitted a mem).1, fun i => ?_⟩
  by_contra taken
  exact early (state.handle i (by simpa using taken)).1

theorem Knows.beside_writer (knows : Knows s w) (status : s.status = .initializing)
    (apart : Apart v w) (writes : v.writes) : w.stage = .outside := by
  have quiet := apart.writes writes
  cases stage : w.stage with
  | outside => rfl
  | writing => exact absurd (.inl stage) quiet
  | built => exact absurd (.inr stage) quiet
  | seen => rw [knows.seen stage] at status; cases status

theorem knows_outside (outside : w.stage = .outside)
    (held : ∀ i, w.held = some i → s.members.getLsbD i = true ∧ s.handle i = false)
    (leaving : ∀ i, w.leaving = some i → s.handle i = true) : Knows s w := by
  constructor
  case held => exact held
  case leaving => exact leaving
  all_goals intro h; rw [outside] at h; first | cases h | exact absurd rfl h

theorem edit_spec (writes : v.stage = .writing) {f : Shared L → Shared L} (field : LayoutField → Nat) (info : Option L.Info)
    (h : ∀ s, Knows s v → f s = { s with field, info }) :
    (admission L).Triple op (.write () f) v fun _ v' => v' = { v with field, info } := by
  refine action_spec (f := fun s => (f s, ())) fun s state knows => ?_
  obtain ⟨status, inits⟩ := knows.writing writes
  obtain ⟨none, free⟩ := state.none_admitted (by rw [status]; decide)
  simp only [h s knows]
  refine ⟨{ v with field, info }, ?_, ?_, fun w knowsW apart => ⟨⟨apart.writes, apart.held, apart.leaving⟩, ?_⟩, .refl _,
    fun _ h => h, rfl⟩
  · exact { state with admitted := by simp only [none]; exact fun a mem => by cases mem }
  · exact { knows with copy := fun _ => ⟨rfl, rfl⟩ }
  · exact knows_outside (knowsW.beside_writer status apart (.inl writes)) knowsW.held knowsW.leaving

theorem writeFields_spec (writes : v.stage = .writing) (value : LayoutField → Nat) (fields : List LayoutField) :
    (admission L).Triple op (writeFields value fields) v fun _ v' =>
      v' = { v with field := fun f => if f ∈ fields then value f else v.field f } := by
  induction fields generalizing v with
  | nil => simp [writeFields, Protocol.Triple]
  | cons field rest ih =>
    refine .seq (edit_spec writes (Function.update v.field field (value field)) v.info fun s knows => ?_) ?_
    · obtain ⟨copy, info⟩ := knows.copy (by rw [writes]; decide)
      rw [← copy, ← info]
    rintro _ _ rfl
    refine (ih (v := { v with field := Function.update v.field field (value field) }) writes).mono fun _ v' eq => eq.trans ?_
    congr 1
    funext f
    by_cases same : f = field
    · subst same
      simp
    · simp [same]

theorem writeInfo_spec (writes : v.stage = .writing) (info : Option L.Info) :
    (admission L).Triple op (.write () fun s => { s with info }) v fun _ v' => v' = { v with info } :=
  edit_spec writes v.field info fun s knows => by rw [← (knows.copy (by rw [writes]; decide)).1]

variable {slot : Option Nat} {conf : L.Config} {ctx : Context}

theorem writeMembers_spec (writes : v.stage = .writing) (free : v.held = none) (lt : ∀ i, slot = some i → i < L.target.bits) :
    (admission L).Triple op (writeMembers slot) v fun _ v' => v' = { v with held := slot } := by
  cases slot with
  | none =>
    refine action_spec (f := fun s => ({ s with members := 0 }, ())) fun s state knows => ?_
    have same : ({ s with members := 0 } : Shared L) = s := by
      rw [← knows.blank writes free]
    simp only [same]
    refine ⟨v, state, knows, fun w knowsW apart => ⟨apart, knowsW⟩, .refl _, fun _ h => h, ?_⟩
    rw [← free]
  | some slot =>
    have lt := lt slot rfl
    refine action_spec (f := fun s => ({ s with members := bit slot, log := .claimed slot :: s.log }, ()))
      fun s state knows => ?_
    have status := (knows.writing writes).1
    have blank := knows.blank writes free
    obtain ⟨none, unhandled⟩ := state.none_admitted (by rw [status]; decide)
    have zero : ∀ i, s.members.getLsbD i = false := fun i => by rw [blank]; exact BitVec.getLsbD_zero
    refine ⟨{ v with held := some slot }, ?_, ?_, fun w knowsW apart => ?_, .refl _, fun _ h => h, rfl⟩
    · refine { state with zero := fun h => ?_, handle := fun i taken => ?_, count := ?_ }
      · rw [show s.status = .uninitialized from h] at status
        cases status
      · have taken : s.handle i = true := taken
        rw [unhandled i] at taken
        cases taken
      · exact count_claim state.count (zero slot) fun i => by rw [bit_get lt, zero i, Bool.false_or]
    · refine { knows with blank := fun _ h => (by cases h), held := fun i h => ?_ }
      cases h
      exact ⟨by simp [bit_get lt], unhandled slot⟩
    · have unheld : ∀ i, w.held ≠ some i := fun i h => by
        have := (knowsW.held i h).1
        rw [zero i] at this
        cases this
      refine ⟨⟨apart.writes, fun i _ => unheld i, apart.leaving⟩, ?_⟩
      exact knows_outside (knowsW.beside_writer status apart (.inl writes)) (fun i h => absurd h (unheld i)) knowsW.leaving

theorem runInit_spec (writes : v.stage = .writing) :
    (admission L).Triple op (.write () fun s => { s with inits := s.inits + 1 }) v fun _ v' => v' =
    { v with stage := .built } := by
  refine action_spec (f := fun s => ({ s with inits := s.inits + 1 }, ())) fun s state knows => ?_
  obtain ⟨status, inits⟩ := knows.writing writes
  refine ⟨{ v with stage := .built }, ?_, ?_, fun w knowsW apart => ?_, .refl _, fun _ h => h, rfl⟩
  · refine { state with zero := fun h => ?_, once := ?_, ran := fun h => ?_ }
    · rw [show s.status = .uninitialized from h] at status
      cases status
    · show s.inits + 1 ≤ 1
      omega
    · rw [show s.status = .initialized from h] at status
      cases status
  · refine ⟨fun h => (by cases h), fun _ => ⟨status, by show s.inits + 1 = 1; omega⟩, fun h => (by cases h), fun _ => ?_,
      fun h => (by cases h), knows.held, knows.leaving⟩
    exact knows.copy (by rw [writes]; decide)
  · refine ⟨⟨fun _ => apart.writes (.inl writes), apart.held, apart.leaving⟩, ?_⟩
    exact knows_outside (knowsW.beside_writer status apart (.inl writes)) knowsW.held knowsW.leaving

theorem dropMembership_spec (inside : v.stage = .built ∨ v.stage = .seen) (held : v.held = slot)
    (lt : ∀ i, slot = some i → i < L.target.bits) :
    (admission L).Triple op (dropMembership slot) v fun _ v' => v' = { v with held := none } := by
  cases slot with
  | none => exact congrArg (fun h => { v with held := h }) held
  | some slot =>
    have lt := lt slot rfl
    refine action_spec (f := fun s => ({ s with members := s.members &&& ~~~(bit slot), log := .refused slot :: s.log }, ()))
      fun s state knows => ?_
    obtain ⟨set, free⟩ := knows.held slot held
    have status : s.status ≠ .uninitialized := by
      rcases inside with h | h
      · rw [(knows.built h).1]; decide
      · rw [knows.seen h]; decide
    have keeps : ∀ i, i ≠ slot → s.members.getLsbD i = true → (s.members &&& ~~~(bit slot)).getLsbD i = true := by
      intro i ne set
      rw [get_clear lt, set]
      simp [ne]
    refine ⟨{ v with held := none }, ?_, ?_, fun w knowsW apart => ?_, .refl _, fun _ h => h, rfl⟩
    · refine { state with
        zero := fun h => absurd h status
        handle := fun i taken => ?_
        count := count_clear lt state.count set (.inl rfl) }
      obtain ⟨ready, member⟩ := state.handle i taken
      refine ⟨ready, keeps i ?_ member⟩
      rintro rfl
      rw [show s.handle i = true from taken] at free
      cases free
    · refine { knows with blank := fun h => ?_, held := fun i h => (by cases h) }
      rcases inside with h' | h' <;> rw [h'] at h <;> cases h
    · refine ⟨⟨apart.writes, fun i h => (by cases h), apart.leaving⟩, ?_⟩
      refine { knowsW with blank := fun writing unheld => ?_, held := fun i h => ?_ }
      · -- the other thread would be a writer beside this one
        have initializing := (knowsW.writing writing).1
        rcases inside with h | h
        · exact absurd (.inl writing) (apart.writes (.inr h))
        · rw [knows.seen h] at initializing
          cases initializing
      · obtain ⟨member, unhandled⟩ := knowsW.held i h
        exact ⟨keeps i (fun same => apart.held slot held (same ▸ h)) member, unhandled⟩

theorem Global.finish {s' : Shared L} (state : Global s) (inits : s.inits = 1)
    (final : s'.status ≠ .uninitialized) (same : s'.inits = s.inits ∧ s'.early = s.early ∧ s'.members = s.members ∧
      s'.log = s.log)
    (admitted : ∀ a ∈ s'.admitted, s'.status = .initialized ∧ Matches s'.field s'.info a.1 a.2)
    (handle : ∀ i, s'.handle i = true → s'.status = .initialized ∧ s'.members.getLsbD i = true) : Global s' := by
  obtain ⟨sameInits, sameEarly, sameMembers, sameLog⟩ := same
  refine ⟨fun h => absurd h final, by omega, fun _ => by omega, by rw [sameEarly, state.early], admitted, handle, ?_⟩
  rw [sameMembers, sameLog]
  exact state.count

theorem corrupt_spec (built : v.stage = .built) :
    (admission L).Triple op (.write () fun s => { s with status := .corrupted }) v fun _ _ => True := by
  refine action_spec (f := fun s => ({ s with status := .corrupted }, ())) fun s state knows => ?_
  obtain ⟨status, inits⟩ := knows.built built
  obtain ⟨none, unhandled⟩ := state.none_admitted (by rw [status]; decide)
  refine ⟨{ v with stage := .outside }, ?_, ?_, fun w knowsW apart => ⟨?_, ?_⟩, ?_, fun _ h => h, trivial⟩
  · refine state.finish inits nofun ⟨rfl, rfl, rfl, rfl⟩ ?_ ?_
    · simp only [none]
      exact fun a mem => by cases mem
    · intro i taken
      have taken : s.handle i = true := taken
      rw [unhandled i] at taken
      cases taken
  · exact knows_outside rfl knows.held knows.leaving
  · exact ⟨fun h => (by rcases h with h | h <;> cases h), apart.held, apart.leaving⟩
  · exact knows_outside (knowsW.beside_writer status apart (.inr built)) knowsW.held knowsW.leaving
  · rw [status]
    exact .inr (.inr ⟨rfl, .inr rfl⟩)

theorem handle_admitMember {held : Option Nat} (conf : L.Config) (ctx : Context) (i : Nat) :
    (s.admitMember held conf ctx).handle i = true ↔ held = some i ∨ s.handle i = true := by
  cases held with
  | none => simp [Shared.admitMember]
  | some slot =>
    by_cases same : i = slot
    · simp [Shared.admitMember, same]
    · simp [Shared.admitMember, same, Ne.symm same]

theorem publish_spec (built : v.stage = .built) (held : v.held = slot) (fits : Matches v.field v.info conf ctx) :
    (admission L).Triple op (.write () fun s => { s.admitMember slot conf ctx with status := .initialized }) v
      fun _ _ => True := by
  subst held
  refine action_spec (f := fun s => ({ s.admitMember v.held conf ctx with status := .initialized }, ())) fun s state knows => ?_
  obtain ⟨status, inits⟩ := knows.built built
  obtain ⟨none, unhandled⟩ := state.none_admitted (by rw [status]; decide)
  obtain ⟨field, info⟩ := knows.copy (by rw [built]; decide)
  have handled : ∀ i, (s.admitMember v.held conf ctx).handle i = true → v.held = some i := fun i taken =>
    ((handle_admitMember conf ctx i).mp taken).resolve_right (by rw [unhandled i]; decide)
  refine ⟨{ v with stage := .outside, held := .none }, ?_, ?_, fun w knowsW apart => ⟨?_, ?_⟩, ?_, fun _ h => h, trivial⟩
  · refine state.finish inits nofun ⟨rfl, rfl, rfl, rfl⟩ ?_ fun i taken =>
      ⟨rfl, (knows.held i (handled i taken)).1⟩
    intro a mem
    have mem : a ∈ (conf, ctx) :: s.admitted := mem
    rw [none, mem_singleton] at mem
    subst mem
    exact ⟨rfl, by rw [← field, ← info] at fits; exact fits⟩
  · refine knows_outside rfl (fun i h => (by cases h)) fun i h => (handle_admitMember conf ctx i).mpr (.inr (knows.leaving i h))
  · exact ⟨fun h => (by rcases h with h | h <;> cases h), fun i h => (by cases h), apart.leaving⟩
  · refine knows_outside (knowsW.beside_writer status apart (.inr built)) (fun i h => ?_) fun i h =>
      (handle_admitMember conf ctx i).mpr (.inr (knowsW.leaving i h))
    refine ⟨(knowsW.held i h).1, ?_⟩
    by_contra taken
    exact apart.held i (handled i (by simpa using taken)) h
  · rw [status]
    exact .inr (.inr ⟨rfl, .inl rfl⟩)

theorem initLayout_spec (writes : v.stage = .writing) (free : v.held = none)
    (lt : ∀ i, slot = some i → i < L.target.bits) (some : (L.storage conf).isSome = true) :
    (admission L).Triple op (initLayout slot conf ctx) v fun _ _ => True := by
  refine .next (writeFields_spec writes _ _) fun _ => ?_
  refine .next (writeMembers_spec (by exact writes) (by exact free) lt) fun _ => ?_
  refine .next (writeFields_spec (by exact writes) _ _) fun _ => ?_
  refine .next (writeInfo_spec (by exact writes) _) fun _ => ?_
  refine .pick fun choice => .seq (runInit_spec (by exact writes)) ?_
  rintro _ _ rfl
  split
  · refine .next (dropMembership_spec (.inl rfl) rfl lt) fun _ => ?_
    exact .seq (corrupt_spec rfl) fun _ _ _ => trivial
  · refine .seq (publish_spec rfl rfl ⟨some, rfl, fun f mem => ?_⟩) fun _ _ _ => trivial
    rcases mem_append.mp mem with mem | mem
    · by_cases later : f ∈ headerFields
      · exact if_pos later
      · exact (if_neg later).trans (if_pos mem)
    · exact if_pos mem

/-! ### Attaching and leaving -/

theorem claim_spec (seen : v.stage = .seen) (free : v.held = none) (lt : ∀ i, slot = some i → i < L.target.bits) :
    (admission L).Triple op (claim slot) v fun r v' => match r with
      | .ok _ => v' = { v with held := slot }
      | .error _ => True := by
  cases slot with
  | none => exact congrArg (fun h => { v with held := h }) free
  | some slot =>
    have lt := lt slot rfl
    refine .seq (R := fun _ v' => v' = v) (look_spec fun s knows => ⟨v, knows, fun _ h => h, fun _ h => h, rfl⟩) ?_
    rintro observed v rfl
    split
    · trivial
    split
    · trivial
    rename_i clear
    have clear : observed.getLsbD slot = false := get_of_and_eq_zero lt (not_not.mp clear)
    refine .seq (R := fun won v' => v' = if won then { v with held := some slot } else v)
      (action_spec fun s state knows => ?_) ?_
    · by_cases same : s.members = observed
      · rw [if_pos same]
        subst same
        have status := knows.seen seen
        have unhandled : s.handle slot = false := by
          by_contra taken
          rw [(state.handle slot (by simpa using taken)).2] at clear
          cases clear
        have keeps : ∀ i, s.members.getLsbD i = true → (s.members ||| bit slot).getLsbD i = true := fun i set => by
          rw [get_set lt, set, Bool.true_or]
        refine ⟨{ v with held := some slot }, ?_, ?_, fun w knowsW apart => ⟨⟨apart.writes, fun i h => ?_, apart.leaving⟩, ?_⟩,
          .refl _, fun _ h => h, rfl⟩
        · refine { state with
            zero := fun h => ?_
            handle := fun i taken => ⟨status, keeps i (state.handle i taken).2⟩
            count := count_claim state.count clear fun i => get_set lt }
          rw [show s.status = .uninitialized from h] at status
          cases status
        · refine { knows with blank := fun h => ?_, held := fun i h => ?_ }
          · rw [show v.stage = .writing from h] at seen
            cases seen
          · cases h
            exact ⟨by simp [get_set lt], unhandled⟩
        · cases h
          intro h'
          rw [(knowsW.held _ h').1] at clear
          cases clear
        · refine { knowsW with blank := fun writing => ?_, held := fun i h => ?_ }
          · rw [(knowsW.writing writing).1] at status
            cases status
          · exact ⟨keeps i (knowsW.held i h).1, (knowsW.held i h).2⟩
      · rw [if_neg same]
        exact ⟨v, state, knows, fun w knowsW apart => ⟨apart, knowsW⟩, .refl _, fun _ h => h, rfl⟩
    · rintro won v' rfl
      cases won with
      | true => rfl
      | false => trivial

theorem consent_spec (seen : v.stage = .seen) (held : v.held = slot)
    (fits : Matches v.field v.info conf ctx) {consents : Prop} [Decidable consents] :
    (admission L).Triple op (.write () fun s => let s := { s with early := s.early || decide (s.status ≠ .initialized) }
      if consents then s.admitMember slot conf ctx else s) v fun _ v' => ¬consents → v' = v := by
  subst held
  refine action_spec (f := fun s => (let s := { s with early := s.early || decide (s.status ≠ .initialized) }
    if consents then s.admitMember v.held conf ctx else s, ())) fun s state knows => ?_
  have status := knows.seen seen
  have early : (s.early || decide (s.status ≠ .initialized)) = s.early := by simp [status]
  simp only [early]
  split
  case isFalse => exact ⟨v, state, knows, fun w knowsW apart => ⟨apart, knowsW⟩, .refl _, fun _ h => h, fun _ => rfl⟩
  case isTrue yes =>
    obtain ⟨field, info⟩ := knows.copy (by rw [seen]; decide)
    refine ⟨{ v with held := none }, ?_, ?_, fun w knowsW apart => ⟨⟨apart.writes, fun i h => (by cases h), apart.leaving⟩, ?_⟩,
      .refl _, fun _ h => h, fun no => absurd yes no⟩
    · refine { state with admitted := fun a mem => ?_, handle := fun i taken => ?_ }
      · rcases mem_cons.mp (show a ∈ (conf, ctx) :: s.admitted from mem) with rfl | mem
        · exact ⟨status, by rw [← field, ← info] at fits; exact fits⟩
        · exact state.admitted a mem
      · rcases (handle_admitMember conf ctx i).mp taken with held | taken
        · exact ⟨status, (knows.held i held).1⟩
        · exact state.handle i taken
    · refine { knows with
        blank := fun h => ?_
        held := fun i h => (by cases h)
        leaving := fun i h => (handle_admitMember conf ctx i).mpr (.inr (knows.leaving i h)) }
      rw [show v.stage = .writing from h] at seen
      cases seen
    · refine { knowsW with
        held := fun i h => ⟨(knowsW.held i h).1, ?_⟩
        leaving := fun i h => (handle_admitMember conf ctx i).mpr (.inr (knowsW.leaving i h)) }
      by_contra taken
      rcases (handle_admitMember conf ctx i).mp (by simpa using taken) with held | taken
      · exact apart.held i held h
      · rw [(knowsW.held i h).2] at taken
        cases taken

theorem attach_spec (seen : v.stage = .seen) (free : v.held = none)
    (lt : ∀ i, slot = some i → i < L.target.bits) (conf : L.Config) (ctx : Context) (address : Nat) :
    (admission L).Triple op (attach slot conf ctx address) v fun _ _ => True := by
  refine .seq (mismatchAt_spec seen conf ctx address) ?_
  rintro (_ | field) v ⟨rfl, fits⟩
  · refine .seq (claim_spec seen free lt) ?_
    rintro (error | _) v' post
    · trivial
    · obtain rfl : v' = { v with held := slot } := post
      refine .pick fun choice => .seq (consent_spec (by exact seen) rfl (by exact fits rfl)) ?_
      intro _ v' post
      split
      · trivial
      · rename_i no
        obtain rfl := post no
        exact .seq (dropMembership_spec (by exact .inr seen) rfl lt) fun _ _ _ => trivial
  · trivial

theorem loadStatus_spec : (admission L).Triple op loadStatus .outside fun status v' =>
      if status = .initialized then v'.stage = .seen ∧ v'.held = none else v' = .outside := by
  refine look_spec fun s knows => ?_
  by_cases ready : s.status = .initialized
  · refine ⟨⟨.seen, s.field, s.info, none, none⟩, ?_, fun w _ => ?_, fun _ h => h, by rw [if_pos ready]; exact ⟨rfl, rfl⟩⟩
    · exact ⟨nofun, nofun, fun _ => ready, fun _ => ⟨rfl, rfl⟩, nofun, nofun, nofun⟩
    · exact ⟨fun h => (by rcases h with h | h <;> cases h), nofun, nofun⟩
  · exact ⟨.outside, knows, fun _ h => h, fun _ h => h, by rw [if_neg ready]⟩

theorem claimStatus_spec : (admission L).Triple op (Prog.action () fun s =>
      if s.status = .uninitialized then ({ s with status := .initializing }, true) else (s, false)) .outside
      fun won v' => if won then v'.stage = .writing ∧ v'.held = none else v' = .outside := by
  refine action_spec fun s state knows => ?_
  by_cases fresh : s.status = .uninitialized
  · rw [if_pos fresh]
    obtain ⟨inits, members⟩ := state.zero fresh
    obtain ⟨none, unhandled⟩ := state.none_admitted (by rw [fresh]; decide)
    refine ⟨⟨.writing, s.field, s.info, .none, .none⟩, ?_, ?_, fun w knowsW apart => ?_, ?_, fun _ h => h, ⟨rfl, rfl⟩⟩
    · refine { state with zero := nofun, ran := nofun, admitted := ?_, handle := fun i taken => ?_ }
      · simp only [none]
        exact fun a mem => by cases mem
      · have taken : s.handle i = true := taken
        rw [unhandled i] at taken
        cases taken
    · exact ⟨fun _ => ⟨rfl, inits⟩, nofun, nofun, fun _ => ⟨rfl, rfl⟩, fun _ _ => members, nofun, nofun⟩
    · have outside : w.stage = .outside := by
        cases stage : w.stage with
        | outside => rfl
        | writing => have := (knowsW.writing stage).1; rw [fresh] at this; cases this
        | built => have := (knowsW.built stage).1; rw [fresh] at this; cases this
        | seen => have := knowsW.seen stage; rw [fresh] at this; cases this
      refine ⟨⟨fun _ => ?_, nofun, nofun⟩, knows_outside outside knowsW.held knowsW.leaving⟩
      rintro (h | h) <;> rw [outside] at h <;> cases h
    · rw [fresh]
      exact .inr (.inl ⟨rfl, rfl⟩)
  · rw [if_neg fresh]
    exact ⟨.outside, state, knows, fun w knowsW apart => ⟨apart, knowsW⟩, .refl _, fun _ h => h, rfl⟩

theorem admitLoop_spec (lt : ∀ i, slot = some i → i < L.target.bits)
    (some : (L.storage conf).isSome = true) (address rounds : Nat) :
    (admission L).Triple op (admitLoop slot conf ctx address rounds) .outside fun _ _ => True := by
  induction rounds with
  | zero => trivial
  | succ rounds ih =>
    refine .seq loadStatus_spec ?_
    intro status v' post
    cases status with
    | initialized => exact attach_spec post.1 post.2 lt conf ctx address
    | uninitialized =>
      obtain rfl : v' = .outside := post
      simp only
      split
      · trivial
      refine .seq claimStatus_spec ?_
      intro won v' post
      cases won with
      | true => exact initLayout_spec post.1 post.2 lt some
      | false =>
        obtain rfl : v' = .outside := post
        exact ih
    | initializing => trivial
    | corrupted => trivial

theorem leave_spec {slot : Nat} (lt : slot < L.target.bits) :
    (admission L).Triple op (leave slot) { View.outside with leaving := some slot } fun _ _ => True := by
  refine action_spec (f := fun s => ({ s with
    members := s.members &&& ~~~(bit slot)
    handle := Function.update s.handle slot false
    log := .left slot :: s.log }, ())) fun s state knows => ?_
  have handled := knows.leaving slot rfl
  obtain ⟨status, set⟩ := state.handle slot handled
  have keeps : ∀ i, i ≠ slot → s.members.getLsbD i = true → (s.members &&& ~~~(bit slot)).getLsbD i = true := by
    intro i ne set
    rw [get_clear lt, set]
    simp [ne]
  have still : ∀ i, i ≠ slot → Function.update s.handle slot false i = s.handle i := fun i ne => update_of_ne ne ..
  refine ⟨.outside, ?_, ⟨nofun, nofun, nofun, fun h => absurd rfl h, nofun, nofun, nofun⟩, fun w knowsW apart =>
    ⟨⟨fun h => (by rcases h with h | h <;> cases h), nofun, nofun⟩, ?_⟩, .refl _, nofun, trivial⟩
  · refine { state with
      zero := fun h => ?_
      handle := fun i taken => ?_
      count := count_clear lt state.count set (.inr rfl) }
    · rw [show s.status = .uninitialized from h] at status
      cases status
    · by_cases same : i = slot
      · subst same
        simp only [update_self] at taken
        cases taken
      · simp only [still i same] at taken
        exact ⟨status, keeps i same (state.handle i taken).2⟩
  · refine { knowsW with blank := fun writing => ?_, held := fun i h => ?_, leaving := fun i h => ?_ }
    · rw [(knowsW.writing writing).1] at status
      cases status
    · obtain ⟨member, unhandled⟩ := knowsW.held i h
      have ne : i ≠ slot := by
        rintro rfl
        rw [handled] at unhandled
        cases unhandled
      exact ⟨keeps i ne member, (still i ne).trans unhandled⟩
    · have ne : i ≠ slot := by
        rintro rfl
        exact apart.leaving i rfl h
      exact (still i ne).trans (knowsW.leaving i h)

end Steps

/-! ### Runs -/

section Runs

variable (L : Layout)

theorem Knows.start {s : Shared L} : Knows s (View.outside : View L) :=
  ⟨nofun, nofun, nofun, fun h => absurd rfl h, nofun, nofun, nofun⟩

theorem Global.init : Global (Shared.init L) :=
  ⟨fun _ => ⟨rfl, rfl⟩, Nat.zero_le 1, nofun, rfl, fun _ mem => (by cases mem), nofun, fun i => by simp [Shared.init]⟩

variable {L}

theorem Kept.update {s : Shared L} {views : Views (Op L) (View L)} {t : Nat} {th : Option (Op L × View L)} (kept : Kept s views)
    (knows : ∀ op v, th = some (op, v) → Knows s v ∧ ∀ i, v.leaving = some i → op.leaves = some i)
    (apart : ∀ op v, th = some (op, v) → ∀ u op' w, views u = some (op', w) → Apart v w) :
    Kept s (Function.update views t th) := by
  have cases_at : ∀ u op v, Function.update views t th u = some (op, v) →
      (u = t ∧ th = some (op, v)) ∨ views u = some (op, v) := by
    intro u op v hu
    by_cases same : u = t
    · rw [same, update_self] at hu
      exact .inl ⟨same, hu⟩
    · rw [update_of_ne same] at hu
      exact .inr hu
  refine ⟨kept.state, fun u op v hu => ?_, fun u op v hu => ?_, fun u u' op op' v v' ne hu hu' => ?_⟩
  · rcases cases_at u op v hu with ⟨-, new⟩ | old
    · exact (knows op v new).1
    · exact kept.knows u op v old
  · rcases cases_at u op v hu with ⟨-, new⟩ | old
    · exact (knows op v new).2
    · exact kept.own u op v old
  · rcases cases_at u op v hu with ⟨same, new⟩ | old <;> rcases cases_at u' op' v' hu' with ⟨same', new'⟩ | old'
    · exact absurd (same.trans same'.symm) ne
    · exact apart op v new u' op' v' old'
    · exact (apart op' v' new' u op v old).symm
    · exact kept.apart u u' op op' v v' ne old old'

variable (L)

theorem sound : (admission L).Sound (machine L) (.init L) where
  init := ⟨.init L, fun _ _ _ h => (by cases h), fun _ _ _ h => (by cases h), fun _ _ _ _ _ _ _ h => (by cases h)⟩
  spawn := by
    intro s dead views t op ops kept free alive within ready
    cases op with
    | admission p slot conf ctx address rounds =>
      refine ⟨.outside, kept.update (fun op v h => ?_) fun op v h u op' w _ => ?_, ?_⟩
      · cases h
        exact ⟨.start L, nofun⟩
      · cases h
        exact ⟨fun h => (by rcases h with h | h <;> cases h), nofun, nofun⟩
      · have lt : ∀ i, slot = some i → i < L.target.bits := by
          rintro i rfl
          have below : i < L.target.bits - 1 := of_decide_eq_true ready
          omega
        refine .seq (R := fun _ _ => True) ?_ fun _ _ _ => trivial
        unfold admitHeader
        cases storage : L.storage conf with
        | none => trivial
        | some layout => exact admitLoop_spec lt (by rw [storage]; rfl) address rounds
    | leave slot =>
      obtain ⟨handled, alone⟩ : s.handle slot = true ∧ ∀ other ∈ ops, other.leaves ≠ some slot := by
        simpa [machine] using ready
      have lt : slot < L.target.bits := by
        by_contra ge
        have set := (kept.state.handle slot handled).2
        rw [BitVec.getLsbD_of_ge _ _ (by omega)] at set
        cases set
      refine ⟨{ View.outside with leaving := some slot }, kept.update (fun op v h => ?_) fun op v h u op' w hu => ?_,
        leave_spec lt⟩
      · cases h
        refine ⟨⟨nofun, nofun, nofun, fun h => absurd rfl h, nofun, nofun, fun i h => ?_⟩, fun i h => h⟩
        cases h
        exact handled
      · cases h
        refine ⟨fun h => (by rcases h with h | h <;> cases h), nofun, fun i h leaving => ?_⟩
        cases h
        exact alone op' (within u op' w hu) (kept.own u op' w hu _ leaving)
  retire := fun kept _ _ => kept.update (fun _ _ h => (by cases h)) fun _ _ h => (by cases h)
  crash := by
    intro s dead views p kept _
    have old : ∀ t op v, ((views t).filter fun th => (machine L).owner th.1 != p) = some (op, v) → views t = some (op, v) :=
      fun t op v h => (filter_eq_some_iff.mp h).1
    exact ⟨⟨kept.state, fun t op v h => kept.knows t op v (old t op v h), fun t op v h => kept.own t op v (old t op v h),
      fun t t' op op' v v' ne h h' => kept.apart t t' op op' v v' ne (old t op v h) (old t' op' v' h')⟩, .refl _⟩
  rejoin := fun kept _ _ _ => kept
  refl := fun s => .refl s.status

variable {L}

def plainLayout : Layout where
  target := ⟨64, Target.supported_64⟩
  Config := Unit
  Info := Unit
  sameInfo := inferInstance
  storage := fun _ => some (256, 8)
  info := fun _ _ => ()
  fixed := fun _ => 1

def plainContext : Context := ⟨7, 4096, true⟩

end Runs

end Evering.Header
