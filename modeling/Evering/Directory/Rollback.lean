import Evering.Interleave.Shows
import Evering.Directory.Identity

/-!
# Rollbacks that are resumed

`create_in` resumes the rollback of a transaction that its participant has left in phase `ROLLING_BACK`. `resume_rollback`
checks the transaction word, claims the heap, and acts on the pending record without a second check. Beside the shared state
the model numbers the transactions and notes which of them a resumed rollback has undone, and every action of a resumed
rollback that comes when the transaction it has checked is no longer to be rolled back. If no thread makes the check while
another one of its participant has the transaction in hand, there is no such action, and no transaction is undone twice.
-/

namespace Evering.Directory.Rollback

open Interleave List Views Protocol Function
open Identity (View Work Strict Creating)

/-! ### The directory with notes -/

def record (d : Dir) : Nat × Nat × Nat := (d.pending, d.pendingSlab, d.pendingEntry)

structure Log where
  /-- transactions that were claimed or taken over; the last one has this number -/
  turn : Nat
  /-- for every block that a resumed rollback has passed to `deallocate`, the number of its transaction -/
  undone : List Nat
  /-- transactions whose resumed rollback was committed, which is its last step -/
  finished : List Nat
  /-- actions of resumed rollbacks that were not for the transaction they had checked -/
  late : Nat

abbrev BoardProg (β : Type) : Type := Prog (Shared × Log) Site β

namespace Log

/-- A transaction word with a new owner is a new transaction. -/
def see (s s' : Shared) (g : Log) : Log :=
  if s'.dir.transaction.wordOwner = s.dir.transaction.wordOwner ∨ s'.dir.transaction.wordOwner = none then g
  else { g with turn := g.turn + 1 }

/-- The action is late unless the condition holds. -/
def due (g : Log) (current : Prop) [Decidable current] : Log := if current then g else { g with late := g.late + 1 }

end Log

/-- What a resumed rollback has found when it checked the word -/
structure Ticket where
  owner : Nat
  turn : Nat
  record : Nat × Nat × Nat

namespace Ticket

variable (k : Ticket)

/-- The transaction is still the one that was checked, with the same record, and not rolled back. -/
def Current (s : Shared) (g : Log) : Prop :=
  s.dir.transaction = .owned k.owner .rollingBack ∧ g.turn = k.turn ∧ Rollback.record s.dir = k.record

instance (s : Shared) (g : Log) : Decidable (k.Current s g) := inferInstanceAs (Decidable (_ ∧ _ ∧ _))

/-- The block is passed to `deallocate`. -/
def undoing (offset : Nat) (s s' : Shared) (g : Log) : Log :=
  if s'.heap.passes offset = s.heap.passes offset then g.see s s'
  else { (g.due (k.Current s g ∧ offset = k.record.1)).see s s' with undone := k.turn :: g.undone }

/-- An entry is set back. -/
def setting (entry : Nat × Nat) (s s' : Shared) (g : Log) : Log :=
  (g.due (k.Current s g ∧ entry = k.record.2)).see s s'

/-- The transaction word is overwritten. -/
def clearing (s s' : Shared) (g : Log) : Log := (g.due (k.Current s g)).see s s'

/-- The transaction word is set to `CLEAN`. -/
def committing (s s' : Shared) (g : Log) : Log :=
  { (g.due (s.dir.transaction = .owned k.owner .held → g.turn = k.turn)).see s s' with finished := k.turn :: g.finished }

end Ticket

section Programs

variable {β : Type}

def seen (prog : DirProg β) : BoardProg β := prog.observe id fun s s' g => g.see s s'

def takeUp (owner : Nat) : BoardProg (Option Ticket) :=
  .action .resume fun x =>
    if x.1.dir.transaction = .owned owner .rollingBack then
      (({ x.1 with dir := x.1.dir.setHandled true }, x.2), some ⟨owner, x.2.turn, record x.1.dir⟩)
    else (x, none)

/-- `resumeCreate` with its notes -/
def resumeCreate (owner : Nat) (ticket : Ticket) : BoardProg (Except Error Unit) := do
  match ← seen (beginMutation owner true) with
  | .error error =>
    seen (dropTransaction owner .rollingBack)
    return .error (.heap error)
  | .ok () =>
    let pending ← seen (Prog.read .plain (·.dir.pending))
    (deallocateDuring owner pending).observe id (ticket.undoing pending)
    let k ← seen (Prog.read .plain (·.dir.pendingSlab))
    let e ← seen (Prog.read .plain (·.dir.pendingEntry))
    match ← seen (entry k e) with
    | .error error =>
      seen dropMutation
      seen (dropTransaction owner .rollingBack)
      return .error error
    | .ok () =>
      let word ← seen (loadState k e)
      (settleState k e ⟨word.generation - 1, .vacant⟩).observe id (ticket.setting (k, e))
      (clearPending owner).observe id ticket.clearing
      seen commitMutation
      let _ ← (commit owner .held []).observe id ticket.committing
      return .ok ()

def resumeRollback (owner : Nat) : BoardProg (Except Error Unit) := do
  match ← takeUp owner with
  | none => return .error (.busy owner)
  | some ticket =>
    match ← seen loadKindTaken with
    | .grow => seen (resumeGrowth owner)
    | .create => resumeCreate owner ticket
    | .remove => return .error (.busy owner)

def createBusy (owner : Nat) (error : Error) : BoardProg (Except Error Id) := do
  if error = .busy owner then
    if (← seen loadTxn) = .owned owner .rollingBack then
      match ← resumeRollback owner with
      | .error error => return .error error
      | .ok () => return .error .rolledBack
    else return .error error
  else return .error error

variable (S : Setup)

def create (owner heapRegion : Nat) (storage : Option Nat) (layout : Nat) : BoardProg (Except Error Id) := do
  if S.region ≠ heapRegion then return .error .stale
  if storage ≠ some layout then return .error .stale
  match ← seen (claim owner) with
  | .ok () => seen (createHeld S owner)
  | .error error => createBusy owner error

def code : Op → BoardProg Unit
  | .create owner heapRegion storage layout => do let _ ← create S owner heapRegion storage layout
  | op => seen (op.code S)

def machine : Machine (Shared × Log) Site Op where
  owner := Op.owner
  code := code S
  onCrash := fun p x => ((Directory.machine S).onCrash p x.1, x.2)
  ready := fun x dead running op => (Directory.machine S).ready x.1 dead running op
  readmits := fun x running p => (Directory.machine S).readmits x.1 running p

end Programs

/-! ### The notes change nothing -/

section Shows

variable {β : Type}

theorem observe_shows (see : Shared → Shared → Log → Log) (prog : DirProg β) :
    (prog.observe id see).Shows Prod.fst Eq prog := by
  induction prog with
  | done a => exact rfl
  | choose next ih => exact ih
  | atomic site act next ih => exact ⟨rfl, fun x => ⟨rfl, ih x.1⟩⟩

theorem takeUp_shows (owner : Nat) : (takeUp owner).Shows Prod.fst (fun a b => a.isSome = b) (Directory.takeUp owner) := by
  refine ⟨rfl, fun x => ?_⟩
  by_cases left : x.1.dir.transaction = .owned owner .rollingBack
  · simp only [if_pos left]
    exact ⟨trivial, rfl⟩
  · simp only [if_neg left]
    exact ⟨trivial, rfl⟩

theorem resumeCreate_shows (owner : Nat) (ticket : Ticket) :
    (resumeCreate owner ticket).Shows Prod.fst Eq (Directory.resumeCreate owner) := by
  refine .bind (observe_shows _ _) ?_
  rintro (error | ⟨⟩) _ rfl
  · exact .bind (observe_shows _ _) fun _ _ _ => rfl
  refine .bind (observe_shows _ _) ?_
  rintro pending _ rfl
  refine .bind (observe_shows _ _) fun _ _ _ => .bind (observe_shows _ _) ?_
  rintro k _ rfl
  refine .bind (observe_shows _ _) ?_
  rintro e _ rfl
  refine .bind (observe_shows _ _) ?_
  rintro (error | ⟨⟩) _ rfl
  · exact .bind (observe_shows _ _) fun _ _ _ => .bind (observe_shows _ _) fun _ _ _ => rfl
  refine .bind (observe_shows _ _) ?_
  rintro word _ rfl
  exact .bind (observe_shows _ _) fun _ _ _ => .bind (observe_shows _ _) fun _ _ _ =>
    .bind (observe_shows _ _) fun _ _ _ => .bind (observe_shows _ _) fun _ _ _ => rfl

theorem resumeRollback_shows (owner : Nat) : (resumeRollback owner).Shows Prod.fst Eq (Directory.resumeRollback owner) := by
  refine .bind (takeUp_shows owner) ?_
  rintro (_ | ticket) _ rfl
  · exact rfl
  refine .bind (observe_shows _ _) ?_
  rintro kind _ rfl
  cases kind with
  | create => exact resumeCreate_shows owner ticket
  | remove => exact rfl
  | grow => exact observe_shows _ _

theorem create_shows (S : Setup) (owner heapRegion : Nat) (storage : Option Nat) (layout : Nat) :
    (create S owner heapRegion storage layout).Shows Prod.fst Eq (Directory.create S owner heapRegion storage layout) := by
  unfold create Directory.create
  split
  · exact rfl
  split
  · exact rfl
  refine .bind (observe_shows _ _) ?_
  rintro (error | ⟨⟩) _ rfl
  · show (createBusy owner error).Shows Prod.fst Eq (Directory.createBusy owner error)
    unfold createBusy Directory.createBusy
    split
    · refine .bind (observe_shows _ _) ?_
      rintro word _ rfl
      split
      · refine .bind (resumeRollback_shows owner) ?_
        rintro (error | ⟨⟩) _ rfl <;> exact rfl
      · exact rfl
    · exact rfl
  · exact observe_shows _ _

theorem machine_shows (S : Setup) : (machine S).Shows Prod.fst (Directory.machine S) where
  owner := fun _ => rfl
  code := fun op => by
    cases op with
    | create owner heapRegion storage layout => exact .bind (create_shows S owner heapRegion storage layout) fun _ _ _ => rfl
    | remove owner heapRegion id mapped fits inHeap => exact observe_shows _ _
    | recover live heapRegion dead => exact observe_shows _ _
    | finishRecovery live dead => exact observe_shows _ _
    | allocate owner => exact observe_shows _ _
    | releaseValue owner offset => exact observe_shows _ _
    | member owner offset word => exact observe_shows _ _
  crash := fun _ _ => rfl
  ready := fun _ _ _ _ h => h
  readmits := fun _ _ _ h => h

end Shows

/-! ### Who resumes a rollback -/

structure Marks (g : Log) : Prop where
  timely : g.late = 0
  once : g.undone.Nodup
  below : ∀ {c}, c ∈ g.undone → c ≤ g.turn
  finished : ∀ {c}, c ∈ g.finished → c ∈ g.undone

/-- A thread that resumes a rollback has the transaction in hand and knows the notes. -/
abbrev Marked : Type := View × Option Log

structure Inv (S : Setup) (x : Shared × Log) (dead : Nat → Bool) (views : Views Op Marked) : Prop where
  base : Identity.Inv S x.1 dead (Views.left views)
  marks : Marks x.2
  known : ∀ {t op v g}, views t = some (op, v, some g) → x.2 = g ∧ ∃ d, v.mode = .has d
  /-- a transaction that was undone is in the hands of who has undone it, unless this one died -/
  undone : x.2.turn ∈ x.2.undone → ∀ {p}, x.1.dir.transaction.wordOwner = some p → dead p = false →
    ∃ t op v g, views t = some (op, v, some g)

/-- Nobody has the transaction in hand when a thread takes it up. -/
def Unhandled (op : Op) (site : Site) (x : Shared × Log) : Prop := Identity.Unhandled op site x.1

instance (op : Op) (site : Site) (x : Shared × Log) : Decidable (Unhandled op site x) :=
  match site with
  | .resume => inferInstanceAs (Decidable (_ → _))
  | .plain => .isTrue trivial

def protocol (S : Setup) : Protocol (Shared × Log) Site Op Marked where
  inv := Inv S
  idle := fun w => w.1.heap = none ∧ w.2 = none
  cond := Unhandled

abbrev Spec {β : Type} (S : Setup) (op : Op) (prog : BoardProg β) (w : Marked) (Q : β → Marked → Prop) : Prop :=
  (protocol S).Triple op prog w Q

/-- The program ends without the heap, and its thread resumes no rollback. -/
abbrev Frees {β : Type} (S : Setup) (op : Op) (prog : BoardProg β) (w : Marked) : Prop :=
  Spec S op prog w fun _ w' => w'.1.heap = none ∧ w'.2 = none

section Invariant

variable {S : Setup} {β : Type} {x y : Shared × Log} {dead : Nat → Bool} {views : Views Op Marked} {t : Nat} {op : Op}
  {v v' : View} {m m' : Option Log} {d : Dir} {g g' : Log} {s s' : Shared} {prog : DirProg β} {site : Site}

theorem see_same (same : s'.dir.transaction.wordOwner = s.dir.transaction.wordOwner) : g.see s s' = g := if_pos (.inl same)

theorem Marks.see (marks : Marks g) : Marks (g.see s s') := by
  unfold Log.see
  split
  · exact marks
  · exact ⟨marks.timely, marks.once, fun mem => Nat.le_succ_of_le (marks.below mem), marks.finished⟩

theorem Inv.alone (inv : Inv S x dead views) (view : views t = some (op, v, m)) (has : v.mode = .has d) {u : Nat} {op' : Op}
    {w : View} (hu : views u = some (op', w, some g)) : u = t := by
  obtain ⟨-, d', has'⟩ := inv.known hu
  exact inv.base.one (left_some hu) (left_some view) has' has

/-- **Step of one thread.** The directory goes on as it may, and other threads that resume a rollback see the same notes. -/
theorem Inv.put (inv : Inv S x dead views) (base : Identity.Inv S y.1 dead (Function.update (Views.left views) t (some (op, v'))))
    (marks : Marks y.2) (mine : ∀ g, m' = some g → y.2 = g ∧ ∃ d, v'.mode = .has d)
    (others : ∀ {u op' w g}, u ≠ t → views u = some (op', w, some g) → y.2 = x.2)
    (undone : m' = none → y.2.turn ∈ y.2.undone → ∀ {p}, y.1.dir.transaction.wordOwner = some p → dead p = false →
      ∃ u op' w g, u ≠ t ∧ views u = some (op', w, some g)) : Inv S y dead (Function.update views t (some (op, v', m'))) where
  base := by rwa [left_update]
  marks := marks
  known := fun {u op' w g} hu => by
    rcases update_cases hu with ⟨-, -, eq⟩ | ⟨ne, old⟩
    · cases eq
      exact mine g rfl
    · exact ⟨(others ne old).trans (inv.known old).1, (inv.known old).2⟩
  undone := fun mem p owner alive => by
    rcases m' with _ | g
    · obtain ⟨u, op', w, g, ne, hu⟩ := undone rfl mem owner alive
      exact ⟨u, op', w, g, (update_of_ne ne ..).trans hu⟩
    · exact ⟨t, op, v', g, update_self ..⟩

/-- What the directory does is done with the notes as well. -/
theorem lift {Q : β → View → Prop} (h : Identity.Spec S op prog v Q) :
    Spec S op (seen prog) (v, none) fun a w => Q a w.1 ∧ w.2 = none := by
  induction prog generalizing v with
  | done a => exact ⟨h, rfl⟩
  | choose next ih => exact fun n => ih n (h n)
  | atomic site act next ih =>
    intro x dead views t inv view cond
    obtain ⟨v', base, -, rest⟩ := h x.1 dead _ t (Inv.base inv) (left_some view) (.inr cond)
    refine ⟨(v', none), Inv.put inv base (Inv.marks inv).see nofun (fun ne hu => ?_) fun _ mem p owner alive => ?_, trivial,
      ih x.1 rest⟩
    · -- who has the transaction in hand has the same directory before and after the step
      obtain ⟨-, d, has⟩ := Inv.known inv hu
      have before := (((Inv.base inv).view (left_some hu)).has has).1
      have after := ((base.view ((update_of_ne ne ..).trans (left_some hu))).has has).1
      exact see_same (by rw [after, before])
    · change (x.2.see x.1 (act x.1)).turn ∈ (x.2.see x.1 (act x.1)).undone at mem
      by_cases kept : (act x.1).dir.transaction.wordOwner = x.1.dir.transaction.wordOwner ∨
        (act x.1).dir.transaction.wordOwner = none
      · rw [show x.2.see x.1 (act x.1) = x.2 from if_pos kept] at mem
        rcases kept with same | none_
        · obtain ⟨u, op', w, g, hu⟩ := Inv.undone inv mem (same ▸ owner) alive
          refine ⟨u, op', w, g, ?_, hu⟩
          rintro rfl
          cases view.symm.trans hu
        · cases none_.symm.trans owner
      · rw [show x.2.see x.1 (act x.1) = { x.2 with turn := x.2.turn + 1 } from if_neg kept] at mem
        exact absurd ((Inv.marks inv).below mem) (by simp)

/-! ### Steps of a resumed rollback -/

/-- The thread goes on with the notes `g'`, or gives the transaction up, which is over or has not been undone. -/
theorem noted_spec {f : Shared → Shared × β} {Q : β → View → Prop} {note : Shared → Shared → Log → Log} {m : β → Option Log}
    (h : Identity.Spec S op (.action site f) v Q) (has : v.mode = .has d)
    (noted : ∀ s, s.dir = d → note s (f s).1 g = g') (marks : Marks g → Marks g')
    (next : ∀ s a w, s.dir = d → Q a w → (m a = some g' ∧ ∃ d, w.mode = .has d) ∨
      m a = none ∧ (g'.turn ∉ g'.undone ∨ (f s).1.dir.transaction.wordOwner = none)) :
    Spec S op ((Prog.action site f).observe id note) (v, some g) fun a w =>
      Q a w.1 ∧ w.2 = m a ∧ ∀ d', w.1.mode = .has d' → ∃ s, s.dir = d ∧ a = (f s).2 ∧ d' = (f s).1.dir := by
  intro x dead views t inv view cond
  obtain ⟨log, -⟩ := Inv.known inv view
  have dir := (((Inv.base inv).view (left_some view)).has has).1
  obtain ⟨v', base, -, post⟩ := h x.1 dead _ t (Inv.base inv) (left_some view) (.inr cond)
  refine ⟨(v', m (f x.1).2), ?_, trivial, post, rfl, fun d' has' => ⟨x.1, dir, rfl, ?_⟩⟩
  · show Inv S ((f x.1).1, note x.1 (f x.1).1 x.2) dead _
    rw [log, noted x.1 dir]
    refine Inv.put inv base (marks (log ▸ Inv.marks inv)) (fun g₁ eq => ?_)
      (fun ne hu => (ne (Inv.alone inv view has hu)).elim) fun gone mem p owner _ => ?_
    · rcases next x.1 _ v' dir post with ⟨some_, has'⟩ | ⟨none_, -⟩
      · exact ⟨Option.some.inj (some_.symm.trans eq), has'⟩
      · cases none_.symm.trans eq
    · rcases next x.1 _ v' dir post with ⟨some_, -⟩ | ⟨-, fresh | done⟩
      · cases gone.symm.trans some_
      · exact (fresh mem).elim
      · cases done.symm.trans owner
  · exact ((base.view (update_self ..)).has has').1.symm

/-- The thread resumes the rollback of a transaction, and the directory and the notes are these. -/
def Resumes (hp : Option Bool) (d : Dir) (g : Log) (w : Marked) : Prop :=
  w.1.heap = hp ∧ w.1.mode = .has d ∧ w.2 = some g

variable {w : Marked} {hp hp' : Option Bool} {d' : Dir} {N : Dir → Prop}

theorem held_spec {f : Shared → Shared × Unit} {note : Shared → Shared → Log → Log} (at_ : Resumes hp d g w)
    (h : Identity.Spec S op (.action site f) w.1 fun _ => Work hp' N)
    (noted : ∀ s, s.dir = d → note s (f s).1 g = g') (marks : Marks g → Marks g') (now : ∀ s, s.dir = d → (f s).1.dir = d') :
    Spec S op ((Prog.action site f).observe id note) w fun _ => Resumes hp' d' g' := by
  obtain ⟨v, _⟩ := w
  obtain ⟨-, has, rfl⟩ := at_
  refine (noted_spec (m := fun _ => some g') h has noted marks fun s _ w _ here =>
    .inl ⟨rfl, here.2.imp fun _ h => h.1⟩).mono ?_
  rintro _ w ⟨⟨holds, d₁, has₁, -⟩, mark, exact_⟩
  obtain ⟨s, dir, -, rfl⟩ := exact_ d₁ has₁
  exact ⟨holds, by rw [has₁, now s dir], mark⟩

theorem find_spec (reads : Reading prog) (at_ : Resumes hp d g w) : Spec S op (seen prog) w fun a w' =>
    w' = w ∧ a = prog.result { Shared.init with dir := d } := by
  induction reads with
  | done a => exact ⟨rfl, rfl⟩
  | read f _ ih =>
    intro x dead views t inv view _
    have dir := (((Inv.base inv).view (left_some view)).has at_.2.1).1
    refine ⟨w, ?_, trivial, ?_⟩
    · show Inv S (x.1, x.2.see x.1 x.1) dead _
      rw [update_same view, see_same rfl]
      exact inv
    · dsimp only
      rw [dir]
      exact ih (f d)

theorem look_spec {f : Dir → β} (at_ : Resumes hp d g w) : Spec S op (seen (.read .plain fun s => f s.dir)) w
    fun a w' => w' = w ∧ a = f d := find_spec (.load f) at_

theorem due_true {current : Prop} [Decidable current] (h : current) : g.due current = g := if_pos h

theorem observe_bind {γ : Type} (see : Shared → Shared → Log → Log) (prog : DirProg β) (k : β → DirProg γ) :
    (prog.bind k).observe id see = (prog.observe id see).bind fun a => (k a).observe id see := by
  induction prog with
  | done a => rfl
  | choose next ih => exact congrArg Prog.choose (funext ih)
  | atomic site act next ih => exact congrArg (Prog.atomic _ _) (funext fun x => ih x.1)

variable {p : Nat}

/-- The block is passed to `deallocate`, and the transaction counts as undone. -/
theorem undo_spec (at_ : Resumes (some true) d g w) (word : d.transaction = .owned p .rollingBack) (fresh : g.turn ∉ g.undone) :
    Spec S op ((deallocateDuring p d.pending).observe id (Ticket.undoing ⟨p, g.turn, record d⟩ d.pending)) w
      fun _ => Resumes (some true) (d.pass d.pending) { g with undone := g.turn :: g.undone } := by
  unfold deallocateDuring
  rw [Prog.bind_eq, observe_bind]
  refine .seq (R := fun _ => Resumes (some true) (d.pass d.pending) { g with undone := g.turn :: g.undone }) ?_ fun _ w₁ at₁ => ?_
  · refine held_spec at_ (f := fun s =>
      ({ s with heap := (s.heap.enter p).pass d.pending, dir := s.dir.pass d.pending }, ()))
      (Identity.pass_spec (P := fun _ => True) ⟨at_.1, d, at_.2.1, trivial⟩ fun _ _ h => h) (fun s dir => ?_) (fun marks => ?_)
      fun s dir => by rw [dir]
    · subst dir
      unfold Ticket.undoing
      rw [if_neg (by simp [Heap.pass, Heap.enter]), due_true ⟨⟨word, rfl, rfl⟩, rfl⟩]
      exact congrArg (fun g' : Log => { g' with undone := g.turn :: g.undone }) (see_same rfl)
    · refine ⟨marks.timely, nodup_cons.mpr ⟨fresh, marks.once⟩, fun {c} mem => ?_,
        fun mem => mem_cons_of_mem _ (marks.finished mem)⟩
      rcases mem_cons.mp mem with rfl | old
      · exact Nat.le_refl _
      · exact marks.below old
  · exact held_spec at₁ (f := fun s => ({ s with heap := (s.heap.leave p).setBlock d.pending .free }, ()))
      (Identity.stays (by exact .write fun _ => rfl) (P := Work (some true) fun _ => True) ⟨at₁.1, _, at₁.2.1, trivial⟩)
      (fun s dir => (if_pos rfl).trans (see_same rfl)) id fun s dir => dir

/-- The rest of the rollback, after the block was passed to `deallocate`; `g` counts it as undone. -/
theorem rest_spec (mine : p = op.owner) (at_ : Resumes (some true) d g w) (owner : d.transaction = .owned p .rollingBack)
    (strict : Strict d) (undone : g.turn ∈ g.undone) : Spec S op
      (((settleState d.pendingSlab d.pendingEntry ⟨(d.entry d.pendingSlab d.pendingEntry).word.generation - 1,
        .vacant⟩).observe id
        (Ticket.setting ⟨p, g.turn, record d⟩ (d.pendingSlab, d.pendingEntry))).bind fun _ =>
      ((clearPending p).observe id (Ticket.clearing ⟨p, g.turn, record d⟩)).bind fun _ => (seen commitMutation).bind fun _ =>
      ((commit p .held []).observe id (Ticket.committing ⟨p, g.turn, record d⟩)).bind fun _ => .done (.ok () : Except Error Unit))
      w fun _ w' => w'.1.heap = none ∧ w'.2 = none := by
  have word : d.transaction.wordOwner = some p := by
    rw [owner]
    rfl
  refine .seq (held_spec at_ (f := fun s => ({ s with dir := _ }, ()))
    (Identity.setBack_spec ⟨at_.1, d, at_.2.1, ⟨⟨strict, rfl⟩, rfl⟩, rfl⟩) (fun s dir => ?_) id fun s dir => by rw [dir])
      fun _ w₁ at₁ => ?_
  · subst dir
    exact (congrArg (fun g' : Log => g'.see _ _) (due_true ⟨⟨owner, rfl, rfl⟩, rfl⟩)).trans (see_same rfl)
  refine .seq (held_spec at₁ (f := fun s => ({ s with dir := s.dir.setTransaction (.owned p .held) }, ()))
    (Identity.clearPending_spec (P := fun _ => True) mine ⟨at₁.1, _, at₁.2.1, trivial⟩ (N := Identity.Held p)
      fun _ _ => rfl) (fun s dir => ?_) id fun s dir => by rw [dir]) fun _ w₂ at₂ => ?_
  · refine (congrArg (fun g' : Log => g'.see _ _) (due_true ⟨by rw [dir]; exact owner, rfl, by rw [dir]; rfl⟩)).trans
      (see_same ?_)
    rw [dir]
    exact word.symm
  refine .seq (held_spec at₂ (f := fun s => ({ s with heap := s.heap.setMutation .clean false }, ()))
    (Identity.settle_spec (P := Identity.Held p) ⟨at₂.1, _, at₂.2.1, rfl⟩ fun d held is =>
      (Identity.not_creating_held held is).elim) (fun s dir => see_same rfl) id fun s dir => dir) fun _ w₃ at₃ => ?_
  obtain ⟨v, _⟩ := w₃
  obtain ⟨free, has, rfl⟩ := at₃
  have finish (marks : Marks g) : Marks { g with finished := g.turn :: g.finished } := by
    refine ⟨marks.timely, marks.once, marks.below, fun mem => ?_⟩
    rcases mem_cons.mp mem with rfl | old
    · exact undone
    · exact marks.finished old
  refine .seq (noted_spec (m := fun _ => none) (Identity.commit_spec (P := fun _ => True) ⟨free, _, has, trivial⟩) has
    (fun s dir => ?_) finish fun s _ w dir _ => .inr ⟨rfl, .inr ?_⟩) fun _ w done => ⟨done.1, done.2.1⟩
  · have held : s.dir.transaction = .owned p .held := by
      rw [dir]
      rfl
    simp only [if_pos held]
    unfold Ticket.committing
    rw [due_true fun _ => rfl]
    exact congrArg (fun g' : Log => { g' with finished := g.turn :: g.finished }) (if_pos (Or.inr rfl))
  · have held : s.dir.transaction = .owned p .held := by
      rw [dir]
      rfl
    simp only [if_pos held]
    rfl

theorem claimed_has {P : Dir → Prop} {r : Except HeapError Unit} (h : Identity.Claimed P r v) : ∃ d, v.mode = .has d := by
  cases r <;> exact h.2.imp fun _ h => h.1

theorem resumeCreate_spec (mine : p = op.owner) (at_ : Resumes none d g w) (word : d.transaction = .owned p .rollingBack)
    (kind : d.pendingKind = .create) (fresh : g.turn ∉ g.undone) : Frees S op (resumeCreate p ⟨p, g.turn, record d⟩) w := by
  obtain ⟨v, _⟩ := w
  obtain ⟨free, has, rfl⟩ := at_
  refine .seq (noted_spec (m := fun _ => some g) (Identity.beginHeld_spec (P := fun d' => d' = d) ⟨free, d, has, rfl⟩ mine) has
    (fun s dir => see_same ?_) id fun s _ w _ claimed => .inl ⟨rfl, claimed_has claimed⟩) ?_
  · cases s.heap.mutation <;> rfl
  rintro (error | ⟨⟩) ⟨v₁, _⟩ ⟨claimed, rfl, -⟩
  · obtain ⟨free₁, _, has₁, rfl⟩ := claimed
    refine .seq (noted_spec (f := fun s => ({ s with dir := _ }, ())) (m := fun _ => none)
      (Identity.dropTransaction_spec (P := fun _ => True) mine ⟨free₁, _, has₁, trivial⟩) has₁ (fun s _ => see_same ?_) id
        fun s _ w _ _ => .inr ⟨rfl, .inl fresh⟩) fun _ w left => ⟨left.1, left.2.1⟩
    dsimp only
    rw [if_neg (by simp)]
    rfl
  obtain ⟨holds, _, has₁, rfl, strict⟩ := claimed
  have strict := strict ⟨⟨p, .rollingBack, word, by simp⟩, kind⟩
  have at_ : Resumes (some true) _ g (v₁, some g) := ⟨holds, has₁, rfl⟩
  refine .seq (look_spec (f := Dir.pending) at_) ?_
  rintro _ _ ⟨rfl, rfl⟩
  refine .seq (undo_spec at_ word fresh) fun _ w₂ at₂ => ?_
  refine .seq (look_spec (f := Dir.pendingSlab) at₂) ?_
  rintro _ _ ⟨rfl, rfl⟩
  refine .seq (look_spec (f := Dir.pendingEntry) at₂) ?_
  rintro _ _ ⟨rfl, rfl⟩
  refine .seq (find_spec (entry_reads _ _) at₂) ?_
  rintro (error | ⟨⟩) _ ⟨rfl, found⟩
  · cases found.trans (entry_result.mpr strict.2)
  refine .seq (look_spec (f := fun d => (d.entry _ _).word) at₂) ?_
  rintro _ _ ⟨rfl, rfl⟩
  have rest := rest_spec (S := S) mine at₂ word strict mem_cons_self
  exact rest

section Takeover

variable (mine : p = op.owner) (directory : op.isDirectory = true) (free : v.heap = none) (mode : v.mode = .free)

include mine directory free mode

theorem takeUp_spec : Spec S op (takeUp p) (v, none) fun r w => match r with
      | none => w = (v, none)
      | some ticket => ∃ d g, Resumes none d g w ∧ d.transaction = .owned p .rollingBack ∧ g.turn ∉ g.undone ∧
          ticket = ⟨p, g.turn, record d⟩ := by
  intro x dead views t inv view cond
  obtain ⟨v', base, -, taken⟩ := Identity.takeUp_spec mine directory free mode x.1 dead _ t (Inv.base inv)
    (left_some view) (.inr cond)
  by_cases left : x.1.dir.transaction = .owned p .rollingBack
  · simp only [if_pos left] at base taken ⊢
    obtain ⟨free', d, has, rolling⟩ := taken
    -- who has undone the transaction would have it in hand
    have fresh : x.2.turn ∉ x.2.undone := by
      intro mem
      have owner : x.1.dir.transaction.wordOwner = some op.owner := by
        rw [left, ← mine]
        rfl
      obtain ⟨u, op', w, g, hu⟩ := Inv.undone inv mem owner ((Inv.base inv).alive (left_some view))
      obtain ⟨-, d', has'⟩ := Inv.known inv hu
      obtain ⟨dir, hand, -⟩ := ((Inv.base inv).view (left_some hu)).has has'
      have unhandled : x.1.dir.trail.handled = false := cond (mine ▸ left)
      rw [dir, hand.2] at unhandled
      cases unhandled
    have dir := ((base.view (update_self ..)).has has).1
    refine ⟨(v', some x.2), Inv.put inv base (Inv.marks (x := x) inv) (fun g eq => ?_) (fun _ _ => rfl) nofun, trivial, d, x.2,
      ⟨free', has, rfl⟩, rolling, fresh, ?_⟩
    · cases eq
      exact ⟨rfl, d, has⟩
    · rw [← dir]
      rfl
  · simp only [if_neg left]
    refine ⟨(v, none), ?_, trivial, rfl⟩
    rwa [update_same view]

theorem resumeRollback_spec : Frees S op (resumeRollback p) (v, none) := by
  refine .seq (takeUp_spec mine directory free mode) ?_
  rintro (_ | ticket) w taken
  · subst taken
    exact ⟨free, rfl⟩
  obtain ⟨d, g, at_, rolling, fresh, rfl⟩ := taken
  obtain ⟨v₁, _⟩ := w
  obtain ⟨free₁, has, rfl⟩ := at_
  refine .seq (noted_spec (m := fun kind => if kind = .create then some g else none)
    (Identity.loadKindTaken_spec (P := fun d' => d' = d) ⟨free₁, d, has, rfl⟩) has (fun s _ => see_same ?_) id ?_) ?_
  · split <;> rfl
  · rintro s (_ | _ | _) w dir ⟨-, here⟩
    · exact .inl ⟨rfl, (here nofun).2.imp fun _ h => h.1⟩
    · exact .inr ⟨rfl, .inl fresh⟩
    · exact .inr ⟨rfl, .inl fresh⟩
  rintro (_ | _ | _) ⟨v₂, _⟩ ⟨⟨free₂, here⟩, mark, -⟩ <;> cases mark
  · obtain ⟨-, _, has₂, rfl, kind⟩ := here nofun
    exact resumeCreate_spec mine ⟨free₂, has₂, rfl⟩ rolling kind fresh
  · exact ⟨free₂, rfl⟩
  · exact lift (Identity.resumeGrowth_spec mine directory ((here nofun).mono fun _ h => h.2))

theorem createBusy_spec {error : Error} : Frees S op (createBusy p error) (v, none) := by
  unfold createBusy
  split
  swap
  · exact ⟨free, rfl⟩
  refine .seq (lift (Identity.keeps_spec .read)) ?_
  rintro txn ⟨_, _⟩ ⟨rfl, rfl⟩
  split
  · refine .seq (resumeRollback_spec mine directory free mode) ?_
    rintro (error | ⟨⟩) w left <;> exact left
  · exact ⟨free, rfl⟩

theorem create_spec {heapRegion layout : Nat} {storage : Option Nat} :
    Frees S op (create S p heapRegion storage layout) (v, none) := by
  unfold create
  split
  · exact ⟨free, rfl⟩
  split
  · exact ⟨free, rfl⟩
  refine .seq (lift (Identity.claim_spec mine free directory)) ?_
  rintro (error | ⟨⟩) ⟨_, _⟩ ⟨began, rfl⟩
  · subst began
    exact createBusy_spec mine directory free mode
  · exact lift (Identity.createHeld_spec mine began)

end Takeover

theorem code_spec (S : Setup) (op : Op) : Frees S op (code S op) (.fresh, none) := by
  cases op with
  | create owner heapRegion storage layout => exact .seq (create_spec rfl rfl rfl rfl) fun _ _ left => left
  | _ => exact lift (Identity.code_spec S _)

/-! ### Runs -/

theorem Inv.spawn (inv : Inv S x dead views) (unused : views t = none)
    (base : Identity.Inv S x.1 dead (Function.update (Views.left views) t (some (op, .fresh)))) :
    Inv S x dead (Function.update views t (some (op, .fresh, none))) := by
  refine inv.put base inv.marks nofun (fun _ _ => rfl) fun _ mem p owner alive => ?_
  obtain ⟨u, op', w, g, hu⟩ := inv.undone mem owner alive
  refine ⟨u, op', w, g, ?_, hu⟩
  rintro rfl
  cases unused.symm.trans hu

theorem Inv.retire (inv : Inv S x dead views) (ht : views t = some (op, v, none)) (free : v.heap = none) :
    Inv S x dead (Function.update views t none) := by
  refine ⟨?_, inv.marks, fun hu => inv.known (retire_some hu).2, fun mem p owner alive => ?_⟩
  · rw [left_retire]
    exact inv.base.retire (left_some ht) free
  · obtain ⟨u, op', w, g, hu⟩ := inv.undone mem owner alive
    refine ⟨u, op', w, g, (update_of_ne ?_ ..).trans hu⟩
    rintro rfl
    cases ht.symm.trans hu

theorem left_crash (p : Nat) : Views.left (fun t => (views t).filter fun th => th.1.owner != p) =
    fun t => (Views.left views t).filter fun th => th.1.owner != p := by
  funext t
  simp only [Views.left, Option.filter_map]
  rfl

theorem Inv.crash (inv : Inv S x dead views) (p : Nat) :
    Inv S ((Directory.machine S).onCrash p x.1, x.2) (Function.update dead p true)
      (fun t => (views t).filter fun th => th.1.owner != p) := by
  refine ⟨?_, inv.marks, fun hu => inv.known (crash_some hu).1, fun mem q owner alive => ?_⟩
  · rw [left_crash]
    exact inv.base.crash p
  · have owner : x.1.dir.transaction.wordOwner = some q := by
      rwa [← Dir.crash_transaction x.1.dir p]
    have other : q ≠ p := by
      rintro rfl
      rw [update_self] at alive
      cases alive
    rw [update_of_ne other] at alive
    obtain ⟨u, op, w, g, hu⟩ := inv.undone mem owner alive
    obtain ⟨-, d, has⟩ := inv.known hu
    obtain ⟨dir, hand, -⟩ := (inv.base.view (left_some hu)).has has
    rw [dir, hand.1] at owner
    cases owner
    exact ⟨u, op, w, g, Option.filter_eq_some_iff.mpr ⟨hu, by simpa using other⟩⟩

theorem within_left {ops : List Op} (within : views.Within ops) : (Views.left views).Within ops := by
  intro t op v hv
  obtain ⟨⟨op', w, m⟩, hu, eq⟩ := Option.map_eq_some_iff.mp hv
  cases eq
  exact within t op' (w, m) hu

theorem sound (S : Setup) (settled : S.settled = true) :
    (protocol S).Sound (machine S) (Shared.init, ⟨0, [], [], 0⟩) where
  init := ⟨.start, ⟨rfl, .nil, nofun, nofun⟩, nofun, fun _ _ => nofun⟩
  spawn := fun {_ _ views t op _} inv unused alive within ready => by
    have unused' : Views.left views t = none := by simp only [Views.left, unused, Option.map_none]
    exact ⟨(.fresh, none), Inv.spawn inv unused ((Inv.base inv).ready unused' alive (within_left within) ready), code_spec S op⟩
  retire := fun {_ _ _ _ _ w} inv ht idle => by
    obtain ⟨v, _⟩ := w
    obtain ⟨free, rfl⟩ := idle
    exact Inv.retire inv ht free
  crash := fun inv _ => ⟨Inv.crash inv _, trivial⟩
  rejoin := fun {x dead _ p _} inv _ within readmits => by
    refine ⟨(Inv.base inv).rejoin settled (within_left within) readmits, Inv.marks inv, Inv.known inv,
      fun mem q owner alive => ?_⟩
    have unowned : x.1.dir.transaction.wordOwner ≠ some p := by
      simp only [machine, Directory.machine, Bool.and_eq_true, decide_eq_true_eq] at readmits
      exact readmits.1.1
    rw [update_of_ne (show q ≠ p from fun h => unowned (h ▸ owner))] at alive
    exact Inv.undone inv mem owner alive
  refl := fun _ => trivial

/-- **A rollback is resumed once.** In every run in which no thread takes up a rollback that another one has in hand and a
slot is joined again only after its recoveries, with crashes at any step: a resumed rollback acts only while the transaction
it has checked is to be rolled back, with the same record; no transaction is undone twice, and one whose resumed rollback has
returned was undone once. The directory does in such a run what it does in a run without notes. -/
theorem rollback_once (S : Setup) (settled : S.settled = true) {c : Config (Shared × Log) Site Op}
    (run : (machine S).Run (Allowed Unhandled fun _ _ => True) (.start (Shared.init, ⟨0, [], [], 0⟩)) c) :
    c.shared.2.late = 0 ∧ c.shared.2.undone.Nodup ∧ (∀ turn ∈ c.shared.2.finished, c.shared.2.undone.count turn = 1) ∧
      ∃ d, (Directory.machine S).Reaches (.start Shared.init) d ∧ d.shared = c.shared.1 := by
  obtain ⟨views, inv, -⟩ := (sound S settled).run (sound S settled).start run
  obtain ⟨d, reached, same⟩ := (Config.Shows.start (Shared.init, (⟨0, [], [], 0⟩ : Log))).run (machine_shows S) run
  refine ⟨inv.marks.timely, inv.marks.once, fun turn mem => ?_, d, reached, same.shared⟩
  rw [inv.marks.once.count, if_pos (inv.marks.finished mem)]

end Invariant

/-! ### A creation that was left -/

def manyThreads : Setup where
  target := ⟨64, Target.supported_64⟩
  region := 1
  debug := true
  single := false
  settled := true

/-- Participant 0 creates a layout in block 64 that is not admitted while participant 1 has the heap. -/
def leftBehind : List (Step Op) :=
  .spawn (.create 0 1 (some 8) 8) :: List.replicate 5 (.run 0 0) ++ .run 0 64 :: List.replicate 9 (.run 0 0) ++
    [.spawn (.allocate 1), .run 1 0, .run 0 1, .run 0 0, .run 0 0] ++ List.replicate 4 (.run 1 0)

/-- Another thread comes when the rollback is done but not committed, and a third one later. -/
theorem rollback_once_left :
    ∃ c, (machine manyThreads).Run (Allowed Unhandled fun _ _ => True) (.start (Shared.init, ⟨0, [], [], 0⟩)) c ∧
      c.shared.2.finished = [1] ∧ c.shared.2.undone.count 1 = 1 ∧ c.shared.1.dir.transaction = .owned 0 .held ∧
      c.shared.2.late = 0 := by
  have steps : ((machine manyThreads).execIf (Allowed Unhandled fun _ _ => True) (.start (Shared.init, ⟨0, [], [], 0⟩))
      (leftBehind ++ .spawn (.create 0 1 (some 8) 8) :: List.replicate 13 (.run 2 0) ++
        [.spawn (.create 0 1 (some 8) 8), .run 3 0, .run 3 0, .run 2 0, .run 2 0, .spawn (.create 0 1 (some 8) 8), .run 4 0])).map
      (fun c => (c.shared.2.finished, c.shared.1.dir.transaction)) = some ([1], .owned 0 .held) := by decide +kernel
  obtain ⟨c, run, same⟩ := Machine.exists_run steps
  rw [Prod.mk.injEq] at same
  have ⟨timely, _, once, _⟩ := rollback_once manyThreads rfl run
  exact ⟨c, run, same.1, once 1 (by rw [same.1]; exact mem_singleton_self 1), same.2, timely⟩

/-- Two threads of participant 0 pass the check. One of them rolls back, and participant 1 begins a creation, for which the
heap gives the same block. The other one then deallocates that block, sets its entry back and overwrites the transaction
word of participant 1. -/
theorem rollback_twice :
    ∃ c c', (machine manyThreads).Reaches (.start (Shared.init, ⟨0, [], [], 0⟩)) c ∧ c.shared.2.undone = [1] ∧
      c.shared.1.dir.transaction = .owned 1 .evidence ∧ c.shared.1.heap.block 64 = .live .directory ∧
      (machine manyThreads).Reaches c c' ∧ c'.shared.2.undone = [1, 1] ∧ c'.shared.2.late = 3 ∧
      c'.shared.1.dir.transaction = .owned 0 .held ∧ c'.shared.1.heap.block 64 = .free := by
  have steps : (((machine manyThreads).execAll (.start (Shared.init, ⟨0, [], [], 0⟩))
      (leftBehind ++ .spawn (.create 0 1 (some 8) 8) :: List.replicate 4 (.run 2 0) ++
        .spawn (.create 0 1 (some 8) 8) :: List.replicate 4 (.run 3 0) ++ List.replicate 11 (.run 2 0) ++
        .spawn (.create 1 1 (some 8) 8) :: List.replicate 5 (.run 4 0) ++ .run 4 64 :: List.replicate 9 (.run 4 0))).bind fun c =>
      ((machine manyThreads).execAll c (List.replicate 9 (.run 3 0))).map fun c' => (c, c')).map (fun (c, c') =>
        ((c.shared.2.undone, c.shared.1.dir.transaction, c.shared.1.heap.block 64),
          (c'.shared.2.undone, c'.shared.2.late, c'.shared.1.dir.transaction, c'.shared.1.heap.block 64))) =
      some (([1], .owned 1 .evidence, .live .directory), ([1, 1], 3, .owned 0 .held, .free)) := by decide +kernel
  obtain ⟨c₁, c₂, first, second, same⟩ := exists_stages steps
  simp only [Prod.mk.injEq] at same
  exact ⟨c₁, c₂, Machine.reaches_of_execAll first, same.1.1, same.1.2.1, same.1.2.2, Machine.reaches_of_execAll second, same.2⟩

end Evering.Directory.Rollback
