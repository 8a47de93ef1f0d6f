import Evering.Directory.Generations

/-!
# Generations in creations and removals

The parts of `create_in`, `grow` and `remove_in`, and the operations that are made of them: stores to an entry, the record of
the transaction, the claim of the heap, `commit` and `drop`. A creation publishes its entry under a generation in which
nothing was issued; a removal leaves the generation as it is.
-/

namespace Evering.Directory.Identity

open Interleave

section Operations

variable {S : Setup} {β : Type} {s s' : Shared} {dead : Nat → Bool} {views : Views Op View} {t : Nat} {op : Op} {v v' : View}
  {d d' : Dir} {hp : Option Bool} {P N : Dir → Prop}

/-! ### Parts of the operations -/

/-- A thread with the transaction claims the heap for it. -/
def Claimed (P : Dir → Prop) : Except HeapError Unit → View → Prop
  | .ok _, v => Work (some true) (fun d => P d ∧ (Creating d → Strict d)) v
  | .error _, v => Work none P v

variable {p owner k e pointer g : Nat} {b : Bool} {w : EntryWord} {f : Dir → Dir} {phase : Phase} {state state' : EntryState}
  {id : Id}

theorem beginHeld_spec (here : Work none P v) (mine : p = op.owner) : Spec S op (beginMutation p true) v (Claimed P) := by
  obtain ⟨free, d, has, fact⟩ := here
  refine (begin_spec (fun _ => ⟨d, has⟩) mine).mono ?_
  rintro (error | ⟨⟩) w begun
  · exact begun ▸ ⟨free, d, has, fact⟩
  · obtain ⟨rfl, strict⟩ := begun
    exact ⟨rfl, d, has, fact, strict d has⟩

theorem settle_spec (here : Work (some b) P v) (strict : ∀ d, P d → Creating d → Strict d) :
    Spec S op commitMutation v fun _ => Work none P := by
  obtain ⟨holds, d, has, fact⟩ := here
  refine (commitMutation_spec holds fun d' has' => ?_).mono fun _ w same => same ▸ ⟨rfl, d, has, fact⟩
  rw [has] at has'
  cases has'
  exact strict d fact

theorem poison_spec (here : Work (some b) P v) : Spec S op dropMutation v fun _ => Work none P := by
  obtain ⟨holds, d, has, fact⟩ := here
  exact (dropMutation_spec holds).mono fun _ w same => same ▸ ⟨rfl, d, has, fact⟩

theorem pass_spec {offset : Nat} (here : Work hp P v) (stable : ∀ d a, P d → P (d.setAccount a)) :
    Spec S op (.write .plain fun s => { s with heap := (s.heap.enter owner).pass offset, dir := s.dir.pass offset }) v
      fun _ => Work hp P := by
  refine work_spec (f := fun s => ({ s with heap := (s.heap.enter owner).pass offset, dir := s.dir.pass offset }, ())) here
    fun s d fact dir books owned => ?_
  subst dir
  exact ⟨rfl, rfl, books.same rfl, .same rfl, fun is => .inr (.inr ⟨is, id⟩),
    .inl ⟨owned, fun w holds has => ⟨holds, _, has, stable _ _ fact⟩⟩⟩

theorem deallocateDuring_spec {offset : Nat} (here : Work hp P v) (stable : ∀ d a, P d → P (d.setAccount a)) :
    Spec S op (deallocateDuring owner offset) v fun _ => Work hp P :=
  .seq (pass_spec here stable) fun _ w here => stays (by exact .write fun _ => rfl) here

theorem allocateDuring_spec (here : Work hp P v) (stable : ∀ d a, P d → P (d.setAccount a)) :
    Spec S op (allocateDuring owner) v fun r v' => Work hp P v' ∧ ∀ pointer, r = .ok pointer → pointer ≠ 0 := by
  refine .seq (keeps_spec (.write fun _ => rfl)) ?_
  rintro _ _ rfl offset
  refine work_spec here fun s d fact dir books owned => ?_
  subst dir
  by_cases granted : offset ≠ 0 ∧ s.heap.block offset = .free
  · simp only [if_pos granted]
    exact ⟨rfl, rfl, books.same rfl, .same rfl, fun is => .inr (.inr ⟨is, id⟩),
      .inl ⟨owned, fun w holds has => ⟨⟨holds, _, has, stable _ _ fact⟩, fun _ eq => Except.ok.inj eq ▸ granted.1⟩⟩⟩
  · simp only [if_neg granted]
    exact ⟨rfl, rfl, books, .refl _, fun is => .inr (.inr ⟨is, id⟩),
      .inl ⟨owned, fun w holds has => ⟨⟨holds, _, has, fact⟩, nofun⟩⟩⟩

theorem offsetOf_spec (pointer : Nat) :
    Spec S op (offsetOf pointer) v fun r v' => v' = v ∧ ∀ offset, r = .ok offset → offset = pointer := by
  intro fault
  refine ⟨rfl, fun offset eq => ?_⟩
  split at eq
  · exact (Except.ok.inj eq).symm
  · cases eq

/-- The store `f` gives the entry the word `w` and leaves the other words and the record alone. -/
structure Stores (f : Dir → Dir) (k e : Nat) (w : EntryWord) : Prop where
  words : ∀ d k' e', ((f d).entry k' e').word = if k' = k ∧ e' = e then w else (d.entry k' e').word
  issued : ∀ d, (f d).trail.issued = d.trail.issued
  transaction : ∀ d, (f d).transaction = d.transaction
  handled : ∀ d, (f d).trail.handled = d.trail.handled
  slab : ∀ d, (f d).pendingSlab = d.pendingSlab
  entry : ∀ d, (f d).pendingEntry = d.pendingEntry
  kind : ∀ d, (f d).pendingKind = d.pendingKind
  next : ∀ d, (f d).next = d.next

theorem stores_state : Stores (fun d => d.setWord k e w) k e w :=
  ⟨fun d => entry_setWord d k e w, fun _ => rfl, fun _ => rfl, fun _ => rfl, fun _ => rfl, fun _ => rfl, fun _ => rfl,
    fun _ => rfl⟩

theorem stores_home {a : Account → Account} :
    Stores (fun d => ((d.setWord k e w).setHome k e).setAccount (a d.trail.account)) k e w :=
  ⟨fun d => entry_setWord d k e w, fun _ => rfl, fun _ => rfl, fun _ => rfl, fun _ => rfl, fun _ => rfl, fun _ => rfl,
    fun _ => rfl⟩

theorem stores_settle : Stores (fun d => (d.setWord k e w).setAccount .settled) k e w :=
  ⟨fun d => entry_setWord d k e w, fun _ => rfl, fun _ => rfl, fun _ => rfl, fun _ => rfl, fun _ => rfl, fun _ => rfl,
    fun _ => rfl⟩

/-- What the books allow an entry to become -/
structure Fits (S : Setup) (d : Dir) (k e : Nat) (w : EntryWord) : Prop where
  reached : Under d k e (w.generation + 1)
  pending : w.state = .pending → Under d k e w.generation
  bounded : w.generation ≤ generationMax S.target
  opens : w.state = .published ∨ w.state = .closing → Under d k e w.generation ∨
    (d.entry k e).word.generation = w.generation ∧ ((d.entry k e).word.state = .published ∨ (d.entry k e).word.state = .closing)

theorem store_spec (stores : Stores f k e w) (here : Work hp P v) (fits : ∀ d, P d → Books S d → Fits S d k e w)
    (creating : hp = some true ∨ ∀ d, P d → (d.entry k e).word.generation = w.generation ∨ ¬Creating d)
    (post : ∀ d d', P d → Books S d → d'.transaction = d.transaction → d'.pendingKind = d.pendingKind →
      (d'.entry k e).word = w → d'.trail.issued = d.trail.issued ∧ d'.next = d.next → N d') :
    Spec S op (update f) v fun _ => Work hp N := by
  refine update_spec here fun d fact books owned => ?_
  have fit := fits d fact books
  refine ⟨⟨(congrArg Txn.wordOwner (stores.transaction d)).trans owned.1, (stores.handled d).trans owned.2⟩,
    books.setWord (stores.words d) (stores.issued d) (stores.next d) fit.reached fit.pending fit.bounded,
    .setWord (stores.words d) (stores.issued d) fit.opens, fun is => ?_,
    post d (f d) fact books (stores.transaction d) (stores.kind d) ((stores.words d k e).trans (if_pos ⟨rfl, rfl⟩))
      ⟨stores.issued d, stores.next d⟩⟩
  have was : Creating d := by
    unfold Creating at is ⊢
    rwa [stores.transaction, stores.kind] at is
  rcases creating with claimed | calm
  · exact .inr (.inl claimed)
  rcases calm d fact with same | other
  · refine .inr (.inr ⟨was, fun strict => ?_⟩)
    unfold Strict Dir.Linked at strict ⊢
    rw [stores.slab, stores.entry, stores.words, stores.next]
    refine ⟨?_, strict.2⟩
    split
    · next here =>
      rw [← same, ← here.1, ← here.2]
      exact strict.1.same (stores.issued d)
    · exact strict.1.same (stores.issued d)
  · exact (other was).elim

theorem clearPending_spec (mine : p = op.owner) (here : Work hp P v)
    (post : ∀ d, P d → N (d.setTransaction (.owned p .held))) : Spec S op (clearPending p) v fun _ => Work hp N :=
  update_spec here fun d fact books owned => ⟨⟨congrArg some mine, owned.2⟩, books.same rfl, .same rfl,
    fun is => (not_creating_held rfl is).elim, post d fact⟩

theorem persist_spec {kind : Kind} (mine : p = op.owner) {F : Dir → Prop}
    (here : Work hp (fun d => Held p d ∧ F d) v)
    (stable : ∀ d a b c q x, F d →
      F { d with pendingSlab := a, pendingEntry := b, pendingKind := c, pending := q, transaction := x })
    (strict : kind = .create → ∀ d, F d → Under d k e (d.entry k e).word.generation ∧ d.Linked k ∧ e < capacity) :
    Spec S op (persist p k e pointer kind) v fun _ => Work hp fun d =>
      d.transaction = .owned p .evidence ∧ d.pendingKind = kind ∧ (Creating d → Strict d) ∧ F d := by
  -- the word does not show the record before the last store
  have step {G H : Dir → Prop} {f : Dir → Dir} {w : View} (at_ : Work hp (fun d => Held p d ∧ G d) w)
      (same : ∀ d, core (f d) = core d) (held : ∀ d, (f d).transaction = d.transaction ∧ (f d).trail.handled = d.trail.handled)
      (next : ∀ d, G d → H (f d)) :
      Spec S op (update f) w fun _ => Work hp fun d => Held p d ∧ H d := by
    refine update_spec at_ fun d fact books owned => ⟨⟨(congrArg Txn.wordOwner (held d).1).trans owned.1,
      (held d).2.trans owned.2⟩, books.same (same d), .same (same d), fun is => ?_, (held d).1.trans fact.1, next d fact.2⟩
    exact (not_creating_held ((held d).1.trans fact.1) is).elim
  refine .seq (step (H := fun d => F d ∧ d.pendingSlab = k) here (fun _ => rfl) (fun _ => ⟨rfl, rfl⟩)
    fun d fact => ⟨stable d k d.pendingEntry d.pendingKind d.pending d.transaction fact, rfl⟩) fun _ v₁ at₁ => ?_
  refine .seq (step (H := fun d => F d ∧ d.pendingSlab = k ∧ d.pendingEntry = e) at₁ (fun _ => rfl) (fun _ => ⟨rfl, rfl⟩)
    fun d fact => ⟨stable d d.pendingSlab e d.pendingKind d.pending d.transaction fact.1, fact.2, rfl⟩) fun _ v₂ at₂ => ?_
  refine .seq (step (H := fun d => F d ∧ d.pendingSlab = k ∧ d.pendingEntry = e ∧ d.pendingKind = kind) at₂ (fun _ => rfl)
    (fun _ => ⟨rfl, rfl⟩) fun d fact =>
      ⟨stable d d.pendingSlab d.pendingEntry kind d.pending d.transaction fact.1, fact.2.1, fact.2.2, rfl⟩) fun _ v₃ at₃ => ?_
  refine .seq (step (H := fun d => F d ∧ d.pendingSlab = k ∧ d.pendingEntry = e ∧ d.pendingKind = kind) at₃ (fun _ => rfl)
    (fun _ => ⟨rfl, rfl⟩) fun d fact =>
      ⟨stable d d.pendingSlab d.pendingEntry d.pendingKind pointer d.transaction fact.1, fact.2⟩) fun _ v₄ at₄ => ?_
  refine update_spec at₄ fun d fact books owned => ?_
  obtain ⟨-, fact, slab, entry, isKind⟩ := fact
  have now : Creating (d.setTransaction (.owned p .evidence)) → Strict (d.setTransaction (.owned p .evidence)) := by
    intro is
    have under := strict (isKind.symm.trans is.2) d fact
    rw [← slab, ← entry] at under
    exact under
  exact ⟨⟨congrArg some mine, owned.2⟩, books.same rfl, .same rfl, fun is => .inl (now is), rfl, isKind, now,
    stable d d.pendingSlab d.pendingEntry d.pendingKind d.pending (.owned p .evidence) fact⟩

theorem commit_spec (here : Work none P v) : Frees S op (commit p phase []) v := by
  refine work_spec here fun s d _ dir books owned => ?_
  subst dir
  by_cases same : s.dir.transaction = .owned p phase
  · simp only [if_pos same]
    exact ⟨trivial, trivial, books.same rfl, .same rfl,
      fun is => (not_creating_clean rfl is).elim, .inr ⟨trivial, nofun, fun _ free _ => free⟩⟩
  · simp only [if_neg same]
    exact ⟨trivial, trivial, books.same rfl, .same rfl, fun is => .inr (.inr ⟨is, id⟩),
      .inr ⟨trivial, fun q eq => Option.some.inj (eq.symm.trans owned.1), fun _ free _ => free⟩⟩

theorem dropTransaction_spec (mine : p = op.owner) (here : Work none P v) : Frees S op (dropTransaction p phase) v := by
  let f : Dir → Dir := fun d =>
    if phase = .evidence ∧ d.transaction = .owned p .evidence then (d.setHandled false).setTransaction (.owned p .rollingBack)
    else d.setHandled false
  refine work_spec (f := fun s => ({ s with dir := f s.dir }, ())) here fun s d _ dir books owned => ?_
  subst dir
  dsimp only [f]
  by_cases evidence : phase = .evidence ∧ s.dir.transaction = .owned p .evidence
  · rw [if_pos evidence]
    exact ⟨rfl, rfl, books.same rfl, .same rfl, fun is => .inr (.inr ⟨⟨⟨p, .evidence, evidence.2, by simp⟩, is.2⟩, id⟩),
      .inr ⟨rfl, fun q eq => Option.some.inj eq ▸ mine, fun _ free _ => free⟩⟩
  · rw [if_neg evidence]
    exact ⟨rfl, rfl, books.same rfl, .same rfl, fun is => .inr (.inr ⟨is, id⟩),
      .inr ⟨rfl, fun q eq => Option.some.inj (eq.symm.trans owned.1), fun _ free _ => free⟩⟩

theorem giveUp_spec {error : Error} (here : Work none P v) : Frees S op (giveUp p error : DirProg (Except Error β)) v :=
  .seq (commit_spec here) fun _ _ free => free

/-! ### Creating -/

/-- What `reserve` finds -/
def Found (S : Setup) (P : Dir → Prop) : Except Error Slot → View → Prop
  | .ok slot, v => slot.Free S ∧ Work none (fun d => P d ∧ (d.entry slot.slab slot.entry).word = slot.vacant) v
  | .error _, v => Work none P v

theorem reserve_spec (here : Work none P v) : Spec S op (reserve S) v (Found S P) := by
  refine (find_spec (reserveFrom_reads maxSlabs 0) here).mono ?_
  rintro (error | slot) w ⟨holds, d, has, fact, found⟩
  · exact ⟨holds, d, has, fact⟩
  · have vacant := reserveFrom_result maxSlabs 0 found.symm
    exact ⟨vacant.toFree, holds, d, has, fact, vacant.word⟩

/-- What `entry` finds -/
def Sited (hp : Option Bool) (P : Dir → Prop) (k e : Nat) : Except Error Unit → View → Prop
  | .ok _, v => Work hp (fun d => P d ∧ d.Linked k ∧ e < capacity) v
  | .error _, v => Work hp P v

theorem entry_spec (k e : Nat) (here : Work hp P v) : Spec S op (entry k e) v (Sited hp P k e) := by
  refine (find_spec (entry_reads k e) here).mono ?_
  rintro (error | ⟨⟩) w here
  · exact here.mono fun d h => h.1
  · exact here.mono fun d h => ⟨h.1, entry_result.mp h.2.symm⟩

variable {p : Nat} {slot : Slot}

/-- The entry of the slot is in the generation that the slot reserves, under which nothing was issued. -/
def Own (slot : Slot) (state : EntryState) (d : Dir) : Prop :=
  (d.entry slot.slab slot.entry).word = ⟨slot.generation, state⟩ ∧ Under d slot.slab slot.entry slot.generation ∧
    d.Linked slot.slab ∧ slot.entry < capacity

theorem Own.restate (own : Own slot state d) (word : (d'.entry slot.slab slot.entry).word = ⟨slot.generation, state'⟩)
    (same : d'.trail.issued = d.trail.issued ∧ d'.next = d.next) : Own slot state' d' := by
  refine ⟨word, own.2.1.same same.1, ?_, own.2.2.2⟩
  unfold Dir.Linked
  rw [same.2]
  exact own.2.2.1

theorem vacate_spec (free : slot.Free S)
    (here : Work hp (fun d => d.transaction = .owned p phase ∧ Own slot .pending d) v) (calm : hp = some true ∨ phase = .held) :
    Spec S op (storeState slot.slab slot.entry slot.vacant) v fun _ => Work hp fun d => d.transaction = .owned p phase := by
  refine store_spec stores_state here (fun d fact books => ?_) (calm.imp_right fun held d fact => ?_)
    fun d d' fact _ same _ _ _ => same.trans fact.1
  · obtain ⟨-, word, under, -⟩ := fact
    have bounded := books.bounded slot.slab slot.entry
    rw [word] at bounded
    have step := free.generation
    refine ⟨step ▸ under, fun is => ?_, by dsimp only at bounded; omega, fun is => ?_⟩
    · rw [free.state] at is
      cases is
    · rw [free.state] at is
      rcases is with is | is <;> cases is
  · exact .inr (not_creating_held (held ▸ fact.1))

theorem issue_spec {offset : Nat} (here : Work none (fun d => Held p d ∧ Own slot .published d) v) :
    Spec S op (commit p .held [(⟨S.region, slot.slab, slot.entry, slot.generation⟩, offset)]) v
      fun committed v' => committed = true ∧ v'.heap = none := by
  refine work_spec here fun s d fact dir books owned => ?_
  subst dir
  obtain ⟨held, word, under, place⟩ := fact
  simp only [if_pos held]
  refine ⟨trivial, trivial, books.issue ⟨S.region, slot.slab, slot.entry, slot.generation⟩ offset (fun _ _ => rfl) rfl under
    ?_ ?_ rfl ⟨rfl, place⟩, .more (fun _ _ => rfl) fun x mem => List.mem_cons_of_mem _ mem,
    fun is => (not_creating_clean rfl is).elim, .inr ⟨trivial, nofun, fun _ free _ => ⟨trivial, free⟩⟩⟩
  · rw [word]
  · rw [word]
    nofun

theorem word_setOffset (d : Dir) (k e offset k' e' : Nat) : ((d.setOffset k e offset).entry k' e').word =
    (d.entry k' e').word := by
  unfold Dir.setOffset Dir.setEntry
  by_cases slab : k' = k
  · subst slab
    by_cases entry : e' = e
    · subst entry
      simp
    · simp [entry]
  · simp [slab]

variable (mine : p = op.owner)

include mine

theorem createAdmit_spec {offset : Nat} (free : slot.Free S)
    (here : Work none (fun d => d.transaction = .owned p .evidence ∧ Own slot .pending d) v) :
    Frees S op (createAdmit S p slot offset) v := by
  refine .seq (stays (admitAt_keeps fun _ _ => rfl) here) ?_
  rintro (error | ⟨⟩) w₀ here
  · refine .seq (beginHeld_spec here mine) ?_
    rintro (error' | ⟨⟩) w₁ claimed
    · exact .seq (dropTransaction_spec mine claimed) fun _ _ free => free
    refine .seq (look_spec (f := Dir.pending) (claimed.mono fun d h => h.1)) fun pending w₂ here => ?_
    refine .seq (deallocateDuring_spec (here.mono fun d h => h.1) fun _ _ h => h) fun _ w₃ here => ?_
    refine .seq (vacate_spec free here (.inl rfl)) fun _ w₄ here => ?_
    refine .seq (clearPending_spec mine here (N := Held p) fun _ _ => rfl) fun _ w₅ here => ?_
    exact .seq (settle_spec here fun d held is => (not_creating_held held is).elim) fun _ w₆ here => giveUp_spec here
  refine .seq (update_spec (N := fun d => d.transaction = .owned p .evidence ∧ Own slot .pending d) here
    fun d fact books owned => ?_) fun _ w₁ here => ?_
  · have words := word_setOffset d slot.slab slot.entry offset
    have same : core (d.setOffset slot.slab slot.entry offset) = core d := Prod.ext (funext₂ words) rfl
    refine ⟨owned, books.same same, .same same, fun is => .inr (.inr ⟨is, fun strict => ?_⟩), fact.1,
      fact.2.restate ((words _ _).trans fact.2.1) ⟨rfl, rfl⟩⟩
    unfold Strict at strict ⊢
    rw [words]
    exact strict
  refine .seq (store_spec (N := fun d => d.transaction = .owned p .evidence ∧ Own slot .published d) stores_settle here
    (fun d fact books => ?_) (.inr fun d fact => .inl (by rw [fact.2.1]))
    fun d d' fact _ same _ word rest => ⟨same.trans fact.1, fact.2.restate word rest⟩) fun _ w₂ here => ?_
  · have bounded := books.bounded slot.slab slot.entry
    rw [fact.2.1] at bounded
    exact ⟨fact.2.2.1.mono (Nat.le_succ _), nofun, bounded, fun _ => .inl fact.2.2.1⟩
  refine .seq (clearPending_spec mine here (N := fun d => Held p d ∧ Own slot .published d)
    fun d fact => ⟨rfl, fact.2⟩) fun _ w₃ here => ?_
  exact .seq (issue_spec here) fun _ _ done => done.2

theorem createAllocated_spec (free : slot.Free S)
    (here : Work (some true) (fun d => Held p d ∧ Own slot .pending d) v) :
    Frees S op (createAllocated S p slot pointer) v := by
  refine .seq (stays (by exact .write fun _ => rfl) here) fun _ w₀ here => ?_
  refine .seq (stays offsetOf_keeps here) ?_
  rintro (error | offset) w₁ here
  · refine .seq (deallocateDuring_spec here fun _ _ h => h) fun _ w₂ here => ?_
    refine .seq (settle_spec here fun d fact is => (not_creating_held fact.1 is).elim) fun _ w₃ here => ?_
    exact .seq (vacate_spec free here (.inr rfl)) fun _ w₄ here => giveUp_spec here
  refine .seq (persist_spec mine here (fun _ _ _ _ _ _ h => h) fun _ d fact => ?_) fun _ w₂ here => ?_
  · rw [fact.1]
    exact fact.2
  refine .seq (settle_spec here fun d fact => fact.2.2.1) fun _ w₃ here => ?_
  exact createAdmit_spec mine free (here.mono fun d fact => ⟨fact.1, fact.2.2.2⟩)

theorem createAt_spec (free : slot.Free S)
    (here : Work none (fun d => Held p d ∧ (d.entry slot.slab slot.entry).word = slot.vacant) v) :
    Frees S op (createAt S p slot) v := by
  refine .seq (entry_spec slot.slab slot.entry here) ?_
  rintro (error | ⟨⟩) w₀ here
  · exact giveUp_spec (P := fun d => Held p d ∧ (d.entry slot.slab slot.entry).word = slot.vacant) here
  refine .seq (store_spec (N := fun d => Held p d ∧ Own slot .pending d) stores_home here
    (fun d fact books => ?_) (.inr fun d fact => .inr (not_creating_held fact.1.1))
    fun d d' fact books same _ word rest => ⟨same.trans fact.1.1, word, ?_, ?_, fact.2.2⟩) fun _ w₁ here => ?_
  · have reached := books.reached slot.slab slot.entry
    have bounded := books.bounded slot.slab slot.entry
    rw [fact.1.2] at reached bounded
    rw [← free.generation] at reached
    have room := free.room
    have step := free.generation
    exact ⟨reached.mono (Nat.le_succ _), fun _ => reached, by dsimp only; omega, nofun⟩
  · have reached := books.reached slot.slab slot.entry
    rw [fact.1.2, ← free.generation] at reached
    exact reached.same rest.1
  · unfold Dir.Linked
    rw [rest.2]
    exact fact.2.1
  refine .seq (beginHeld_spec here mine) ?_
  rintro (error | ⟨⟩) w₂ claimed
  · exact .seq (vacate_spec free claimed (.inr rfl)) fun _ w₃ here => giveUp_spec here
  refine .seq (allocateDuring_spec (claimed.mono fun d h => h.1) fun _ _ h => h) ?_
  rintro (error | pointer) w₃ ⟨here, -⟩
  · refine .seq (settle_spec here fun d fact is => (not_creating_held fact.1 is).elim) fun _ w₄ here => ?_
    exact .seq (vacate_spec free here (.inr rfl)) fun _ w₅ here => giveUp_spec here
  · exact createAllocated_spec mine free here

theorem growAt_spec (real : pointer ≠ 0) (here : Work (some true) (Held p) v) :
    Spec S op (growAt p k pointer) v fun _ => Work none (Held p) := by
  refine .seq (offsetOf_spec pointer) ?_
  rintro (error | offset) _ ⟨rfl, same⟩
  · refine .seq (deallocateDuring_spec here fun _ _ h => h) fun _ w₁ here => ?_
    exact .seq (settle_spec here fun d held is => (not_creating_held held is).elim) fun _ w₂ here => here
  refine .seq (persist_spec mine (F := fun _ => True) (here.mono fun d held => ⟨held, trivial⟩) (fun _ _ _ _ _ _ h => h) nofun)
    fun _ w₁ here => ?_
  refine .seq (settle_spec here fun d fact => fact.2.2.1) fun _ w₂ here => ?_
  refine .seq (update_spec (N := fun _ => True) here fun d fact books owned => ⟨owned,
    (books.link (k := k) (same offset rfl ▸ real)).same rfl, .more (fun _ _ => rfl) fun _ => id, fun is => ?_, trivial⟩)
      fun _ w₃ here => ?_
  · cases fact.2.1.symm.trans is.2
  exact .seq (clearPending_spec mine here fun _ _ => rfl) fun _ w₄ here => here

theorem grow_spec (here : Work none (Held p) v) :
    Spec S op (grow p) v fun _ => Work none (Held p) := by
  refine .seq (stays (tailFrom_reads _ _).keeps here) ?_
  rintro (error | k) w₀ here
  · exact here
  dsimp only
  split
  · exact here
  refine .seq (beginHeld_spec here mine) ?_
  rintro (error | ⟨⟩) w₁ claimed
  · exact claimed
  refine .seq (allocateDuring_spec (claimed.mono fun d h => h.1) fun _ _ h => h) ?_
  rintro (error | pointer) w₂ ⟨here, real⟩
  · exact .seq (settle_spec here fun d held is => (not_creating_held held is).elim) fun _ w₃ here => here
  · exact growAt_spec mine (real pointer rfl) here

theorem createHeld_spec (here : Work none (Held p) v) : Frees S op (createHeld S p) v := by
  refine .seq (reserve_spec here) ?_
  rintro (error | slot) w₀ found
  · have here : Work none (Held p) w₀ := found
    cases error
    case full =>
      refine .seq (grow_spec mine here) ?_
      rintro (error | ⟨⟩) w₁ here
      · exact giveUp_spec here
      refine .seq (reserve_spec here) ?_
      rintro (error | slot) w₂ found
      · exact giveUp_spec (P := Held p) found
      · exact createAt_spec mine found.1 found.2
    all_goals exact giveUp_spec here
  · exact createAt_spec mine found.1 found.2

/-! ### Removing -/

omit mine in
/-- The store leaves the generation of the entry as it is; it opens the entry only if it was open. -/
theorem restate_spec (stores : Stores f k e ⟨g, state⟩) (here : Work hp P v)
    (same : ∀ d, P d → (d.entry k e).word.generation = g) (calm : state ≠ .pending)
    (opens : state = .published ∨ state = .closing → ∀ d, P d → (d.entry k e).word.state = .published ∨
      (d.entry k e).word.state = .closing)
    (post : ∀ d d', P d → Books S d → d'.transaction = d.transaction → d'.pendingKind = d.pendingKind →
      (d'.entry k e).word = ⟨g, state⟩ → d'.trail.issued = d.trail.issued ∧ d'.next = d.next → N d') :
    Spec S op (update f) v fun _ => Work hp N := by
  refine store_spec stores here (fun d fact books => ?_) (.inr fun d fact => .inl (same d fact)) post
  have reached := books.reached k e
  have bounded := books.bounded k e
  rw [same d fact] at reached bounded
  exact ⟨reached, fun is => (calm is).elim, bounded, fun is => .inr ⟨same d fact, opens is d fact⟩⟩

/-- A removal is recorded; the entry has the word `w`. -/
def Removing (p k e : Nat) (w : EntryWord) (d : Dir) : Prop :=
  (∃ phase, d.transaction = .owned p phase) ∧ d.pendingKind = .remove ∧ (d.entry k e).word = w

omit mine in
theorem removing_step (stores : Stores f k e ⟨g, state'⟩)
    (here : Work hp (Removing p k e ⟨g, state⟩) v) (calm : state' ≠ .pending)
    (opens : state' = .published ∨ state' = .closing → state = .published ∨ state = .closing) :
    Spec S op (update f) v fun _ => Work hp (Removing p k e ⟨g, state'⟩) :=
  restate_spec stores here (fun d fact => congrArg EntryWord.generation fact.2.2) calm
    (fun is d fact => by rw [fact.2.2]; exact opens is)
    fun d d' fact _ same kind word _ => ⟨fact.1.imp fun _ h => same.trans h, kind.trans fact.2.1, word⟩

theorem removeClosed_spec {offset : Nat} (here : Work (some true) (Removing p id.slab id.entry ⟨id.generation, .closing⟩) v) :
    Frees S op (removeClosed p id offset) v := by
  refine .seq (removing_step stores_state here nofun nofun) fun _ w₀ here => ?_
  refine .seq (deallocateDuring_spec here fun _ _ h => h) fun _ w₁ here => ?_
  refine .seq (removing_step stores_state here nofun nofun) fun _ w₂ here => ?_
  refine .seq (settle_spec here fun d fact is => (not_creating_kind (by rw [fact.2.1]; nofun) is).elim) fun _ w₃ here => ?_
  refine .seq (removing_step stores_state here nofun nofun) fun _ w₄ here => ?_
  refine .seq (clearPending_spec mine here (N := fun _ => True) fun _ _ => trivial) fun _ w₅ here => ?_
  exact .seq (commit_spec here) fun _ _ free => free

theorem removeHeld_spec {offset : Nat} (here : Work (some true) (fun d => Held p d ∧
      (d.entry id.slab id.entry).word = ⟨id.generation, .published⟩) v) : Frees S op (removeHeld S p id offset) v := by
  refine .seq (restate_spec (N := fun d => Held p d ∧
      (d.entry id.slab id.entry).word = ⟨id.generation, .closing⟩) (stores_home (a := fun _ => .loose offset)) here
    (fun d fact => by rw [fact.2]) (by nofun) (fun _ d fact => .inl (by rw [fact.2]))
    fun d d' fact _ same _ word _ => ⟨same.trans fact.1, word⟩) fun _ w₀ here => ?_
  refine .seq (persist_spec mine here (fun _ _ _ _ _ _ h => h) nofun) fun _ w₁ here => ?_
  have here : Work (some true) (Removing p id.slab id.entry ⟨id.generation, .closing⟩) w₁ :=
    here.mono fun d fact => ⟨⟨_, fact.1⟩, fact.2.1, fact.2.2.2⟩
  refine .seq (stays (closeUnique_keeps fun _ _ => rfl) here) ?_
  rintro (error | ⟨⟩) w₂ here
  · refine .seq (removing_step stores_settle here nofun fun _ => .inr rfl) fun _ w₃ here => ?_
    refine .seq (clearPending_spec mine here (N := Held p) fun _ _ => rfl) fun _ w₄ here => ?_
    exact .seq (settle_spec here fun d held is => (not_creating_held held is).elim) fun _ w₅ here => giveUp_spec here
  · exact removeClosed_spec mine here

/-- `Directory::claim` -/
def Began (p : Nat) (v : View) : Except Error Unit → View → Prop
  | .ok _, v' => Work none (Held p) v'
  | .error _, v' => v' = v

theorem claim_spec (free : v.heap = none) (directory : op.isDirectory = true) : Spec S op (claim p) v (Began p v) := by
  refine Protocol.Triple.action fun s dead views t inv view _ => ?_
  rcases word : s.dir.transaction with _ | ⟨busy, phase⟩
  · have ok := Inv.view inv view
    have books : Books S s.dir := Inv.books inv
    have nobody : Alone views t := by
      intro u op' w d _ hu has
      obtain ⟨dir, ⟨owner, -⟩, -⟩ := (Inv.view inv hu).has has
      rw [← dir, word] at owner
      cases owner
    have unbound : s.heap.bound ≠ true := by
      intro is
      obtain ⟨q, owner, -⟩ := Inv.bound inv is
      rw [word] at owner
      cases owner
    refine ⟨{ v with mode := .has (s.dir.begin p) }, ?_, .same rfl, free, _, rfl, rfl⟩
    refine Inv.step inv view (.inr ⟨nobody, fun q eq => ?_⟩) (.inl ⟨rfl, rfl⟩) ⟨?_, nofun, nofun, ok.heap, ok.cleared⟩
      (fun _ _ => nobody) (fun holds => (holds free).elim) (books.same rfl)
      (fun is => (not_creating_held rfl is).elim) fun is => (unbound is).elim
    · cases eq
      exact mine ▸ Inv.alive inv view
    · rintro _ ⟨⟩
      exact ⟨rfl, ⟨congrArg some mine, rfl⟩, directory⟩
  · refine ⟨v, ?_, .refl _, rfl⟩
    rw [Protocol.update_same view]
    exact inv

theorem remove_spec {heapRegion mapped : Nat} {fits inHeap : Bool} (free : v.heap = none)
    (directory : op.isDirectory = true) : Frees S op (remove S p heapRegion id mapped fits inHeap) v := by
  unfold remove
  split
  · exact free
  split
  · exact free
  refine .seq (keeps_spec (offset_reads id).keeps) ?_
  rintro (error | offset) _ rfl
  · exact free
  dsimp only
  split
  · exact free
  refine .seq (claim_spec mine free directory) ?_
  rintro (error | ⟨⟩) w₀ began
  · exact began ▸ free
  refine .seq (stays (entry_reads _ _).keeps began) ?_
  rintro (error | ⟨⟩) w₁ here
  · exact giveUp_spec here
  refine .seq (look_spec (f := fun d => (d.entry id.slab id.entry).word) here) fun word w₂ here => ?_
  split
  · exact giveUp_spec here
  next published =>
  split
  · exact giveUp_spec here
  refine .seq (beginHeld_spec here mine) ?_
  rintro (error | ⟨⟩) w₃ claimed
  · exact giveUp_spec claimed
  · exact removeHeld_spec mine (claimed.mono fun d h => ⟨h.1.1, h.1.2.symm.trans (not_not.mp published)⟩)

end Operations

end Evering.Directory.Identity
