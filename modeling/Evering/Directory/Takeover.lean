import Evering.Directory.Issue

/-!
# Generations in recoveries and rollbacks

A recoverer reads the directory before it takes the transaction of the dead over, and what it has read is what it takes over.
It sets a generation back only from `PENDING`; a rollback that is resumed sets the generation of its record back only with
the heap claimed, and then nothing was issued under it.
-/

namespace Evering.Directory.Identity

open Interleave Protocol

section Takeover

variable {S : Setup} {β : Type} {s s' : Shared} {dead : Nat → Bool} {views : Views Op View} {t : Nat} {op : Op} {v v' : View}
  {d d' : Dir} {hp : Option Bool} {P N : Dir → Prop}
  {p : Nat} (mine : p = op.owner)

/-! ### Taking a transaction over -/

variable {gone : Nat} {c : Bool}

/-- What the thread knows of the transaction of `gone`: `P` is true of the directory, or somebody else has the transaction. -/
def Knows (op : Op) (gone : Nat) (hp : Option Bool) (c : Bool) (P : Dir → Prop) (v : View) : Prop :=
  v.heap = hp ∧ v.cleared = c ∧
    (v.mode = .lost gone ∨ (∃ d, v.mode = .saw gone d ∧ P d) ∨ gone = op.owner ∧ ∃ d, v.mode = .has d ∧ P d)

theorem Knows.mono (knows : Knows op gone hp c P v) (weaker : ∀ d, P d → N d) : Knows op gone hp c N v :=
  ⟨knows.1, knows.2.1, knows.2.2.imp_right (.imp (.imp fun d h => ⟨h.1, weaker d h.2⟩)
    fun h => ⟨h.1, h.2.imp fun d h => ⟨h.1, weaker d h.2⟩⟩)⟩

theorem Inv.unhanded (inv : Inv S s dead views) (dead_ : dead gone = true) (owner : s.dir.transaction.wordOwner = some gone) :
    ∀ {u op' w d}, views u = some (op', w) → w.mode ≠ .has d := by
  intro u op' w d hu has
  obtain ⟨dir, ⟨owner', -⟩, -⟩ := (inv.view hu).has has
  rw [dir, owner'] at owner
  cases owner
  cases (inv.alive hu).symm.trans dead_

theorem glance_spec {f : Dir → β} (knows : Knows op gone hp c P v) :
    Spec S op (Prog.read .plain fun s => f s.dir) v fun a => Knows op gone hp c fun d => P d ∧ a = f d := by
  refine Protocol.Triple.read (fun _ => .refl _) fun s dead views t inv view _ => ?_
  have ok := Inv.view inv view
  obtain ⟨holds, cleared, lost | ⟨d, saw, fact⟩ | ⟨own, d, has, fact⟩⟩ := knows
  · refine ⟨v, ?_, holds, cleared, .inl lost⟩
    rw [update_same view]
    exact inv
  · obtain ⟨recovers, -, kept⟩ := ok.saw saw
    by_cases still : s.dir.transaction.wordOwner = some gone
    · refine ⟨v, ?_, holds, cleared, .inr (.inl ⟨d, saw, fact, congrArg f (kept still)⟩)⟩
      rw [update_same view]
      exact inv
    · refine ⟨{ v with mode := .lost gone }, Inv.learn inv view ⟨nofun, nofun, ?_, ok.heap, ok.cleared⟩ ?_ rfl, holds,
        cleared, .inl rfl⟩
      · rintro _ ⟨⟩
        exact ⟨recovers, still⟩
      · intro d'
        rw [saw]
        exact ⟨nofun, nofun⟩
  · refine ⟨v, ?_, holds, cleared, .inr (.inr ⟨own, d, has, fact, congrArg f (ok.has has).1⟩)⟩
    rw [update_same view]
    exact inv

theorem clearDeadOwner_spec (recovers : op.recovers = some gone) (knows : Knows op gone hp c P v)
    (calm : ∀ d, P d → ¬Creating d) :
    Spec S op (clearDeadOwner gone) v fun _ => Knows op gone hp true P := by
  refine Protocol.Triple.action fun s dead views t inv view _ => ?_
  have ok := Inv.view inv view
  by_cases owned : s.heap.mutation = .owned gone
  · rw [if_pos owned]
    refine ⟨{ v with cleared := true }, Inv.disown inv view recovers owned (fun _ h => by cases h) (fun is => .inl ?_) rfl rfl,
      .refl _, knows.1, rfl, knows.2.2⟩
    rcases Inv.creating inv is with strict | poisoned | bound
    · exact strict
    · rw [owned] at poisoned
      cases poisoned
    · obtain ⟨q, owner, owned', -⟩ := Inv.bound inv bound
      rw [owned] at owned'
      cases owned'
      rcases knows.2.2 with lost | ⟨d, saw, fact⟩ | ⟨-, d, has, fact⟩
      · exact ((ok.lost lost).2 owner).elim
      · exact (calm d fact ((ok.saw saw).2.2 owner ▸ is)).elim
      · exact (calm d fact ((ok.has has).1 ▸ is)).elim
  · rw [if_neg owned]
    refine ⟨{ v with cleared := true }, Inv.learn inv view ⟨ok.has, ok.saw, ok.lost, ok.heap, fun _ q eq => ?_⟩ Iff.rfl rfl,
      .refl _, knows.1, rfl, knows.2.2⟩
    rw [recovers] at eq
    cases eq
    exact owned

/-- What `transfer` gives -/
def Took (hp : Option Bool) (N : Dir → Prop) (v : View) : Except Error Unit → View → Prop
  | .ok _, v' => Work hp N v'
  | .error _, v' => v' = v

variable {phase next : Phase} (directory : op.isDirectory = true)

include mine directory

/-- A transaction is taken over without a claim of the heap. If a creation stays in force, the dead has no claim either. -/
theorem transfer_spec (knows : Knows op gone none c P v) (kept : next = .held ∨ next = phase)
    (calm : next = .held ∨ c = true ∨ ∀ d, P d → ¬Creating d)
    (post : ∀ d, P d → d.transaction = .owned gone phase → N ((d.setTransaction (.owned p next)).setHandled true)) :
    Spec S op (transfer p gone phase next false) v (Took none N v) := by
  refine .exchange (fun _ => .refl _) (fun _ _ => rfl) fun s dead views t inv view _ same => ?_
  obtain ⟨free, cleared, knows⟩ := knows
  have ok := Inv.view inv view
  have books : Books S s.dir := Inv.books inv
  have owner : s.dir.transaction.wordOwner = some gone := by rw [same]; rfl
  -- the directory is the one the thread knows
  obtain ⟨fact, nobody, unbound⟩ : P s.dir ∧ Alone views t ∧ (s.heap.bound = true → op.recovers = some gone) := by
    rcases knows with lost | ⟨d, saw, fact⟩ | ⟨-, d, has, fact⟩
    · exact ((ok.lost lost).2 owner).elim
    · obtain ⟨recovers, -, still⟩ := ok.saw saw
      exact ⟨(still owner).symm ▸ fact, fun _ hu => Inv.unhanded inv (Inv.gone inv view recovers) owner hu, fun _ => recovers⟩
    · refine ⟨(ok.has has).1.symm ▸ fact, Inv.alone inv view has, fun is => ?_⟩
      have := (Inv.bound_own inv view has is).2
      rw [free] at this
      cases this
  have mutation : s.heap.bound = true → s.heap.mutation = .owned gone := by
    intro is
    obtain ⟨q, owner', owned, -⟩ := Inv.bound inv is
    rw [owner] at owner'
    cases owner'
    exact owned
  refine ⟨{ v with mode := .has ((s.dir.setTransaction (.owned p next)).setHandled true) }, ?_, .same rfl,
    free, _, rfl, post s.dir fact same⟩
  refine Inv.step inv view (.inr ⟨nobody, fun q eq => ?_⟩) ?_ ⟨?_, nofun, nofun, fun h => ?_, ok.cleared⟩ (fun _ _ => nobody)
    (fun holds => (holds free).elim) (books.same rfl) (fun is => ?_) nofun
  · cases eq
    exact mine ▸ Inv.alive inv view
  · rcases bound : s.heap.bound with _ | _
    · exact .inl ⟨rfl, rfl⟩
    · refine .inr ⟨fun _ hu => Inv.unclaimed inv (fun q eq => ?_) hu, fun q eq => .inr eq⟩
      rw [mutation bound] at eq
      cases eq
      exact Inv.gone inv view (unbound bound)
  · rintro _ ⟨⟩
    exact ⟨rfl, ⟨congrArg some mine, rfl⟩, directory⟩
  · rw [free] at h
    cases h
  · rcases kept with rfl | rfl
    · exact (not_creating_held rfl is).elim
    obtain ⟨⟨q, phase', eq, unheld⟩, kind⟩ := is
    cases eq
    have was : Creating s.dir := ⟨⟨gone, next, same, unheld⟩, kind⟩
    rcases calm with rfl | is_cleared | none_
    · exact (unheld rfl).elim
    · rcases Inv.creating inv was with strict | poisoned | bound
      · exact .inl strict
      · exact .inr (.inl poisoned)
      · exact (ok.cleared (cleared.trans is_cleared) (unbound bound) (mutation bound)).elim
    · exact (none_ _ fact was).elim

theorem transferHeld_spec (knows : Knows op gone (some false) c P v)
    (post : ∀ d, P d → d.transaction = .owned gone phase → (Creating d → Strict d) →
      N ((d.setTransaction (.owned p phase)).setHandled true)) :
    Spec S op (transfer p gone phase phase true) v (Took (some true) N v) := by
  refine .exchange (fun _ => .refl _) (fun _ _ => rfl) fun s dead views t inv view _ same => ?_
  obtain ⟨holds, cleared, knows⟩ := knows
  have ok := Inv.view inv view
  have books : Books S s.dir := Inv.books inv
  have owner : s.dir.transaction.wordOwner = some gone := by rw [same]; rfl
  obtain ⟨mutation, unbound⟩ := ok.heap holds
  obtain ⟨fact, nobody⟩ : P s.dir ∧ Alone views t := by
    rcases knows with lost | ⟨d, saw, fact⟩ | ⟨-, d, has, fact⟩
    · exact ((ok.lost lost).2 owner).elim
    · obtain ⟨recovers, -, still⟩ := ok.saw saw
      exact ⟨(still owner).symm ▸ fact, fun _ hu => Inv.unhanded inv (Inv.gone inv view recovers) owner hu⟩
    · exact ⟨(ok.has has).1.symm ▸ fact, Inv.alone inv view has⟩
  have strict : Creating s.dir → Strict s.dir := by
    intro is
    rcases Inv.creating inv is with strict | poisoned | bound
    · exact strict
    · rw [mutation] at poisoned
      cases poisoned
    · rw [unbound] at bound
      cases bound
  have others : AloneHeap views t := Inv.aloneHeap inv view (by simp [holds])
  refine ⟨{ v with mode := .has ((s.dir.setTransaction (.owned p phase)).setHandled true), heap := some true }, ?_,
    .same rfl, rfl, _, rfl, post s.dir fact same strict⟩
  refine Inv.step inv view (.inr ⟨nobody, fun q eq => ?_⟩) (.inr ⟨others, fun q eq => .inr eq⟩)
    ⟨?_, nofun, nofun, ?_, ok.cleared⟩ (fun _ _ => nobody) (fun _ => others) (books.same rfl)
    (fun is => .inr (.inr rfl)) fun _ => ⟨p, rfl, mine ▸ mutation, fun _ => .inl ⟨⟨_, rfl⟩, rfl⟩⟩
  · cases eq
    exact mine ▸ Inv.alive inv view
  · rintro _ ⟨⟩
    exact ⟨rfl, ⟨congrArg some mine, rfl⟩, directory⟩
  · rintro _ ⟨⟩
    exact ⟨mutation, rfl⟩

/-- What `claim_heap_and_transfer` gives -/
def Secured (op : Op) (gone : Nat) (c : Bool) (P N : Dir → Prop) : Except Error Unit → View → Prop
  | .ok _, v => Work (some true) N v
  | .error _, v => Knows op gone none c P v

theorem claimHeapAndTransfer_spec (knows : Knows op gone none c P v) (own : gone = op.owner → ∀ d, P d → ¬Creating d)
    (post : ∀ d, P d → d.transaction = .owned gone phase → (Creating d → Strict d) →
      N ((d.setTransaction (.owned p phase)).setHandled true)) :
    Spec S op (claimHeapAndTransfer p gone phase) v (Secured op gone c P N) := by
  refine .seq (begin_spec (fun h => by cases h) mine) ?_
  rintro (error | ⟨⟩) w begun
  · exact begun ▸ knows
  obtain ⟨rfl, -⟩ := begun
  refine .seq (transferHeld_spec mine directory (v := { v with heap := some false }) ⟨rfl, knows.2⟩ post) ?_
  rintro (error | ⟨⟩) w took
  · cases took
    refine .seq (commitMutation_spec rfl fun d has is => ?_) fun _ w same => same ▸ ⟨rfl, knows.2⟩
    rcases knows.2.2 with lost | ⟨d', saw, -⟩ | ⟨own', d', has', fact⟩
    · cases lost.symm.trans has
    · cases saw.symm.trans has
    · cases has'.symm.trans has
      exact (own own' d fact is).elim
  · exact took

/-! ### Recovery -/

variable {k e : Nat} {w : EntryWord}
variable {result : Recovered} {kind : Kind} {offset heapRegion : Nat} {isDead : Bool}

omit directory in
theorem finish_spec (here : Work none P v) : Frees S op (finish p result) v := by
  refine .seq (clearPending_spec mine here (N := fun _ => True) fun _ _ => trivial) fun _ w₀ here => ?_
  exact .seq (commit_spec here) fun _ _ free => free

theorem transferAndClear_spec (knows : Knows op gone none c P v) : Frees S op (transferAndClear p gone phase result) v := by
  refine .seq (transfer_spec mine directory (N := fun _ => True) knows (.inl rfl) (.inl rfl) fun _ _ _ => trivial) ?_
  rintro (error | ⟨⟩) w₀ took
  · exact took ▸ knows.1
  · exact .seq (commit_spec took) fun _ _ free => free

theorem quarantine_spec (knows : Knows op gone none c P v) (calm : c = true ∨ ∀ d, P d → ¬Creating d) :
    Frees S op (quarantine S p gone phase k e) v := by
  refine .seq (transfer_spec mine directory (N := fun _ => True) knows (.inr rfl) (.inr calm) fun _ _ _ => trivial) ?_
  rintro (error | ⟨⟩) w₀ took
  · exact took ▸ knows.1
  refine .seq (look_spec (f := fun d => (d.entry k e).word) took) fun word w₁ here => ?_
  refine .seq (restate_spec (N := fun _ => True) stores_state here
    (fun d fact => congrArg EntryWord.generation fact.2.symm) nofun nofun
    fun _ _ _ _ _ _ _ _ => trivial) fun _ w₂ here => ?_
  split
  · exact .seq (commit_spec here) fun _ _ free => free
  · exact .seq (dropTransaction_spec mine here) fun _ _ free => free

theorem recoverUncleared_spec (knows : Knows op gone none true P v) : Frees S op (recoverUncleared S p gone phase k e) v := by
  refine .seq (keeps_spec .read) ?_
  rintro (_ | owner | _) _ rfl
  · exact knows.1
  · exact knows.1
  · exact quarantine_spec mine directory knows (.inl rfl)

/-- A removal of the dead was seen, with the entry at `w`. -/
def SeenRemoving (k e : Nat) (w : EntryWord) (d : Dir) : Prop := d.pendingKind = .remove ∧ (d.entry k e).word = w

omit mine directory in
theorem SeenRemoving.calm (seen : SeenRemoving k e w d) : ¬Creating d := not_creating_kind (by rw [seen.1]; nofun)

variable {g : Nat}

theorem recoverRemoving_spec {state : EntryState} (knows : Knows op gone none c (SeenRemoving k e ⟨g, state⟩) v) :
    Frees S op (recoverRemoving p gone phase k e g) v := by
  refine .seq (claimHeapAndTransfer_spec mine directory (N := Removing p k e ⟨g, state⟩) knows (fun _ _ seen => seen.calm)
    fun d seen _ _ => ⟨⟨_, rfl⟩, seen⟩) ?_
  rintro (error | ⟨⟩) w₀ secured
  · exact secured.1
  refine .seq (look_spec (f := Dir.pending) secured) fun pending w₁ here => ?_
  refine .seq (deallocateDuring_spec (here.mono fun d h => h.1) fun _ _ h => h) fun _ w₂ here => ?_
  refine .seq (removing_step stores_state here nofun nofun) fun _ w₃ here => ?_
  refine .seq (settle_spec here fun d fact is => (SeenRemoving.calm fact.2 is).elim) fun _ w₄ here => ?_
  exact .seq (removing_step stores_state here nofun nofun) fun _ w₅ here => finish_spec mine here

theorem recoverUnclosed_spec (knows : Knows op gone none c (SeenRemoving k e ⟨g, .closing⟩) v) :
    Frees S op (recoverUnclosed p gone phase k e g) v := by
  refine .seq (transfer_spec mine directory (N := Removing p k e ⟨g, .closing⟩) knows (.inr rfl)
    (.inr (.inr fun _ seen => seen.calm)) fun d seen _ => ⟨⟨_, rfl⟩, seen⟩) ?_
  rintro (error | ⟨⟩) w₀ took
  · exact took ▸ knows.1
  · exact .seq (removing_step stores_settle took nofun fun _ => .inr rfl) fun _ w₁ here => finish_spec mine here

theorem recoverClosing_spec (recovers : op.recovers = some gone)
    (knows : Knows op gone none c (SeenRemoving k e ⟨g, .closing⟩) v) : Frees S op (recoverClosing S p gone phase k e g) v := by
  refine .seq (clearDeadOwner_spec recovers knows fun _ seen => seen.calm) fun done w₀ knows => ?_
  split
  · exact recoverUncleared_spec mine directory knows
  refine .seq (glance_spec (f := Dir.pending) knows) fun pending w₁ knows => ?_
  have knows := knows.mono fun d h => h.1
  refine .seq (stays (by exact .read) knows) fun is_closed w₂ knows => ?_
  split
  · exact recoverUnclosed_spec mine directory knows
  · exact recoverRemoving_spec mine directory knows

theorem recoverVacated_spec (knows : Knows op gone none c (SeenRemoving k e w) v) :
    Frees S op (recoverVacated p gone phase) v := by
  refine .seq (transfer_spec mine directory (N := fun _ => True) knows (.inr rfl) (.inr (.inr fun _ seen => seen.calm))
    fun _ _ _ => trivial) ?_
  rintro (error | ⟨⟩) w₀ took
  · exact took ▸ knows.1
  · exact finish_spec mine took

theorem recoverReleased_spec (recovers : op.recovers = some gone)
    (knows : Knows op gone none c (SeenRemoving k e ⟨g, .released⟩) v) :
    Frees S op (recoverReleased S p gone phase k e g) v := by
  refine .seq (clearDeadOwner_spec recovers knows fun _ seen => seen.calm) fun done w₀ knows => ?_
  split
  · exact recoverUncleared_spec mine directory knows
  refine .seq (transfer_spec mine directory (N := Removing p k e ⟨g, .released⟩) knows (.inr rfl)
    (.inr (.inr fun _ seen => seen.calm)) fun d seen _ => ⟨⟨_, rfl⟩, seen⟩) ?_
  rintro (error | ⟨⟩) w₁ took
  · exact took ▸ knows.1
  · exact .seq (removing_step stores_state took nofun nofun) fun _ w₂ here => finish_spec mine here

theorem recoverVacant_spec (knows : Knows op gone none c (SeenRemoving k e w) v) :
    Frees S op (recoverVacant p gone phase) v := by
  refine .seq (keeps_spec .read) ?_
  rintro (_ | owner | _) _ rfl
  · exact recoverVacated_spec mine directory knows
  · dsimp only
    split
    · exact knows.1
    · exact recoverVacated_spec mine directory knows
  · exact recoverVacated_spec mine directory knows

omit mine directory in
theorem fits_undo (word : (d.entry k e).word = ⟨g, .pending⟩) (books : Books S d) (positive : g ≠ 0) :
    Fits S d k e ⟨g - 1, .vacant⟩ := by
  have pending := books.pending k e (by rw [word])
  have bounded := books.bounded k e
  rw [word] at pending bounded
  refine ⟨?_, nofun, by dsimp only at bounded ⊢; omega, nofun⟩
  rwa [Nat.sub_add_cancel (by omega)]

theorem recoverPending_spec
    (knows : Knows op gone none true (fun d => (d.entry k e).word = ⟨g, .pending⟩) v) (other : gone ≠ op.owner) :
    Frees S op (recoverPending S p gone phase k e g) v := by
  unfold recoverPending
  split
  · exact quarantine_spec mine directory knows (.inl rfl)
  next positive =>
  refine .seq (claimHeapAndTransfer_spec mine directory (N := fun d => (d.entry k e).word = ⟨g, .pending⟩) knows
    (fun own => (other own).elim) fun d word _ _ => word) ?_
  rintro (error | ⟨⟩) w₀ secured
  · exact secured.1
  refine .seq (look_spec (f := Dir.pending) secured) fun pending w₁ here => ?_
  refine .seq (deallocateDuring_spec (here.mono fun d h => h.1) fun _ _ h => h) fun _ w₂ here => ?_
  refine .seq (store_spec (N := fun _ => True) stores_state here (fun d word books => fits_undo word books positive) (.inl rfl)
    fun _ _ _ _ _ _ _ _ => trivial) fun _ w₃ here => ?_
  refine .seq (clearPending_spec mine here (N := Held p) fun _ _ => rfl) fun _ w₄ here => ?_
  refine .seq (settle_spec here fun d held is => (not_creating_held held is).elim) fun _ w₅ here => ?_
  exact .seq (commit_spec here) fun _ _ free => free

theorem recoverReserved_spec (knows : Knows op gone none true (fun d => (d.entry k e).word = ⟨g, .pending⟩) v) :
    Frees S op (recoverReserved S p gone .held k e g) v := by
  unfold recoverReserved
  split
  · exact quarantine_spec mine directory knows (.inl rfl)
  next positive =>
  refine .seq (transfer_spec mine directory (N := fun d => Held p d ∧ (d.entry k e).word = ⟨g, .pending⟩) knows
    (.inl rfl) (.inl rfl) fun d word _ => ⟨rfl, word⟩) ?_
  rintro (error | ⟨⟩) w₀ took
  · exact took ▸ knows.1
  refine .seq (store_spec (N := fun _ => True) stores_state took (fun d fact books => fits_undo fact.2 books positive)
    (.inr fun d fact => .inr (not_creating_held fact.1)) fun _ _ _ _ _ _ _ _ => trivial) fun _ w₁ here => ?_
  exact .seq (commit_spec here) fun _ _ free => free

theorem recoverGuarded_spec {clean : DirProg (Except Error Recovered)} (knows : Knows op gone none true P v)
    (h : Frees S op clean v) : Frees S op (recoverGuarded S p gone phase k e clean) v := by
  refine .seq (keeps_spec .read) ?_
  rintro (_ | owner | _) _ rfl
  · exact h
  · exact knows.1
  · exact quarantine_spec mine directory knows (.inl rfl)

theorem recoverPoisoned_spec (other : gone ≠ op.owner)
    (knows : Knows op gone none true (fun d => d.pendingKind = kind ∧ (d.entry k e).word = w) v) :
    Frees S op (recoverPoisoned S p gone phase kind k e w) v := by
  obtain ⟨g, state⟩ := w
  unfold recoverPoisoned
  split
  · next is =>
    obtain ⟨rfl, rfl⟩ := is
    exact recoverReserved_spec mine directory (knows.mono fun d h => h.2)
  split
  · next is =>
    obtain ⟨-, -, rfl⟩ := is
    exact recoverGuarded_spec mine directory knows (recoverPending_spec mine directory (knows.mono fun d h => h.2) other)
  split
  · next is =>
    obtain ⟨-, rfl, rfl⟩ := is
    exact recoverGuarded_spec mine directory knows (recoverRemoving_spec mine directory knows)
  · exact quarantine_spec mine directory knows (.inl rfl)

theorem recoverState_spec (recovers : op.recovers = some gone) (other : gone ≠ op.owner)
    (knows : Knows op gone none c (fun d => d.pendingKind = kind ∧ (d.entry k e).word = w) v) :
    Frees S op (recoverState S p gone phase kind k e w) v := by
  obtain ⟨g, state⟩ := w
  unfold recoverState
  split
  · next is =>
    obtain ⟨-, rfl, rfl⟩ := is
    exact recoverClosing_spec mine directory recovers knows
  split
  · next is =>
    obtain ⟨-, rfl, rfl⟩ := is
    exact recoverReleased_spec mine directory recovers knows
  split
  · next is =>
    obtain ⟨-, rfl, rfl⟩ := is
    exact recoverVacant_spec mine directory knows
  · refine .next (poisonDead_spec recovers) fun _ => ?_
    exact recoverPoisoned_spec mine directory other ⟨knows.1, rfl, knows.2.2⟩

theorem recoverEntry_spec (recovers : op.recovers = some gone) (other : gone ≠ op.owner)
    (knows : Knows op gone none c (fun d => d.pendingKind = kind) v) : Frees S op (recoverEntry S p gone phase kind k e) v := by
  refine .seq (stays (entry_reads _ _).keeps knows) ?_
  rintro (error | ⟨⟩) w₀ knows
  · exact knows.1
  refine .seq (glance_spec (f := fun d => (d.entry k e).word) knows) fun word w₁ knows => ?_
  exact recoverState_spec mine directory recovers other (knows.mono fun d h => ⟨h.1, h.2.symm⟩)

theorem recoverHeld_spec (recovers : op.recovers = some gone) (knows : Knows op gone none c P v) :
    Frees S op (recoverHeld p gone phase) v := by
  unfold recoverHeld
  split
  · exact knows.1
  refine .next (keeps_spec .read) fun word => ?_
  split
  · refine .next (poisonOwner_spec recovers) fun _ => ?_
    exact transferAndClear_spec mine directory (c := true) ⟨knows.1, rfl, knows.2.2⟩
  · exact transferAndClear_spec mine directory knows

/-- What the recovery of a growth gives -/
def Ends (op : Op) (gone : Nat) : Except Error Recovered → View → Prop
  | .ok _, v => v.heap = none
  | .error _, v => ∃ c, Knows op gone none c (fun _ => True) v

omit mine directory in
theorem Ends.free {r : Except Error Recovered} (ends : Ends op gone r v) : v.heap = none := by
  cases r with
  | error error => exact ends.elim fun _ knows => knows.1
  | ok result => exact ends

omit mine directory in
theorem Knows.ends (knows : Knows op gone none c P v) : ∃ c, Knows op gone none c (fun _ => True) v :=
  ⟨c, knows.mono fun _ _ => trivial⟩

omit mine directory in
theorem growing_calm (grow : d.pendingKind = .grow) : ¬Creating d := not_creating_kind (by rw [grow]; nofun)

theorem recoverLinked_spec (knows : Knows op gone none c (fun d => d.pendingKind = .grow) v) :
    Spec S op (recoverLinked p gone phase result) v (Ends op gone) := by
  refine .seq (transfer_spec mine directory (N := fun _ => True) knows (.inr rfl) (.inr (.inr fun _ => growing_calm))
    fun _ _ _ => trivial) ?_
  rintro (error | ⟨⟩) w₀ took
  · exact took ▸ knows.ends
  · refine .seq (clearPending_spec mine took (N := fun _ => True) fun _ _ => trivial) fun _ w₁ here => ?_
    exact .seq (commit_spec here) fun _ _ free => free

theorem recoverUnlinked_spec (knows : Knows op gone none c (fun d => d.pendingKind = .grow) v) :
    Spec S op (recoverUnlinked p gone phase offset) v (Ends op gone) := by
  refine .seq (keeps_spec .read) ?_
  rintro (_ | owner | _) _ rfl
  · refine .seq (claimHeapAndTransfer_spec mine directory (N := fun _ => True) knows (fun _ _ => growing_calm)
      fun _ _ _ _ => trivial) ?_
    rintro (error | ⟨⟩) w₀ secured
    · exact Knows.ends secured
    refine .seq (deallocateDuring_spec secured fun _ _ h => h) fun _ w₁ here => ?_
    refine .seq (clearPending_spec mine here (N := Held p) fun _ _ => rfl) fun _ w₂ here => ?_
    refine .seq (settle_spec here fun d held is => (not_creating_held held is).elim) fun _ w₃ here => ?_
    exact .seq (commit_spec here) fun _ _ free => free
  · exact knows.ends
  · exact recoverLinked_spec mine directory knows

theorem recoverLink_spec {link : Nat} (recovers : isDead = true → op.recovers = some gone)
    (knows : Knows op gone none c (fun d => d.pendingKind = .grow) v) :
    Spec S op (recoverLink p gone phase isDead offset link) v (Ends op gone) := by
  unfold recoverLink
  split
  · exact recoverLinked_spec mine directory knows
  split
  · exact recoverLinked_spec mine directory knows
  split
  · next is =>
    refine .next (poisonDead_spec (recovers is)) fun _ => ?_
    exact recoverUnlinked_spec mine directory (c := true) ⟨knows.1, rfl, knows.2.2⟩
  · exact recoverUnlinked_spec mine directory knows

theorem recoverGrowth_spec (recovers : isDead = true → op.recovers = some gone)
    (knows : Knows op gone none c (fun d => d.pendingKind = .grow) v) :
    Spec S op (recoverGrowth p gone phase isDead) v (Ends op gone) := by
  refine .seq (stays (by exact .read) knows) ?_
  rintro (_ | predecessor) w₀ knows
  · exact knows.ends
  refine .seq (stays (by exact .read) knows) fun pending w₁ knows => ?_
  refine .seq (stays offsetOf_keeps knows) ?_
  rintro (error | offset) w₂ knows
  · exact knows.ends
  refine .seq (stays (walk_reads _ _).keeps knows) ?_
  rintro (error | ⟨⟩) w₃ knows
  · exact knows.ends
  exact .seq (stays (by exact .read) knows) fun link w₄ knows => recoverLink_spec mine directory recovers knows

theorem recoverOwned_spec (recovers : op.recovers = some gone) (other : gone ≠ op.owner)
    (knows : Knows op gone none c (fun _ => True) v) : Frees S op (recoverOwned S p gone phase) v := by
  refine .seq (glance_spec (f := Dir.pendingKind) knows) fun kind w₀ knows => ?_
  have knows : Knows op gone none c (fun d => d.pendingKind = kind) w₀ := knows.mono fun d h => h.2.symm
  split
  · next grows => exact (recoverGrowth_spec mine directory (fun _ => recovers) (grows.2 ▸ knows)).mono fun _ _ => Ends.free
  split
  · refine .seq (stays (by exact .read) knows) fun k w₁ knows => ?_
    exact .seq (stays (by exact .read) knows) fun e w₂ knows => recoverEntry_spec mine directory recovers other knows
  refine .seq (stays (transitionFrom_reads _ _).keeps knows) ?_
  rintro (error | _ | ⟨k, e⟩) w₁ knows
  · exact knows.1
  · exact recoverHeld_spec mine directory recovers knows
  · exact recoverEntry_spec mine directory recovers other knows

theorem recover_spec (recovers : op.recovers = some gone) (free : v.heap = none) (mode : v.mode = .free) :
    Frees S op (recover S p heapRegion gone) v := by
  unfold recover
  split
  · exact free
  -- the directory that the transaction word was read from
  refine .seq (R := fun txn v' => v'.heap = none ∧
    (txn.wordOwner = some gone → gone ≠ op.owner ∧ Knows op gone none v'.cleared (fun _ => True) v')) ?_ ?_
  · refine Protocol.Triple.read (fun _ => .refl _) fun s dead views t inv view _ => ?_
    have ok := Inv.view inv view
    by_cases owner : s.dir.transaction.wordOwner = some gone
    · refine ⟨{ v with mode := .saw gone s.dir }, Inv.learn inv view ⟨nofun, ?_, nofun, ok.heap, ok.cleared⟩ ?_ rfl,
        free, fun _ => ⟨?_, free, rfl, .inr (.inl ⟨s.dir, rfl, trivial⟩)⟩⟩
      · rintro _ _ ⟨⟩
        exact ⟨recovers, owner, fun _ => rfl⟩
      · intro d
        rw [mode]
        exact ⟨nofun, nofun⟩
      · rintro same
        have dead_ := Inv.gone inv view recovers
        rw [same] at dead_
        cases (Inv.alive inv view).symm.trans dead_
    · refine ⟨v, ?_, free, fun h => (owner h).elim⟩
      rw [update_same view]
      exact inv
  rintro (_ | ⟨owner, phase⟩) w₀ ⟨free, seen⟩
  · exact free
  dsimp only
  split
  · exact free
  next same =>
  obtain ⟨other, knows⟩ := seen (congrArg some (not_not.mp same))
  exact recoverOwned_spec mine directory recovers other knows

/-! ### Rolling back -/

theorem takeUp_spec (free : v.heap = none) (mode : v.mode = .free) : Spec S op (takeUp p) v fun taken v' =>
      match taken with
      | true => Work none (fun d => d.transaction = .owned p .rollingBack) v'
      | false => v' = v := by
  refine .exchange (fun _ => .refl _) (fun _ _ => rfl) fun s dead views t inv view cond rolling => ?_
  have ok := Inv.view inv view
  have books : Books S s.dir := Inv.books inv
  have creating : Creating s.dir → Strict s.dir ∨ s.heap.mutation = .poisoned ∨ s.heap.bound = true := Inv.creating inv
  have owner : s.dir.transaction.wordOwner = some op.owner := by
    rw [rolling, ← mine]
    rfl
  have nobody : Alone views t := by
    intro u op' w d ne hu has
    obtain ⟨dir, hand, directory'⟩ := (Inv.view inv hu).has has
    rcases cond with single | unhandled
    · rw [dir, hand.1] at owner
      exact ne (Inv.single inv single hu view directory' directory (Option.some.inj owner))
    · have unhandled := unhandled (mine ▸ rolling)
      rw [dir, hand.2] at unhandled
      cases unhandled
  have unbound : s.heap.bound ≠ true := by
    intro is
    obtain ⟨q, owner', -, works⟩ := Inv.bound inv is
    rw [owner] at owner'
    cases owner'
    obtain ⟨u, op', w, d, hu, has, -⟩ := works (Inv.alive inv view)
    by_cases here : u = t
    · subst here
      rw [view] at hu
      cases hu
      cases mode.symm.trans has
    · exact nobody here hu has
  refine ⟨{ v with mode := .has (s.dir.setHandled true) }, ?_, .same rfl, free, _, rfl, rolling⟩
  refine Inv.step inv view (.inr ⟨nobody, fun q eq => ?_⟩) (.inl ⟨rfl, rfl⟩) ⟨?_, nofun, nofun, ok.heap, ok.cleared⟩
    (fun _ _ => nobody) (fun holds => (holds free).elim) (books.same rfl) creating
    fun is => (unbound is).elim
  · cases eq.symm.trans owner
    exact Inv.alive inv view
  · rintro _ ⟨⟩
    exact ⟨rfl, ⟨owner, rfl⟩, directory⟩

omit mine directory in
theorem loadKindTaken_spec (here : Work none P v) : Spec S op loadKindTaken v fun kind w =>
    w.heap = none ∧ (kind ≠ .remove → Work none (fun d => P d ∧ d.pendingKind = kind) w) := by
  refine work_spec here fun s d fact dir books owned => ?_
  subst dir
  by_cases remove : s.dir.pendingKind = .remove
  · simp only [if_pos remove]
    exact ⟨trivial, trivial, books.same rfl, .same rfl, fun is => .inr (.inr ⟨is, id⟩), .inr ⟨trivial,
      fun q eq => Option.some.inj (eq.symm.trans owned.1), fun w free _ => ⟨free, fun other => (other remove).elim⟩⟩⟩
  · simp only [if_neg remove]
    exact ⟨trivial, trivial, books, .refl _, fun is => .inr (.inr ⟨is, id⟩),
      .inl ⟨owned, fun w holds has => ⟨holds, fun _ => ⟨holds, _, has, fact, rfl⟩⟩⟩⟩

omit mine directory in
/-- Nothing was issued under the generation that is set back. -/
theorem setBack_spec {word : EntryWord}
    (here : Work (some true) (fun d => ((Strict d ∧ k = d.pendingSlab) ∧ e = d.pendingEntry) ∧ word = (d.entry k e).word) v) :
    Spec S op (settleState k e ⟨word.generation - 1, .vacant⟩) v fun _ => Work (some true) fun _ => True := by
  refine store_spec stores_settle here (fun d fact books => ?_) (.inl rfl) fun _ _ _ _ _ _ _ _ => trivial
  obtain ⟨⟨⟨strict, rfl⟩, rfl⟩, rfl⟩ := fact
  have bounded := books.bounded d.pendingSlab d.pendingEntry
  refine ⟨?_, nofun, (Nat.sub_le _ _).trans bounded, nofun⟩
  by_cases zero : (d.entry d.pendingSlab d.pendingEntry).word.generation = 0
  · have reached := books.reached d.pendingSlab d.pendingEntry
    rwa [zero] at reached ⊢
  · rw [Nat.sub_add_cancel (by omega)]
    exact strict.1

omit directory in
theorem resumeCreate_spec (here : Work none (fun d => d.transaction = .owned p .rollingBack ∧ d.pendingKind = .create) v) :
    Frees S op (resumeCreate p) v := by
  refine .seq (beginHeld_spec here mine) ?_
  rintro (error | ⟨⟩) w₀ claimed
  · exact .seq (dropTransaction_spec mine claimed) fun _ _ free => free
  have here : Work (some true) Strict w₀ := claimed.mono fun d h => h.2 ⟨⟨p, .rollingBack, h.1.1, by simp⟩, h.1.2⟩
  refine .seq (look_spec (f := Dir.pending) here) fun pending w₁ here => ?_
  refine .seq (deallocateDuring_spec (here.mono fun d h => h.1) fun _ _ h => h) fun _ w₂ here => ?_
  refine .seq (look_spec (f := Dir.pendingSlab) here) fun k w₃ here => ?_
  refine .seq (look_spec (f := Dir.pendingEntry) here) fun e w₄ here => ?_
  refine .seq (stays (entry_reads _ _).keeps here) ?_
  rintro (error | ⟨⟩) w₅ here
  · refine .seq (poison_spec here) fun _ w₆ here => ?_
    exact .seq (dropTransaction_spec mine here) fun _ _ free => free
  refine .seq (look_spec (f := fun d => (d.entry k e).word) here) fun word w₆ here => ?_
  refine .seq (setBack_spec here) fun _ w₇ here => ?_
  refine .seq (clearPending_spec mine here (N := Held p) fun _ _ => rfl) fun _ w₈ here => ?_
  refine .seq (settle_spec here fun d held is => (not_creating_held held is).elim) fun _ w₉ here => ?_
  exact .seq (commit_spec here) fun _ _ free => free

omit mine directory in
theorem unhand_spec (own : gone = op.owner) (knows : Knows op gone none c P v) :
    Frees S op (update fun d => d.setHandled false) v := by
  intro s dead views t inv view allowed
  have ok := Inv.view inv view
  have alive : dead gone = false := own ▸ Inv.alive inv view
  obtain ⟨free, -, lost | ⟨d, saw, -⟩ | ⟨-, d, has, fact⟩⟩ := knows
  · cases alive.symm.trans (Inv.gone inv view (ok.lost lost).1)
  · cases alive.symm.trans (Inv.gone inv view (ok.saw saw).1)
  refine work_spec (P := P) (f := fun s => ({ s with dir := s.dir.setHandled false }, ())) ⟨free, d, has, fact⟩
    (fun s d _ dir books owned => ?_) s dead views t inv view allowed
  subst dir
  exact ⟨rfl, rfl, books.same rfl, .same rfl, fun is => .inr (.inr ⟨is, id⟩),
    .inr ⟨rfl, fun q eq => Option.some.inj (eq.symm.trans owned.1), fun _ free _ => free⟩⟩

theorem resumeGrowth_spec (here : Work none (fun d => d.pendingKind = .grow) v) : Frees S op (resumeGrowth p) v := by
  have knows : Knows op p none v.cleared (fun d => d.pendingKind = .grow) v := ⟨here.1, rfl, .inr (.inr ⟨mine, here.2⟩)⟩
  refine .seq (recoverGrowth_spec mine directory nofun knows) ?_
  rintro (error | result) w₀ ends
  · obtain ⟨c, knows⟩ := ends
    exact .seq (unhand_spec mine knows) fun _ _ free => free
  · exact ends

theorem resumeRollback_spec (free : v.heap = none) (mode : v.mode = .free) : Frees S op (resumeRollback p) v := by
  refine .seq (takeUp_spec mine directory free mode) ?_
  rintro (_ | _) w₀ taken
  · subst taken
    exact free
  refine .seq (loadKindTaken_spec taken) ?_
  rintro (_ | _ | _) w₁ ⟨free, here⟩
  · exact resumeCreate_spec mine (here nofun)
  · exact free
  · exact resumeGrowth_spec mine directory ((here nofun).mono fun d h => h.2)

theorem createBusy_spec {error : Error} (free : v.heap = none) (mode : v.mode = .free) : Frees S op (createBusy p error) v := by
  unfold createBusy
  split
  swap
  · exact free
  refine .next (keeps_spec .read) fun txn => ?_
  split
  · refine .seq (resumeRollback_spec mine directory free mode) ?_
    rintro (error | ⟨⟩) w₀ free <;> exact free
  · exact free

theorem create_spec {layout : Nat} {storage : Option Nat} (free : v.heap = none) (mode : v.mode = .free) :
    Frees S op (create S p heapRegion storage layout) v := by
  unfold create
  split
  · exact free
  split
  · exact free
  refine .seq (claim_spec mine free directory) ?_
  rintro (error | ⟨⟩) w₀ began
  · exact createBusy_spec mine directory (began ▸ free) (began ▸ mode)
  · exact createHeld_spec mine began

end Takeover

end Evering.Directory.Identity
