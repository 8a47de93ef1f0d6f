import Evering.Directory.Reading

/-!
# Generations of the entries

The generation of an entry rises when `create_in` reserves it and falls when a creation is undone, by its own thread, by a
recovery or by a resumed rollback. What was issued stays below: while the record of a creation is in force, nothing was
issued under the generation of its entry, unless the heap is poisoned or claimed for the transaction, and then no rollback
can be resumed. This module has the invariant, what a step of one thread may do, and the rules for a thread that has the
transaction or the heap in hand.
-/

namespace Evering.Directory.Identity

open Interleave List Views Protocol Function

/-! ### What was issued -/

/-- The identifiers of the entry that were issued have generations below `n`. -/
def Under (d : Dir) (k e n : Nat) : Prop :=
  ∀ x ∈ d.trail.issued, x.1.slab = k → x.1.entry = e → x.1.generation < n

structure Books (S : Setup) (d : Dir) : Prop where
  reached : ∀ k e, Under d k e ((d.entry k e).word.generation + 1)
  pending : ∀ k e, (d.entry k e).word.state = .pending → Under d k e (d.entry k e).word.generation
  bounded : ∀ k e, (d.entry k e).word.generation ≤ generationMax S.target
  unique : (d.trail.issued.map Prod.fst).Nodup
  placed : ∀ x ∈ d.trail.issued, x.1.region = S.region ∧ d.Linked x.1.slab ∧ x.1.entry < capacity

abbrev Held (p : Nat) (d : Dir) : Prop := d.transaction = .owned p .held

/-- The record of a creation is in force. -/
def Creating (d : Dir) : Prop :=
  (∃ p phase, d.transaction = .owned p phase ∧ phase ≠ .held) ∧ d.pendingKind = .create

/-- The pending entry exists, and nothing was issued under its generation. -/
def Strict (d : Dir) : Prop :=
  Under d d.pendingSlab d.pendingEntry (d.entry d.pendingSlab d.pendingEntry).word.generation ∧
    d.Linked d.pendingSlab ∧ d.pendingEntry < capacity

section Books

variable {S : Setup} {d d' : Dir} {k e n m : Nat}

theorem Under.mono (h : Under d k e n) (le : n ≤ m) : Under d k e m :=
  fun x mem slab entry => Nat.lt_of_lt_of_le (h x mem slab entry) le

theorem Under.same (h : Under d k e n) (issued : d'.trail.issued = d.trail.issued) : Under d' k e n :=
  fun x mem => h x (issued ▸ mem)

theorem Books.keeps_placed (books : Books S d) (issued : d'.trail.issued = d.trail.issued) (next : d'.next = d.next) :
    ∀ x ∈ d'.trail.issued, x.1.region = S.region ∧ d'.Linked x.1.slab ∧ x.1.entry < capacity := by
  unfold Dir.Linked
  rw [issued, next]
  exact books.placed

theorem entry_setWord (d : Dir) (k e : Nat) (w : EntryWord) (k' e' : Nat) :
    ((d.setWord k e w).entry k' e').word = if k' = k ∧ e' = e then w else (d.entry k' e').word := by
  unfold Dir.setWord Dir.setEntry
  by_cases slab : k' = k
  · subst slab
    by_cases entry : e' = e
    · subst entry
      simp
    · simp [entry]
  · simp [slab]

theorem Books.setWord (books : Books S d) {w : EntryWord} (words : ∀ k' e', (d'.entry k' e').word =
      if k' = k ∧ e' = e then w else (d.entry k' e').word) (issued : d'.trail.issued = d.trail.issued)
    (next : d'.next = d.next) (reached : Under d k e (w.generation + 1)) (pending : w.state = .pending → Under d k e w.generation)
    (bounded : w.generation ≤ generationMax S.target) : Books S d' where
  reached := fun k' e' => by
    rw [words]
    split
    · next here => exact here.1 ▸ here.2 ▸ reached.same issued
    · exact (books.reached k' e').same issued
  pending := fun k' e' => by
    rw [words]
    split
    · next here => exact fun is => here.1 ▸ here.2 ▸ (pending is).same issued
    · exact fun is => (books.pending k' e' is).same issued
  bounded := fun k' e' => by
    rw [words]
    split
    · exact bounded
    · exact books.bounded k' e'
  unique := issued ▸ books.unique
  placed := books.keeps_placed issued next

/-- What the books depend on -/
def core (d : Dir) : (Nat → Nat → EntryWord) × List (Id × Nat) × (Nat → Nat) :=
  (fun k e => (d.entry k e).word, d.trail.issued, d.next)

theorem word_core (same : core d' = core d) (k e : Nat) : (d'.entry k e).word = (d.entry k e).word :=
  congrFun (congrFun (congrArg Prod.fst same) k) e

theorem issued_core (same : core d' = core d) : d'.trail.issued = d.trail.issued := congrArg (·.2.1) same

theorem Books.same (books : Books S d) (same : core d' = core d) : Books S d' where
  reached := fun k e => by
    rw [word_core same]
    exact (books.reached k e).same (issued_core same)
  pending := fun k e => by
    rw [word_core same]
    exact fun is => (books.pending k e is).same (issued_core same)
  bounded := fun k e => by
    rw [word_core same]
    exact books.bounded k e
  unique := issued_core same ▸ books.unique
  placed := books.keeps_placed (issued_core same) (congrArg (·.2.2) same)

theorem Books.link (books : Books S d) {offset : Nat} (real : offset ≠ 0) :
    Books S { d with next := Function.update d.next k offset } where
  reached := books.reached
  pending := books.pending
  bounded := books.bounded
  unique := books.unique
  placed := fun x mem => by
    obtain ⟨region, linked, inside⟩ := books.placed x mem
    refine ⟨region, fun j lt => ?_, inside⟩
    dsimp only
    by_cases here : j = k
    · rw [here, update_self]
      exact real
    · rw [update_of_ne here]
      exact linked j lt

theorem Books.issue (books : Books S d) (id : Id) (offset : Nat) (words : ∀ k e, (d'.entry k e).word = (d.entry k e).word)
    (issued : d'.trail.issued = (id, offset) :: d.trail.issued) (fresh : Under d id.slab id.entry id.generation)
    (reached : id.generation ≤ (d.entry id.slab id.entry).word.generation)
    (published : (d.entry id.slab id.entry).word.state ≠ .pending) (next : d'.next = d.next)
    (placed : id.region = S.region ∧ d.Linked id.slab ∧ id.entry < capacity) : Books S d' where
  reached := fun k e x mem slab entry => by
    rw [words]
    rw [issued] at mem
    rcases mem_cons.mp mem with rfl | old
    · subst slab entry
      exact Nat.lt_succ_of_le reached
    · exact books.reached k e x old slab entry
  pending := fun k e is x mem slab entry => by
    rw [words] at is ⊢
    rw [issued] at mem
    rcases mem_cons.mp mem with rfl | old
    · subst slab entry
      exact (published is).elim
    · exact books.pending k e is x old slab entry
  bounded := fun k e => by
    rw [words]
    exact books.bounded k e
  unique := by
    rw [issued]
    refine nodup_cons.mpr ⟨fun mem => ?_, books.unique⟩
    obtain ⟨x, old, same⟩ := mem_map.mp mem
    have := fresh x old (congrArg Id.slab same) (congrArg Id.entry same)
    rw [same] at this
    exact Nat.lt_irrefl _ this
  placed := fun x mem => by
    unfold Dir.Linked
    rw [next]
    rw [issued] at mem
    rcases mem_cons.mp mem with rfl | old
    · exact placed
    · exact books.placed x old

theorem not_creating_held {p : Nat} (held : Held p d) : ¬Creating d := by
  rintro ⟨⟨q, phase, owned, unheld⟩, -⟩
  rw [held] at owned
  cases owned
  exact unheld rfl

theorem not_creating_clean (clean : d.transaction = .clean) : ¬Creating d := by
  rintro ⟨⟨q, phase, owned, -⟩, -⟩
  rw [clean] at owned
  cases owned

theorem not_creating_kind (other : d.pendingKind ≠ .create) : ¬Creating d := fun h => other h.2

end Books

/-! ### Threads -/

inductive Mode
  | free
  /-- the thread has the transaction in hand, and the directory is `d` -/
  | has (d : Dir)
  /-- a recoverer has seen the directory `d` with the transaction of the dead -/
  | saw (gone : Nat) (d : Dir)
  /-- somebody else has taken the transaction of the dead over -/
  | lost (gone : Nat)

structure View where
  mode : Mode
  /-- the thread has claimed the heap, perhaps for the transaction -/
  heap : Option Bool
  /-- the thread knows that the dead has no claim of the heap -/
  cleared : Bool

/-- A thread of `p` works on the transaction. -/
def InHand (p : Nat) (d : Dir) : Prop := d.transaction.wordOwner = some p ∧ d.trail.handled = true

structure View.Ok (s : Shared) (op : Op) (v : View) : Prop where
  has : ∀ {d}, v.mode = .has d → s.dir = d ∧ InHand op.owner d ∧ op.isDirectory = true
  saw : ∀ {p d}, v.mode = .saw p d → op.recovers = some p ∧ d.transaction.wordOwner = some p ∧
    (s.dir.transaction.wordOwner = some p → s.dir = d)
  lost : ∀ {p}, v.mode = .lost p → op.recovers = some p ∧ s.dir.transaction.wordOwner ≠ some p
  heap : ∀ {b}, v.heap = some b → s.heap.mutation = .owned op.owner ∧ s.heap.bound = b
  cleared : v.cleared = true → ∀ {p}, op.recovers = some p → s.heap.mutation ≠ .owned p

structure Inv (S : Setup) (s : Shared) (dead : Nat → Bool) (views : Views Op View) : Prop where
  alive : ∀ {t op v}, views t = some (op, v) → dead op.owner = false
  gone : ∀ {t op v p}, views t = some (op, v) → op.recovers = some p → dead p = true
  single : ∀ {t t' op op' v v'}, S.single = true → views t = some (op, v) → views t' = some (op', v') → op.isDirectory = true →
    op'.isDirectory = true → op.owner = op'.owner → t = t'
  view : ∀ {t op v}, views t = some (op, v) → v.Ok s op
  one : ∀ {t t' op op' v v' d d'}, views t = some (op, v) → views t' = some (op', v') → v.mode = .has d → v'.mode = .has d' →
    t = t'
  oneHeap : ∀ {t t' op op' v v'}, views t = some (op, v) → views t' = some (op', v') → v.heap ≠ none → v'.heap ≠ none → t = t'
  books : Books S s.dir
  creating : Creating s.dir → Strict s.dir ∨ s.heap.mutation = .poisoned ∨ s.heap.bound = true
  bound : s.heap.bound = true → ∃ p, s.dir.transaction.wordOwner = some p ∧ s.heap.mutation = .owned p ∧
    (dead p = false → ∃ t op v d, views t = some (op, v) ∧ v.mode = .has d ∧ v.heap = some true)
  left : ∀ {p}, s.dir.transaction.wordOwner = some p → dead p = true → s.dir.trail.handled = false

/-- The identifier is not accepted, and no removal of it can fail any more. -/
def Ended (d : Dir) (id : Id) : Prop :=
  (d.entry id.slab id.entry).word.generation = id.generation →
    (d.entry id.slab id.entry).word.state ≠ .published ∧ (d.entry id.slab id.entry).word.state ≠ .closing

/-- What was issued stays issued, and what has ended does not come back. -/
def Keeps (d d' : Dir) : Prop :=
  ∀ x ∈ d.trail.issued, x ∈ d'.trail.issued ∧ (Ended d x.1 → Ended d' x.1)

/-- Nobody has the transaction in hand when a thread takes it up. -/
def Unhandled (op : Op) : Site → Shared → Prop
  | .resume, s => s.dir.transaction = .owned op.owner .rollingBack → s.dir.trail.handled = false
  | .plain, _ => True

def protocol (S : Setup) : Protocol Shared Site Op View where
  inv := Inv S
  idle := fun v => v.heap = none
  guar := fun s s' => Keeps s.dir s'.dir
  cond := fun op site s => S.single = true ∨ Unhandled op site s

abbrev Spec {β : Type} (S : Setup) (op : Op) (prog : DirProg β) (v : View) (Q : β → View → Prop) : Prop :=
  (protocol S).Triple op prog v Q

/-- The program ends without the heap. -/
abbrev Frees {β : Type} (S : Setup) (op : Op) (prog : DirProg β) (v : View) : Prop := Spec S op prog v fun _ v' => v'.heap = none

section Steps

variable {S : Setup} {β : Type} {s s' : Shared} {dead : Nat → Bool} {views : Views Op View} {t : Nat} {op : Op} {v v' : View}
  {d d' : Dir}

/-- No other thread has the transaction in hand. -/
def Alone (views : Views Op View) (t : Nat) : Prop :=
  ∀ {u op' w d}, u ≠ t → views u = some (op', w) → w.mode ≠ .has d

def AloneHeap (views : Views Op View) (t : Nat) : Prop := ∀ {u op' w}, u ≠ t → views u = some (op', w) → w.heap = none

theorem Inv.alone (inv : Inv S s dead views) (ht : views t = some (op, v)) (has : v.mode = .has d) : Alone views t :=
  fun ne hu has' => ne (inv.one hu ht has' has)

theorem Inv.aloneHeap (inv : Inv S s dead views) (ht : views t = some (op, v)) (holds : v.heap ≠ none) : AloneHeap views t := by
  intro u op' w ne hu
  by_contra other
  exact ne (inv.oneHeap hu ht other holds)

/-- **Step of one thread.** It changes the directory only if no other thread has the transaction in hand, and the claim of
the heap only if no other thread has it. -/
theorem Inv.step (inv : Inv S s dead views) (ht : views t = some (op, v))
    (dir : s'.dir = s.dir ∨ Alone views t ∧ ∀ p, s'.dir.transaction.wordOwner = some p → dead p = false)
    (heap : (s'.heap.mutation = s.heap.mutation ∧ s'.heap.bound = s.heap.bound) ∨
      AloneHeap views t ∧ ∀ p, s'.heap.mutation = .owned p → dead p = false ∨ s.heap.mutation = .owned p)
    (ok : v'.Ok s' op) (alone : ∀ d, v'.mode = .has d → Alone views t) (aloneHeap : v'.heap ≠ none → AloneHeap views t)
    (books : Books S s'.dir)
    (creating : Creating s'.dir → Strict s'.dir ∨ s'.heap.mutation = .poisoned ∨ s'.heap.bound = true)
    (bound : s'.heap.bound = true → ∃ p, s'.dir.transaction.wordOwner = some p ∧ s'.heap.mutation = .owned p ∧
      (dead p = false → ((∃ d, v'.mode = .has d) ∧ v'.heap = some true) ∨
        ∃ u op' w d, u ≠ t ∧ views u = some (op', w) ∧ w.mode = .has d ∧ w.heap = some true)) :
    Inv S s' dead (Function.update views t (some (op, v'))) := by
  constructor
  case alive => exact Views.put (inv.alive ht) fun _ => inv.alive
  case gone => exact Views.put (inv.gone ht) fun _ => inv.gone
  case single =>
    exact fun single => Views.put_pair (fun _ _ _ => rfl) (fun _ => inv.single single ht) (fun _ old => inv.single single old ht)
      (inv.single single)
  case view =>
    intro u op' w hu
    rcases update_cases hu with ⟨-, rfl, rfl⟩ | ⟨ne, old⟩
    · exact ok
    have okay := inv.view old
    constructor
    case has =>
      intro d has
      rcases dir with same | ⟨nobody, -⟩
      · rw [same]
        exact okay.has has
      · exact (nobody ne old has).elim
    case saw =>
      intro p d saw
      obtain ⟨recovers, owner, kept⟩ := okay.saw saw
      refine ⟨recovers, owner, fun still => ?_⟩
      rcases dir with same | ⟨-, alive⟩
      · rw [same] at still ⊢
        exact kept still
      · cases (inv.gone old recovers).symm.trans (alive p still)
    case lost =>
      intro p lost
      obtain ⟨recovers, other⟩ := okay.lost lost
      refine ⟨recovers, fun still => ?_⟩
      rcases dir with same | ⟨-, alive⟩
      · rw [same] at still
        exact other still
      · cases (inv.gone old recovers).symm.trans (alive p still)
    case heap =>
      intro b holds
      rcases heap with ⟨mutation, bound⟩ | ⟨nobody, -⟩
      · rw [mutation, bound]
        exact okay.heap holds
      · cases (nobody ne old).symm.trans holds
    case cleared =>
      intro cleared p recovers owned
      rcases heap with ⟨mutation, -⟩ | ⟨-, alive⟩
      · exact okay.cleared cleared recovers (mutation ▸ owned)
      · rcases alive p owned with alive | before
        · cases (inv.gone old recovers).symm.trans alive
        · exact okay.cleared cleared recovers before
  case one =>
    exact Views.put_pair (fun _ _ => rfl) (fun ne old has has' => (alone _ has ne old has').elim)
      (fun ne old has has' => (alone _ has' ne old has).elim) inv.one
  case oneHeap =>
    exact Views.put_pair (fun _ _ => rfl) (fun ne old holds holds' => (holds' (aloneHeap holds ne old)).elim)
      (fun ne old holds holds' => (holds (aloneHeap holds' ne old)).elim) inv.oneHeap
  case books => exact books
  case creating => exact creating
  case bound =>
    intro bound_
    obtain ⟨p, owner, mutation, works⟩ := bound bound_
    refine ⟨p, owner, mutation, fun alive => ?_⟩
    rcases works alive with ⟨⟨d, has⟩, holds⟩ | ⟨u, op', w, d, ne, hu, has, holds⟩
    · exact ⟨t, op, v', d, update_self .., has, holds⟩
    · exact ⟨u, op', w, d, (update_of_ne ne ..).trans hu, has, holds⟩
  case left =>
    intro p owner gone
    rcases dir with same | ⟨-, alive⟩
    · rw [same] at owner ⊢
      exact inv.left owner gone
    · cases gone.symm.trans (alive p owner)

theorem Keeps.refl (d : Dir) : Keeps d d := fun _ mem => ⟨mem, id⟩

theorem Keeps.trans {d₁ d₂ d₃ : Dir} (h : Keeps d₁ d₂) (h' : Keeps d₂ d₃) : Keeps d₁ d₃ := by
  intro x mem
  obtain ⟨mem', ended⟩ := h x mem
  obtain ⟨mem'', ended'⟩ := h' x mem'
  exact ⟨mem'', ended' ∘ ended⟩

theorem Keeps.more (words : ∀ k e, (d'.entry k e).word = (d.entry k e).word)
    (issued : ∀ x ∈ d.trail.issued, x ∈ d'.trail.issued) :
    Keeps d d' := fun x mem => ⟨issued x mem, by
  unfold Ended
  rw [words]
  exact id⟩

theorem Keeps.same (same : core d' = core d) : Keeps d d' :=
  .more (word_core same) fun x mem => by rwa [issued_core same]

/-- An entry gets a new word; it is open after that only if it was, or under a new generation. -/
theorem Keeps.setWord {k e : Nat} {w : EntryWord}
    (words : ∀ k' e', (d'.entry k' e').word = if k' = k ∧ e' = e then w else (d.entry k' e').word)
    (issued : d'.trail.issued = d.trail.issued) (opens : w.state = .published ∨ w.state = .closing →
      Under d k e w.generation ∨ (d.entry k e).word.generation = w.generation ∧
        ((d.entry k e).word.state = .published ∨ (d.entry k e).word.state = .closing)) : Keeps d d' := by
  intro x mem
  refine ⟨issued ▸ mem, fun ended => ?_⟩
  unfold Ended at ended ⊢
  rw [words]
  split
  · next here =>
    intro same
    by_contra is_open
    have is_open : w.state = .published ∨ w.state = .closing := by
      by_contra neither
      exact is_open ⟨fun h => neither (.inl h), fun h => neither (.inr h)⟩
    rcases opens is_open with under | ⟨same', was⟩
    · have := under x mem here.1 here.2
      omega
    · rw [here.1, here.2] at ended
      have closed := ended (same'.trans same)
      rcases was with was | was
      · exact closed.1 was
      · exact closed.2 was
  · exact ended

def face (s : Shared) : Dir × Mutation × Bool := (s.dir, s.heap.mutation, s.heap.bound)

theorem Inv.still (inv : Inv S s dead views) (same : face s' = face s) : Inv S s' dead views := by
  have dir : s'.dir = s.dir := congrArg Prod.fst same
  have mutation : s'.heap.mutation = s.heap.mutation := congrArg (fun x => x.2.1) same
  have bound : s'.heap.bound = s.heap.bound := congrArg (fun x => x.2.2) same
  refine ⟨inv.alive, inv.gone, inv.single, fun hu => ?_, inv.one, inv.oneHeap, dir ▸ inv.books, ?_, ?_, dir ▸ inv.left⟩
  · have ok := inv.view hu
    exact ⟨fun h => dir ▸ ok.has h, fun h => dir ▸ ok.saw h, fun h => dir ▸ ok.lost h, fun h => mutation ▸ bound ▸ ok.heap h,
      fun h => mutation ▸ ok.cleared h⟩
  · rw [dir, mutation, bound]
    exact inv.creating
  · rw [dir, mutation, bound]
    exact inv.bound

variable {prog : DirProg β} {site : Site} {b : Bool} {m : Mutation} {gone : Nat}

theorem keeps_spec (keeps : prog.Keeps face) : Spec S op prog v fun _ v' => v' = v := by
  induction prog with
  | done a => exact rfl
  | choose next ih => exact fun n => ih n (keeps n)
  | atomic site act next ih =>
    intro s dead views t inv view _
    refine ⟨v, ?_, ?_, ih s (keeps s).2⟩
    · rw [update_same view]
      exact Inv.still inv (keeps s).1
    · show Keeps s.dir (act s).dir
      rw [show (act s).dir = s.dir from congrArg Prod.fst (keeps s).1]
      exact .refl _

theorem stays (keeps : prog.Keeps face) {P : View → Prop} (h : P v) : Spec S op prog v fun _ => P :=
  (keeps_spec keeps).mono fun _ _ same => same ▸ h

/-! ### A thread with the transaction in hand -/

/-- The thread has the transaction in hand, with `P` true of the directory, and perhaps the heap. -/
def Work (hp : Option Bool) (P : Dir → Prop) (v : View) : Prop := v.heap = hp ∧ ∃ d, v.mode = .has d ∧ P d

variable {hp : Option Bool} {P N : Dir → Prop}

theorem Work.mono (here : Work hp P v) (weaker : ∀ d, P d → N d) : Work hp N v :=
  ⟨here.1, here.2.imp fun d h => ⟨h.1, weaker d h.2⟩⟩

theorem Inv.bound_own (inv : Inv S s dead views) (ht : views t = some (op, v)) (has : v.mode = .has d)
    (bound : s.heap.bound = true) : s.heap.mutation = .owned op.owner ∧ v.heap = some true := by
  obtain ⟨p, owner, mutation, works⟩ := inv.bound bound
  obtain ⟨dir, ⟨owner', -⟩, -⟩ := (inv.view ht).has has
  rw [dir, owner'] at owner
  cases owner
  obtain ⟨u, op', w, d', hu, has', holds⟩ := works (inv.alive ht)
  cases inv.one hu ht has' has
  rw [ht] at hu
  cases hu
  exact ⟨mutation, holds⟩

/-- One action on the directory by the thread that has the transaction in hand, which it keeps or leaves -/
theorem work_spec {f : Shared → Shared × β} {Q : β → View → Prop} (here : Work hp P v)
    (h : ∀ s d, P d → s.dir = d → Books S d → InHand op.owner d →
      (f s).1.heap.mutation = s.heap.mutation ∧ (f s).1.heap.bound = s.heap.bound ∧ Books S (f s).1.dir ∧ Keeps d (f s).1.dir ∧
      (Creating (f s).1.dir → Strict (f s).1.dir ∨ hp = some true ∨ Creating d ∧ (Strict d → Strict (f s).1.dir)) ∧
      (InHand op.owner (f s).1.dir ∧ (∀ w, w.heap = hp → w.mode = .has (f s).1.dir → Q (f s).2 w) ∨
        hp = none ∧ (∀ p, (f s).1.dir.transaction.wordOwner = some p → p = op.owner) ∧
          ∀ w, w.heap = none → w.mode = .free → Q (f s).2 w)) : Spec S op (.action site f) v Q := by
  refine Protocol.Triple.action fun s dead views t inv view _ => ?_
  obtain ⟨holds, d, has, fact⟩ := here
  obtain ⟨dir, owner, directory⟩ := (Inv.view inv view).has has
  obtain ⟨mutation, bound, books, keeps, creating, next⟩ := h s d fact dir (dir ▸ Inv.books inv) owner
  have alone : Alone views t := Inv.alone inv view has
  have created (is : Creating (f s).1.dir) : Strict (f s).1.dir ∨ (f s).1.heap.mutation = .poisoned ∨
    (f s).1.heap.bound = true := by
    rw [mutation, bound]
    rcases creating is with strict | claimed | ⟨was, strict⟩
    · exact .inl strict
    · exact .inr (.inr ((Inv.view inv view).heap (holds.trans claimed)).2)
    · rw [← dir] at was strict
      exact (Inv.creating inv was).imp_left strict
  have ok := Inv.view inv view
  rw [← dir] at keeps
  rcases next with ⟨owner', post⟩ | ⟨rfl, owner', post⟩
  · refine ⟨{ v with mode := .has (f s).1.dir }, ?_, keeps, post _ holds rfl⟩
    refine Inv.step inv view (.inr ⟨alone, fun p eq => ?_⟩) (.inl ⟨mutation, bound⟩) ⟨?_, nofun, nofun, ?_, ?_⟩
      (fun _ _ => alone) (fun other => Inv.aloneHeap inv view other) books created fun is => ?_
    · rw [owner'.1] at eq
      cases eq
      exact Inv.alive inv view
    · intro d' eq
      cases eq
      exact ⟨rfl, owner', directory⟩
    · rw [mutation, bound]
      exact ok.heap
    · rw [mutation]
      exact ok.cleared
    · rw [bound] at is
      obtain ⟨mutation', claimed⟩ := Inv.bound_own inv view has is
      exact ⟨op.owner, owner'.1, mutation.trans mutation', fun _ => .inl ⟨⟨_, rfl⟩, claimed⟩⟩
  · refine ⟨{ v with mode := .free }, ?_, keeps, post _ holds rfl⟩
    refine Inv.step inv view (.inr ⟨alone, fun p eq => ?_⟩) (.inl ⟨mutation, bound⟩) ⟨nofun, nofun, nofun, ?_, ?_⟩
      nofun (fun other => Inv.aloneHeap inv view other) books created fun is => ?_
    · rw [owner' p eq]
      exact Inv.alive inv view
    · rw [mutation, bound]
      exact ok.heap
    · rw [mutation]
      exact ok.cleared
    · rw [bound] at is
      cases holds.symm.trans (Inv.bound_own inv view has is).2

theorem update_spec {f : Dir → Dir} (here : Work hp P v)
    (h : ∀ d, P d → Books S d → InHand op.owner d → InHand op.owner (f d) ∧
      Books S (f d) ∧ Keeps d (f d) ∧
      (Creating (f d) → Strict (f d) ∨ hp = some true ∨ Creating d ∧ (Strict d → Strict (f d))) ∧ N (f d)) :
    Spec S op (update f) v fun _ => Work hp N := by
  refine work_spec (f := fun s => ({ s with dir := f s.dir }, ())) here fun s d fact dir books owner => ?_
  subst dir
  obtain ⟨owner', books', keeps, creating, fact'⟩ := h s.dir fact books owner
  exact ⟨rfl, rfl, books', keeps, creating, .inl ⟨owner', fun w holds has => ⟨holds, _, has, fact'⟩⟩⟩

theorem find_spec (reads : Reading prog) (here : Work hp P v) :
    Spec S op prog v fun a => Work hp fun d => P d ∧ a = prog.result { Shared.init with dir := d } := by
  obtain ⟨holds, d, has, fact⟩ := here
  refine (Triple.known reads (fun s => Keeps.refl s.dir) { Shared.init with dir := d } fun inv view =>
    ((Inv.view inv view).has has).1).mono ?_
  rintro _ _ ⟨rfl, rfl⟩
  exact ⟨holds, d, has, fact, rfl⟩

theorem look_spec {f : Dir → β} (here : Work hp P v) :
    Spec S op (Prog.read .plain fun s => f s.dir) v fun a => Work hp fun d => P d ∧ a = f d :=
  find_spec (.load f) here

theorem Inv.learn (inv : Inv S s dead views) (ht : views t = some (op, v)) (ok : v'.Ok s op)
    (has : ∀ {d}, v.mode = .has d ↔ v'.mode = .has d) (heap : v'.heap = v.heap) :
    Inv S s dead (Function.update views t (some (op, v'))) := by
  refine inv.step ht (.inl rfl) (.inl ⟨rfl, rfl⟩) ok (fun d h => inv.alone ht (has.mpr h))
    (fun h => inv.aloneHeap ht (heap ▸ h)) inv.books inv.creating fun bound => ?_
  obtain ⟨p, owner, mutation, works⟩ := inv.bound bound
  refine ⟨p, owner, mutation, fun alive => ?_⟩
  obtain ⟨u, op', w, d, hu, has', holds⟩ := works alive
  by_cases here : u = t
  · subst here
    rw [ht] at hu
    cases hu
    exact .inl ⟨⟨d, has.mp has'⟩, heap.trans holds⟩
  · exact .inr ⟨u, op', w, d, here, hu, has', holds⟩

/-! ### The claim of the heap -/

theorem Inv.unclaimed (inv : Inv S s dead views) (other : ∀ p, s.heap.mutation = .owned p → dead p = true) :
    ∀ {u op' w}, views u = some (op', w) → w.heap = none := by
  intro u op' w hu
  rcases holds : w.heap with _ | b
  · rfl
  · have owned := ((inv.view hu).heap holds).1
    cases (other _ owned).symm.trans (inv.alive hu)

theorem Inv.unbound (inv : Inv S s dead views) (clean : s.heap.mutation = .clean) : s.heap.bound = false := by
  by_contra is
  obtain ⟨p, -, owned, -⟩ := inv.bound (by simpa using is)
  rw [clean] at owned
  cases owned

theorem Inv.strict (inv : Inv S s dead views) (clean : s.heap.mutation = .clean) (creating : Creating s.dir) : Strict s.dir := by
  rcases inv.creating creating with strict | poisoned | bound
  · exact strict
  · rw [clean] at poisoned
    cases poisoned
  · rw [inv.unbound clean] at bound
    cases bound

/-- What the claim of the heap gives -/
def Begun (b : Bool) (v : View) : Except HeapError Unit → View → Prop
  | .ok _, v' => v' = { v with heap := some b } ∧ ∀ d, v.mode = .has d → Creating d → Strict d
  | .error _, v' => v' = v

theorem begin_spec (hand : b = true → ∃ d, v.mode = .has d) {p : Nat} (mine : p = op.owner) :
    Spec S op (beginMutation p b) v (Begun b v) := by
  refine Protocol.Triple.action fun s dead views t inv view _ => ?_
  rcases word : s.heap.mutation with _ | busy | _
  · have nobody : AloneHeap views t := fun _ hu => Inv.unclaimed inv (by rw [word]; nofun) hu
    have ok := Inv.view inv view
    have books : Books S s.dir := Inv.books inv
    have strict : Creating s.dir → Strict s.dir := Inv.strict inv word
    refine ⟨{ v with heap := some b }, ?_, .refl _, rfl, fun d has => ?_⟩
    · refine Inv.step inv view (.inl rfl) (.inr ⟨nobody, fun q eq => .inl ?_⟩) ⟨ok.has, ok.saw, ok.lost, ?_, ?_⟩
        (fun d h => Inv.alone inv view h) (fun _ => nobody) books (fun is => .inl (strict is)) fun is => ?_
      · cases eq
        exact mine ▸ Inv.alive inv view
      · rintro _ ⟨⟩
        exact ⟨congrArg Mutation.owned mine, rfl⟩
      · intro _ q recovers eq
        cases eq
        cases (Inv.gone inv view recovers).symm.trans (mine ▸ Inv.alive inv view)
      · obtain ⟨d, has⟩ := hand is
        obtain ⟨dir, owner, -⟩ := ok.has has
        refine ⟨op.owner, dir ▸ owner.1, congrArg Mutation.owned mine, fun _ => .inl ⟨⟨d, has⟩, ?_⟩⟩
        exact congrArg some is
    · obtain ⟨dir, -⟩ := ok.has has
      exact dir ▸ Inv.strict inv word
  · refine ⟨v, ?_, .refl _, rfl⟩
    rw [update_same view]
    exact inv
  · refine ⟨v, ?_, .refl _, rfl⟩
    rw [update_same view]
    exact inv

theorem release_spec (holds : v.heap = some b) (free : ∀ p, m ≠ .owned p)
    (strict : m = .poisoned ∨ ∀ d, v.mode = .has d → Creating d → Strict d) :
    Spec S op (Prog.write site fun s => { s with heap := s.heap.setMutation m false }) v
      fun _ v' => v' = { v with heap := none } := by
  refine Protocol.Triple.write fun s dead views t inv view _ => ?_
  have ok := Inv.view inv view
  have books : Books S s.dir := Inv.books inv
  obtain ⟨owned, bound⟩ := ok.heap holds
  refine ⟨{ v with heap := none }, ?_, .refl _, rfl⟩
  refine Inv.step inv view (.inl rfl) (.inr ⟨Inv.aloneHeap inv view (by simp [holds]), fun q eq => (free q eq).elim⟩)
    ⟨ok.has, ok.saw, ok.lost, nofun, fun _ _ _ => free _⟩ (fun d h => Inv.alone inv view h) (fun h => (h rfl).elim) books
    (fun is => ?_) nofun
  rcases strict with poisoned | strict
  · exact .inr (.inl poisoned)
  rcases Inv.creating inv is with already | poisoned | is_bound
  · exact .inl already
  · rw [owned] at poisoned
    cases poisoned
  · obtain ⟨p, -, owned', works⟩ := Inv.bound inv is_bound
    rw [owned] at owned'
    cases owned'
    obtain ⟨u, op', w, d, hu, has, holds'⟩ := works (Inv.alive inv view)
    cases Inv.oneHeap inv hu view (by simp [holds']) (by simp [holds])
    rw [view] at hu
    cases hu
    obtain ⟨dir, -⟩ := ok.has has
    exact .inl (dir ▸ strict d has (dir ▸ is))

theorem commitMutation_spec (holds : v.heap = some b) (strict : ∀ d, v.mode = .has d → Creating d → Strict d) :
    Spec S op commitMutation v fun _ v' => v' = { v with heap := none } :=
  release_spec holds (fun _ h => by cases h) (.inr strict)

theorem dropMutation_spec (holds : v.heap = some b) : Spec S op dropMutation v fun _ v' => v' = { v with heap := none } :=
  release_spec holds (fun _ h => by cases h) (.inl rfl)

theorem Inv.disown (inv : Inv S s dead views) (ht : views t = some (op, v)) (recovers : op.recovers = some gone)
    (owned : s.heap.mutation = .owned gone) (free : ∀ p, m ≠ .owned p)
    (creating : Creating s.dir → Strict s.dir ∨ m = .poisoned) (mode : v'.mode = v.mode) (heap : v'.heap = v.heap) :
    Inv S { s with heap := s.heap.setMutation m false } dead (Function.update views t (some (op, v'))) := by
  have gone_ := inv.gone ht recovers
  have nobody : ∀ {u op' w}, views u = some (op', w) → w.heap = none :=
    inv.unclaimed fun p eq => by
      rw [owned] at eq
      cases eq
      exact gone_
  have ok := inv.view ht
  have none_ : v'.heap = none := heap.trans (nobody ht)
  refine inv.step ht (.inl rfl) (.inr ⟨fun _ hu => nobody hu, fun q eq => (free q eq).elim⟩)
    ⟨fun h => ok.has (mode ▸ h), fun h => ok.saw (mode ▸ h), fun h => ok.lost (mode ▸ h), fun h => ?_, fun _ _ _ => free _⟩
    (fun d h => inv.alone ht (mode ▸ h)) (fun h => (h none_).elim) inv.books (fun is => (creating is).imp_right .inl) nofun
  rw [none_] at h
  cases h

theorem poisonOwner_spec (recovers : op.recovers = some gone) :
    Spec S op (poisonOwner gone) v fun _ v' => v' = { v with cleared := true } := by
  refine Protocol.Triple.action fun s dead views t inv view _ => ?_
  by_cases owned : s.heap.mutation = .owned gone
  · rw [if_pos owned]
    exact ⟨{ v with cleared := true }, Inv.disown inv view recovers owned (fun _ h => by cases h)
      (fun _ => .inr rfl) rfl rfl, .refl _, rfl⟩
  · rw [if_neg owned]
    have ok := Inv.view inv view
    refine ⟨{ v with cleared := true }, Inv.learn inv view ⟨ok.has, ok.saw, ok.lost, ok.heap, fun _ p eq => ?_⟩ Iff.rfl rfl,
      .refl _, rfl⟩
    rw [recovers] at eq
    cases eq
    exact owned

theorem poisonDead_spec (recovers : op.recovers = some gone) :
    Spec S op (poisonDead gone) v fun _ v' => v' = { v with cleared := true } := by
  refine .seq (R := fun m v' => v' = v ∧ m = .owned gone ∨ v' = { v with cleared := true } ∧ m ≠ .owned gone) ?_ ?_
  · refine Protocol.Triple.read (fun _ => .refl _) fun s dead views t inv view _ => ?_
    by_cases owned : s.heap.mutation = .owned gone
    · refine ⟨v, ?_, .inl ⟨rfl, owned⟩⟩
      rw [update_same view]
      exact inv
    · have ok := Inv.view inv view
      refine ⟨{ v with cleared := true }, Inv.learn inv view ⟨ok.has, ok.saw, ok.lost, ok.heap, fun _ p eq => ?_⟩ Iff.rfl rfl,
        .inr ⟨rfl, owned⟩⟩
      rw [recovers] at eq
      cases eq
      exact owned
  rintro m w (⟨rfl, owned⟩ | ⟨rfl, other⟩)
  · rw [if_pos owned]
    exact .seq (poisonOwner_spec recovers) fun _ _ h => h
  · rw [if_neg other]
    exact rfl

end Steps

end Evering.Directory.Identity
