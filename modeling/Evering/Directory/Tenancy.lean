import Evering.Directory.Reading

/-!
# Creating and removing layouts

Without recovery, one thread at a time has the transaction, and only this thread uses the heap. So it knows
directory and heap until it gives the transaction up, and what a dead thread had stays as it is. At every step the
blocks of the entries that are open, which are those in state `PUBLISHED` or `CLOSING`, are allocated and differ from
each other, and an entry comes to be open only at the store by which `create_in` publishes it.
-/

namespace Evering.Directory

open Interleave Protocol Function

variable {ω α β : Type}

/-- An identifier of the entry may be admitted, or was when its removal began. -/
def Entry.IsOpen (x : Entry) : Prop := x.word.state = .published ∨ x.word.state = .closing

/-- Open entries have blocks of their own. -/
structure Tenant (d : Dir) (h : Heap) : Prop where
  live : ∀ k e, (d.entry k e).IsOpen → h.block (d.entry k e).offset = .live .directory
  apart : ∀ {k e k' e'}, (d.entry k e).IsOpen → (d.entry k' e').IsOpen →
    (d.entry k e).offset = (d.entry k' e').offset → k = k' ∧ e = e'

/-- The last generation under which the entry was published; a pending entry has the next one. -/
def Entry.reached (x : Entry) : Nat :=
  if x.word.state = .pending then x.word.generation - 1 else x.word.generation

/-- What a step does to an entry: the generation does not fall, and the entry is open after the step because it was,
or because the step publishes it under a new generation. -/
structure Turns (x x' : Entry) (home : Prop) : Prop where
  rises : x.reached ≤ x'.reached
  opens : x'.IsOpen →
    (x.IsOpen ∧ x'.offset = x.offset ∧ x'.word.generation = x.word.generation) ∨
    (x.word.state = .pending ∧ x'.word.state = .published ∧ x.reached < x'.word.generation ∧ home)

def Kept (d d' : Dir) : Prop :=
  ∀ k e, Turns (d.entry k e) (d'.entry k e) (d'.trail.home = some (k, e))

theorem Entry.IsOpen.reached {x : Entry} (is_open : x.IsOpen) : x.reached = x.word.generation := by
  rcases is_open with is | is <;> simp [Entry.reached, is]

/-- Directory and heap of the thread that has the transaction. -/
abbrev Hand := Option (Dir × Heap)

structure Tenants (s : Shared) (views : Views ω Hand) : Prop where
  tenant : Tenant s.dir s.heap
  normal : ∀ p, s.dir.transaction ≠ .owned p .rollingBack
  own : ∀ {t op d h}, views t = some (op, some (d, h)) → s.dir = d ∧ s.heap = h ∧ d.transaction ≠ .clean
  one : ∀ {t u op op' x y}, views t = some (op, some x) → views u = some (op', some y) → t = u
  rest : s.dir.transaction = .clean → s.heap.mutation = .clean

def tenancy : Protocol Shared Site ω Hand where
  inv := fun s _ views => Tenants s views
  idle := fun v => v = none
  guar := fun s s' => Kept s.dir s'.dir

variable {s s' : Shared} {views : Views ω Hand} {t : Nat} {op : ω} {d d' : Dir}
  {h h' : Heap} {p : Nat} {phase : Phase} {claimed : Bool}

theorem Turns.refl (x : Entry) (home : Prop) : Turns x x home :=
  ⟨Nat.le_refl _, fun is_open => .inl ⟨is_open, rfl, rfl⟩⟩

theorem Kept.refl (d : Dir) : Kept d d := fun k e => .refl (d.entry k e) _

/-! ### Steps of the thread that has the transaction -/

theorem Tenants.move {v' : Hand} (alone : ∀ u op' x, u ≠ t → views u ≠ some (op', some x))
    (tenant : Tenant s'.dir s'.heap) (normal : ∀ p, s'.dir.transaction ≠ .owned p .rollingBack)
    (own : ∀ {d h}, v' = some (d, h) → s'.dir = d ∧ s'.heap = h ∧ d.transaction ≠ .clean)
    (rest : v' = none → s'.heap.mutation = .clean) : Tenants s' (Function.update views t (some (op, v'))) where
  tenant := tenant
  normal := normal
  own := by
    intro u op' d h at_u
    rcases Views.update_cases at_u with ⟨-, -, same⟩ | ⟨ne, old⟩
    · exact own same.symm
    · exact absurd old (alone u op' _ ne)
  one := by
    intro u u' op₁ op₂ x y at_u at_u'
    rcases Views.update_cases at_u with ⟨here, -, -⟩ | ⟨ne, old⟩
    · rcases Views.update_cases at_u' with ⟨here', -, -⟩ | ⟨ne', old'⟩
      · rw [here, here']
      · exact absurd old' (alone u' op₂ _ ne')
    · exact absurd old (alone u op₁ _ ne)
  rest := by
    intro clean
    cases v' with
    | none => exact rest rfl
    | some x =>
      obtain ⟨same, -, owned⟩ := own (d := x.1) (h := x.2) rfl
      rw [← same] at owned
      exact absurd clean owned

theorem Tenants.alone (inv : Tenants s views) {x : Dir × Heap} (view : views t = some (op, some x)) (u : Nat)
    (op' : ω) (y : Dir × Heap) (ne : u ≠ t) : views u ≠ some (op', some y) :=
  fun view' => ne (inv.one view' view)

/-- What a thread that has the transaction does to directory and heap. -/
structure Moves (d : Dir) (h : Heap) (d' : Dir) (h' : Heap) : Prop where
  tenant : Tenant d' h'
  kept : Kept d d'
  owned : d'.transaction ≠ .clean
  normal : ∀ p, d'.transaction ≠ .owned p .rollingBack

abbrev HandSpec (op : ω) (prog : DirProg β) (v : Hand) (Q : β → Hand → Prop) : Prop :=
  tenancy.Triple op prog v Q

theorem hold_spec {site : Site} {f : Shared → Shared × β} {b : β} {Q : β → Hand → Prop}
    (acts : ∀ s, s.dir = d → s.heap = h → (f s).1.dir = d' ∧ (f s).1.heap = h' ∧ (f s).2 = b)
    (moves : Moves d h d' h') (q : Q b (some (d', h'))) : HandSpec op (.action site f) (some (d, h)) Q := by
  refine .action fun s dead views t inv view _ => ⟨some (d', h'), ?_⟩
  have inv : Tenants s views := inv
  obtain ⟨same_d, same_h, -⟩ := inv.own view
  obtain ⟨dir, heap, result⟩ := acts s same_d same_h
  refine ⟨Tenants.move (inv.alone view) ?_ ?_ ?_ nofun, ?_, result ▸ q⟩
  · rw [dir, heap]
    exact moves.tenant
  · rw [dir]
    exact moves.normal
  · intro d₁ h₁ same
    rw [Option.some.injEq, Prod.mk.injEq] at same
    rw [← same.1, ← same.2]
    exact ⟨dir, heap, moves.owned⟩
  · show Kept s.dir (f s).1.dir
    rw [dir, same_d]
    exact moves.kept

theorem holdWrite_spec {site : Site} {f : Shared → Shared} {Q : Unit → Hand → Prop}
    (acts : ∀ s, s.dir = d → s.heap = h → (f s).dir = d' ∧ (f s).heap = h') (moves : Moves d h d' h')
    (q : Q () (some (d', h'))) : HandSpec op (.write site f) (some (d, h)) Q :=
  hold_spec (f := fun s => (f s, ())) (fun s dir heap => ⟨(acts s dir heap).1, (acts s dir heap).2, rfl⟩) moves q

theorem skim_spec {get : Shared → α} {prog : DirProg β} {v : Hand} {Q : β → Hand → Prop}
    (reads : prog.Reads get .plain) (q : ∀ b, Q b v) : HandSpec op prog v Q :=
  Protocol.Triple.skim reads (fun s => Kept.refl s.dir) q

theorem load_hand {f : Dir → β} {Q : β → Hand → Prop} (q : Q (f d) (some (d, h))) :
    HandSpec op (.read .plain fun s => f s.dir) (some (d, h)) Q := by
  refine .read (fun s => Kept.refl s.dir) fun s dead views t inv view _ => ⟨some (d, h), ?_, ?_⟩
  · rwa [update_same view]
  · rw [(Tenants.own inv view).1]
    exact q

/-! ### What the steps are -/

theorem Tenant.entries (tenant : Tenant d h) (entries : d'.entry = d.entry)
    (blocks : ∀ k e, (d.entry k e).IsOpen → h'.block (d.entry k e).offset = .live .directory) : Tenant d' h' := by
  constructor
  · rw [entries]
    exact blocks
  · rw [entries]
    exact tenant.apart

theorem Moves.plain (tenant : Tenant d h) (entries : d'.entry = d.entry)
    (transaction : d'.transaction = .owned p phase) (forward : phase ≠ .rollingBack)
    (blocks : ∀ k e, (d.entry k e).IsOpen → h'.block (d.entry k e).offset = .live .directory) : Moves d h d' h' where
  tenant := tenant.entries entries blocks
  kept := by
    intro k e
    rw [entries]
    exact .refl _ _
  owned := by simp [transaction]
  normal := by simp [transaction, forward]

theorem entry_cases {f : Nat → Nat → Entry} {k e : Nat} {y : Entry} (entries : f = (d.setEntry k e y).entry)
    (k' e' : Nat) : (k' = k ∧ e' = e ∧ f k' e' = y) ∨ ((k', e') ≠ (k, e) ∧ f k' e' = d.entry k' e') := by
  rw [entries]
  by_cases here : (k, e) = (k', e')
  · rw [Prod.mk.injEq] at here
    refine .inl ⟨here.1.symm, here.2.symm, ?_⟩
    rw [← here.1, ← here.2]
    exact setEntry_same d k e y
  · exact .inr ⟨Ne.symm here, setEntry_other d y here⟩

theorem Moves.entry {k e : Nat} {y : Entry} (tenant : Tenant d h) (entries : d'.entry = (d.setEntry k e y).entry)
    (transaction : d'.transaction = .owned p phase) (forward : phase ≠ .rollingBack)
    (live : y.IsOpen → h.block y.offset = .live .directory)
    (apart : y.IsOpen → ∀ k' e', (k', e') ≠ (k, e) → (d.entry k' e').IsOpen → (d.entry k' e').offset ≠ y.offset)
    (turns : Turns (d.entry k e) y (d'.trail.home = some (k, e))) : Moves d h d' h := by
  constructor
  case tenant =>
    constructor
    case live =>
      intro k' e' is_open
      rcases entry_cases entries k' e' with ⟨-, -, here⟩ | ⟨-, same⟩
      · rw [here] at is_open ⊢
        exact live is_open
      · rw [same] at is_open ⊢
        exact tenant.live k' e' is_open
    case apart =>
      intro k₁ e₁ k₂ e₂ open₁ open₂ offsets
      rcases entry_cases entries k₁ e₁ with ⟨hk, he, here⟩ | ⟨ne, same⟩ <;>
        rcases entry_cases entries k₂ e₂ with ⟨hk', he', here'⟩ | ⟨ne', same'⟩
      · exact ⟨hk.trans hk'.symm, he.trans he'.symm⟩
      · rw [here] at open₁ offsets
        rw [same'] at open₂ offsets
        exact absurd offsets.symm (apart open₁ k₂ e₂ ne' open₂)
      · rw [here'] at open₂ offsets
        rw [same] at open₁ offsets
        exact absurd offsets (apart open₂ k₁ e₁ ne open₁)
      · rw [same] at open₁ offsets
        rw [same'] at open₂ offsets
        exact tenant.apart open₁ open₂ offsets
  case kept =>
    intro k' e'
    rcases entry_cases entries k' e' with ⟨hk, he, here⟩ | ⟨-, same⟩
    · rw [here, hk, he]
      exact turns
    · rw [same]
      exact .refl _ _
  case owned => simp [transaction]
  case normal => simp [transaction, forward]

theorem Moves.shut {k e : Nat} {y : Entry} (tenant : Tenant d h) (entries : d'.entry = (d.setEntry k e y).entry)
    (transaction : d'.transaction = .owned p phase) (forward : phase ≠ .rollingBack) (closed : ¬y.IsOpen)
    (rises : (d.entry k e).reached ≤ y.reached) : Moves d h d' h :=
  .entry tenant entries transaction forward (fun is_open => absurd is_open closed)
    (fun is_open => absurd is_open closed) ⟨rises, fun is_open => absurd is_open closed⟩

theorem Moves.reopen {k e : Nat} {y : Entry} (tenant : Tenant d h) (entries : d'.entry = (d.setEntry k e y).entry)
    (transaction : d'.transaction = .owned p phase) (forward : phase ≠ .rollingBack) (was : (d.entry k e).IsOpen)
    (is_open : y.IsOpen) (offset : y.offset = (d.entry k e).offset)
    (generation : y.word.generation = (d.entry k e).word.generation) : Moves d h d' h := by
  refine .entry tenant entries transaction forward ?_ ?_ ⟨?_, fun _ => .inl ⟨was, offset, generation⟩⟩
  · intro _
    rw [offset]
    exact tenant.live k e was
  · intro _ k' e' ne is_open same
    rw [offset] at same
    obtain ⟨hk, he⟩ := tenant.apart is_open was same
    exact ne (by rw [hk, he])
  · rw [was.reached, is_open.reached, generation]

/-- A block that is allocated and that no open entry has. -/
def Fresh (d : Dir) (h : Heap) (o : Nat) : Prop :=
  h.block o = .live .directory ∧ ∀ k e, (d.entry k e).IsOpen → (d.entry k e).offset ≠ o

/-- An entry that `create_in` has reserved. -/
structure Reserved (d : Dir) (slot : Slot) : Prop where
  word : (d.entry slot.slab slot.entry).word = ⟨slot.generation, .pending⟩
  home : d.trail.home = some (slot.slab, slot.entry)
  next : slot.generation = slot.vacant.generation + 1
  vacant : slot.vacant.state = .vacant

variable {slot : Slot}

theorem Reserved.reached (reserved : Reserved d slot) : (d.entry slot.slab slot.entry).reached = slot.vacant.generation := by
  simp [Entry.reached, reserved.word, reserved.next]

variable {o : Nat}

theorem Reserved.restores (reserved : Reserved d slot) :
    (d.entry slot.slab slot.entry).reached ≤ Entry.reached ⟨slot.vacant, o⟩ := by
  rw [reserved.reached]
  simp [Entry.reached, reserved.vacant]

theorem Moves.publish (tenant : Tenant d h) (reserved : Reserved d slot)
    (entries : d'.entry = (d.setEntry slot.slab slot.entry
      { d.entry slot.slab slot.entry with word := ⟨slot.generation, .published⟩ }).entry)
    (home : d'.trail.home = d.trail.home) (transaction : d'.transaction = .owned p phase)
    (forward : phase ≠ .rollingBack) (fresh : Fresh d h (d.entry slot.slab slot.entry).offset) : Moves d h d' h := by
  have lt : (d.entry slot.slab slot.entry).reached < slot.generation := by
    rw [reserved.reached, reserved.next]
    omega
  refine .entry tenant entries transaction forward (fun _ => fresh.1) ?_ ⟨Nat.le_of_lt lt, fun _ => .inr ?_⟩
  · intro _ k' e' _ is_open
    exact fresh.2 k' e' is_open
  · refine ⟨?_, rfl, lt, home.trans reserved.home⟩
    rw [reserved.word]

/-! ### Operations -/

/-- The transaction of `p` in a phase, with the heap claimed or not. -/
structure Working (p : Nat) (phase : Phase) (claimed : Bool) (d : Dir) (h : Heap) : Prop where
  tenant : Tenant d h
  transaction : d.transaction = .owned p phase
  mutation : h.mutation = if claimed then .owned p else .clean

section Operations

variable {Q : Unit → Hand → Prop}

theorem entry_spec {f : Dir → Dir} {phase' : Phase} (w : Working p phase claimed d h)
    (moves : Moves d h (f d) h) (transaction : (f d).transaction = .owned p phase')
    (q : Working p phase' claimed (f d) h → Q () (some (f d, h))) : HandSpec op (update f) (some (d, h)) Q := by
  refine holdWrite_spec (fun s dir heap => ⟨?_, heap⟩) moves (q ⟨moves.tenant, transaction, w.mutation⟩)
  rw [dir]

theorem plain_spec {f : Dir → Dir} {phase' : Phase} (w : Working p phase claimed d h)
    (entries : (f d).entry = d.entry) (transaction : (f d).transaction = .owned p phase') (forward : phase' ≠ .rollingBack)
    (q : Working p phase' claimed (f d) h → Q () (some (f d, h))) : HandSpec op (update f) (some (d, h)) Q :=
  entry_spec w (.plain w.tenant entries transaction forward w.tenant.live) transaction q

theorem beginMutation_hand {Q : Except HeapError Unit → Hand → Prop} (w : Working p phase false d h)
    (forward : phase ≠ .rollingBack) (q : Working p phase true d (h.setMutation (.owned p) true) →
      Q (.ok ()) (some (d, h.setMutation (.owned p) true))) : HandSpec op (beginMutation p true) (some (d, h)) Q := by
  have moves : Moves d h d (h.setMutation (.owned p) true) :=
    .plain w.tenant rfl w.transaction forward w.tenant.live
  refine hold_spec (b := .ok ()) (fun s dir heap => ?_) moves (q ⟨moves.tenant, w.transaction, rfl⟩)
  rw [heap, w.mutation]
  exact ⟨dir, by simp, rfl⟩

theorem commitMutation_hand (w : Working p phase claimed d h) (forward : phase ≠ .rollingBack)
    (q : Working p phase false d (h.setMutation .clean false) → Q () (some (d, h.setMutation .clean false))) :
    HandSpec op commitMutation (some (d, h)) Q := by
  have moves : Moves d h d (h.setMutation .clean false) :=
    .plain w.tenant rfl w.transaction forward w.tenant.live
  refine holdWrite_spec (fun s dir heap => ⟨dir, ?_⟩) moves (q ⟨moves.tenant, w.transaction, rfl⟩)
  rw [heap]

theorem allocateDuring_hand {Q : Except HeapError Nat → Hand → Prop} (w : Working p phase true d h)
    (forward : phase ≠ .rollingBack) (failed : ∀ h', Working p phase true d h' → Q (.error .exhausted) (some (d, h')))
    (got : ∀ o h', Working p phase true (d.setAccount (.loose o)) h' → Fresh (d.setAccount (.loose o)) h' o →
      Q (.ok o) (some (d.setAccount (.loose o), h'))) : HandSpec op (allocateDuring p) (some (d, h)) Q := by
  have entered : Moves d h d (h.enter p) := .plain w.tenant rfl w.transaction forward w.tenant.live
  refine .bind (holdWrite_spec (fun s dir heap => ⟨dir, ?_⟩) entered (.pick fun o => ?_))
  · rw [heap]
  by_cases found : o ≠ 0 ∧ h.block o = .free
  · -- a free block is not the block of an open entry
    have apart : ∀ k e, (d.entry k e).IsOpen → (d.entry k e).offset ≠ o := by
      intro k e is_open same
      have live := w.tenant.live k e is_open
      rw [same, found.2] at live
      cases live
    have blocks : ∀ k e, (d.entry k e).IsOpen →
        (((h.enter p).leave p).allot o .directory).block (d.entry k e).offset = .live .directory := by
      intro k e is_open
      show Function.update h.block o (.live .directory) _ = _
      rw [update_of_ne (apart k e is_open)]
      exact w.tenant.live k e is_open
    have moves : Moves d (h.enter p) (d.setAccount (.loose o)) (((h.enter p).leave p).allot o .directory) :=
      .plain entered.tenant rfl w.transaction forward blocks
    refine hold_spec (b := .ok o) (fun s dir heap => ?_) moves (got o _ ⟨moves.tenant, w.transaction, w.mutation⟩
      ⟨?_, apart⟩)
    · have free : o ≠ 0 ∧ s.heap.block o = .free := by
        rw [heap]
        exact found
      rw [if_pos free]
      exact ⟨by simp [dir], by simp [heap], rfl⟩
    · show Function.update h.block o (.live .directory) o = _
      rw [update_self]
  · have moves : Moves d (h.enter p) d ((h.enter p).leave p) :=
      .plain entered.tenant rfl w.transaction forward w.tenant.live
    refine hold_spec (b := .error .exhausted) (fun s dir heap => ?_) moves
      (failed _ ⟨moves.tenant, w.transaction, w.mutation⟩)
    have taken : ¬(o ≠ 0 ∧ s.heap.block o = .free) := by
      rw [heap]
      exact found
    rw [if_neg taken]
    exact ⟨dir, by simp [heap], rfl⟩

theorem deallocateDuring_hand (w : Working p phase true d h)
    (forward : phase ≠ .rollingBack) (apart : ∀ k e, (d.entry k e).IsOpen → (d.entry k e).offset ≠ o)
    (q : ∀ h', Working p phase true (d.pass o) h' → Q () (some (d.pass o, h'))) :
    HandSpec op (deallocateDuring p o) (some (d, h)) Q := by
  have passed : Moves d h (d.pass o) ((h.enter p).pass o) := by
    refine .plain w.tenant rfl w.transaction forward fun k e is_open => ?_
    show Function.update h.block o .freeing _ = _
    rw [update_of_ne (apart k e is_open)]
    exact w.tenant.live k e is_open
  have freed : Moves (d.pass o) ((h.enter p).pass o) (d.pass o) ((((h.enter p).pass o).leave p).setBlock o .free) := by
    refine .plain passed.tenant rfl w.transaction forward fun k e is_open => ?_
    show Function.update (Function.update h.block o .freeing) o .free (d.entry k e).offset = _
    rw [update_of_ne (apart k e is_open), update_of_ne (apart k e is_open)]
    exact w.tenant.live k e is_open
  refine .bind (holdWrite_spec (fun s dir heap => ⟨by simp [dir], by simp [heap]⟩) passed ?_)
  refine holdWrite_spec (fun s dir heap => ⟨dir, ?_⟩) freed (q _ ⟨freed.tenant, w.transaction, w.mutation⟩)
  rw [heap]

theorem storeState_hand {k e : Nat} {word : EntryWord} (w : Working p phase claimed d h)
    (forward : phase ≠ .rollingBack) (closed : ¬Entry.IsOpen { d.entry k e with word })
    (rises : (d.entry k e).reached ≤ Entry.reached { d.entry k e with word })
    (q : Working p phase claimed (d.setWord k e word) h → Q () (some (d.setWord k e word, h))) :
    HandSpec op (storeState k e word) (some (d, h)) Q :=
  entry_spec w (.shut w.tenant rfl w.transaction forward closed rises) w.transaction q

theorem persist_hand {slab entry pointer : Nat} {kind : Kind} (w : Working p .held claimed d h)
    (q : ∀ d', d'.entry = d.entry → d'.trail = d.trail → d'.next = d.next → d'.pending = pointer →
      Working p .evidence claimed d' h → Q () (some (d', h))) :
    HandSpec op (persist p slab entry pointer kind) (some (d, h)) Q := by
  refine .bind (plain_spec w rfl w.transaction (by decide) fun w₁ => ?_)
  refine .bind (plain_spec w₁ rfl w.transaction (by decide) fun w₂ => ?_)
  refine .bind (plain_spec w₂ rfl w.transaction (by decide) fun w₃ => ?_)
  refine .bind (plain_spec w₃ rfl w.transaction (by decide) fun w₄ => ?_)
  exact plain_spec w₄ rfl rfl (by decide) fun w₅ => q _ rfl rfl rfl rfl w₅

theorem clearPending_hand (w : Working p phase claimed d h)
    (q : Working p .held claimed (d.setTransaction (.owned p .held)) h → Q () (some (d.setTransaction (.owned p .held), h))) :
    HandSpec op (clearPending p) (some (d, h)) Q :=
  plain_spec w rfl rfl (by decide) q

theorem commit_hand {Q : Bool → Hand → Prop} {ids : List (Id × Nat)} (w : Working p .held false d h)
    (q : ∀ b, Q b none) : HandSpec op (commit p .held ids) (some (d, h)) Q := by
  refine .action fun s dead views t inv view _ => ⟨none, ?_⟩
  have inv : Tenants s views := inv
  obtain ⟨same_d, same_h, -⟩ := inv.own view
  have owned : s.dir.transaction = .owned p .held := by
    rw [same_d]
    exact w.transaction
  have tenant : Tenant (((s.dir.setHandled false).setTransaction .clean).issue ids) s.heap :=
    inv.tenant.entries rfl inv.tenant.live
  simp only [if_pos owned]
  refine ⟨Tenants.move (inv.alone view) tenant nofun nofun ?_, ?_, q _⟩
  · intro _
    rw [same_h]
    exact w.mutation
  · exact fun k e => .refl _ _

theorem giveUp_hand {γ : Type} {error : Error} {Q : Except Error γ → Hand → Prop} (w : Working p .held false d h)
    (q : Q (.error error) none) : HandSpec op (giveUp p error : DirProg (Except Error γ)) (some (d, h)) Q :=
  .bind (commit_hand w fun _ => q)

end Operations

theorem reserve_hand (S : Setup) {Q : Except Error Slot → Hand → Prop}
    (failed : ∀ error, Q (.error error) (some (d, h))) (found : ∀ slot, slot.Vacant S d → Q (.ok slot) (some (d, h))) :
    HandSpec op (reserve S) (some (d, h)) Q := by
  refine (Triple.known (reserveFrom_reads maxSlabs 0) (fun s => Kept.refl s.dir) { Shared.init with dir := d }
    fun inv view => (Tenants.own inv view).1).mono ?_
  rintro (error | slot) _ ⟨rfl, result⟩
  · exact failed error
  · exact found slot (reserveFrom_result maxSlabs 0 result.symm)

/-! ### Growing and creating -/

theorem offsetOf_hand {v : Hand} {Q : Except Error Nat → Hand → Prop} (failed : ∀ error, Q (.error error) v)
    (fine : Q (.ok o) v) : HandSpec op (offsetOf o) v Q := by
  refine .pick fun fault => ?_
  split
  · exact fine
  · exact failed _

theorem grow_hand {Q : Except Error Unit → Hand → Prop} (w : Working p .held false d h)
    (q : ∀ r d' h', Working p .held false d' h' → Q r (some (d', h'))) : HandSpec op (grow p) (some (d, h)) Q := by
  refine .bind (skim_spec (tailFrom_reads maxSlabs 0) fun k => ?_)
  cases k with
  | error error => exact q _ _ _ w
  | ok k =>
    simp only
    split
    · exact q _ _ _ w
    refine .bind (beginMutation_hand w (by decide) fun w₁ => ?_)
    refine .bind (allocateDuring_hand w₁ (by decide) (fun h₂ w₂ => ?_) fun pointer h₂ w₂ fresh => ?_)
    · exact .bind (commitMutation_hand w₂ (by decide) (q _ _ _))
    refine .bind (offsetOf_hand (fun error => ?_) ?_)
    · refine .bind (deallocateDuring_hand w₂ (by decide) fresh.2 fun h₃ w₃ => ?_)
      exact .bind (commitMutation_hand w₃ (by decide) (q _ _ _))
    refine .bind (persist_hand w₂ fun d₃ _ _ _ _ w₃ => ?_)
    refine .bind (commitMutation_hand w₃ (by decide) fun w₄ => ?_)
    refine .bind (plain_spec w₄ rfl w₄.transaction (by decide) fun w₅ => ?_)
    exact .bind (clearPending_hand w₅ (q _ _ _))

theorem not_open_of_pending {x : Entry} (pending : x.word.state = .pending) : ¬x.IsOpen := by
  simp [Entry.IsOpen, pending]

variable {Q : Except Error Id → Hand → Prop}

theorem restore_hand {error : Error}
    (w : Working p .held false d h) (reserved : Reserved d slot) (q : Q (.error error) none) :
    HandSpec op (do
      storeState slot.slab slot.entry slot.vacant
      giveUp p error) (some (d, h)) Q := by
  refine .bind (storeState_hand w (by decide) ?_ reserved.restores fun w₁ => giveUp_hand w₁ q)
  simp [Entry.IsOpen, reserved.vacant]

theorem createAdmit_hand (S : Setup)
    (w : Working p .evidence false d h) (reserved : Reserved d slot) (fresh : Fresh d h o) (pending : d.pending = o)
    (q : ∀ r, Q r none) : HandSpec op (createAdmit S p slot o) (some (d, h)) Q := by
  have shut : ¬(d.entry slot.slab slot.entry).IsOpen := not_open_of_pending (by rw [reserved.word])
  refine .seq (R := fun _ v => v = some (d, h)) ?_ ?_
  · refine .pick fun fault => ?_
    split
    · refine .seq (R := fun _ v => v = some (d, h)) (holdWrite_spec (fun s dir heap => ⟨dir, heap⟩) ?_ rfl) ?_
      · exact .plain w.tenant rfl w.transaction (by decide) w.tenant.live
      · intro _ v same
        exact same
    · rfl
  intro r v same
  subst same
  cases r with
  | ok _ =>
    -- the offset is stored while the entry is not open, and the entry is opened by the next store
    have stored : Moves d h (d.setOffset slot.slab slot.entry o) h := by
      refine .shut w.tenant rfl w.transaction (by decide) ?_ (Nat.le_refl _)
      exact not_open_of_pending (by simp [reserved.word])
    refine .bind (entry_spec w stored w.transaction fun w₁ => ?_)
    have here : (d.setOffset slot.slab slot.entry o).entry slot.slab slot.entry =
        { d.entry slot.slab slot.entry with offset := o } := setEntry_same ..
    have reserved₁ : Reserved (d.setOffset slot.slab slot.entry o) slot :=
      ⟨by rw [here]; exact reserved.word, reserved.home, reserved.next, reserved.vacant⟩
    have fresh₁ : Fresh (d.setOffset slot.slab slot.entry o) h
        ((d.setOffset slot.slab slot.entry o).entry slot.slab slot.entry).offset := by
      rw [here]
      refine ⟨fresh.1, fun k e is_open => ?_⟩
      rcases entry_cases (f := (d.setOffset slot.slab slot.entry o).entry) rfl k e with ⟨-, -, mine⟩ | ⟨-, other⟩
      · rw [mine] at is_open
        exact absurd is_open shut
      · rw [other] at is_open ⊢
        exact fresh.2 k e is_open
    refine .bind (entry_spec w₁ (.publish w₁.tenant reserved₁ rfl rfl w₁.transaction (by decide) fresh₁)
      w₁.transaction fun w₂ => ?_)
    exact .bind (clearPending_hand w₂ fun w₃ => .bind (commit_hand w₃ fun _ => q _))
  | error error =>
    refine .bind (beginMutation_hand w (by decide) fun w₁ => ?_)
    refine .bind (load_hand (f := fun d => d.pending) ?_)
    rw [pending]
    refine .bind (deallocateDuring_hand w₁ (by decide) fresh.2 fun h₂ w₂ => ?_)
    refine .bind (storeState_hand w₂ (by decide) ?_ reserved.restores fun w₃ => ?_)
    · simp [Entry.IsOpen, reserved.vacant]
    refine .bind (clearPending_hand w₃ fun w₄ => ?_)
    exact .bind (commitMutation_hand w₄ (by decide) fun w₅ => giveUp_hand w₅ (q _))

theorem createAllocated_hand (S : Setup)
    (w : Working p .held true d h) (reserved : Reserved d slot) (fresh : Fresh d h o) (q : ∀ r, Q r none) :
    HandSpec op (createAllocated S p slot o) (some (d, h)) Q := by
  refine .bind (holdWrite_spec (fun s dir heap => ⟨dir, heap⟩) ?_ ?_)
  · exact .plain w.tenant rfl w.transaction (by decide) w.tenant.live
  refine .bind (offsetOf_hand (fun error => ?_) ?_)
  · refine .bind (deallocateDuring_hand w (by decide) fresh.2 fun h₁ w₁ => ?_)
    refine .bind (commitMutation_hand w₁ (by decide) fun w₂ => ?_)
    exact restore_hand w₂ ⟨reserved.word, reserved.home, reserved.next, reserved.vacant⟩ (q _)
  · refine .bind (persist_hand w fun d₁ entries trail _ pending w₁ => ?_)
    have reserved₁ : Reserved d₁ slot :=
      ⟨by rw [entries]; exact reserved.word, by rw [trail]; exact reserved.home, reserved.next, reserved.vacant⟩
    have fresh₁ : Fresh d₁ h o := ⟨fresh.1, by rw [entries]; exact fresh.2⟩
    exact .bind (commitMutation_hand w₁ (by decide) fun w₂ => createAdmit_hand S w₂ reserved₁ fresh₁ pending q)

theorem createAt_hand (S : Setup) (w : Working p .held false d h)
    (vacant : slot.Vacant S d) (q : ∀ r, Q r none) : HandSpec op (createAt S p slot) (some (d, h)) Q := by
  obtain ⟨⟨state, next, -⟩, word⟩ := vacant
  refine .bind (skim_spec (entry_reads _ _) fun r => ?_)
  cases r with
  | error error => exact giveUp_hand w (q _)
  | ok _ =>
    have moves : Moves d h (((d.setWord slot.slab slot.entry ⟨slot.generation, .pending⟩).setHome slot.slab
        slot.entry).setAccount d.trail.account) h := by
      refine .shut w.tenant rfl w.transaction (by decide) (not_open_of_pending rfl) ?_
      -- a pending entry has reached the generation before its own
      simp [Entry.reached, word, state, next]
    refine .bind (entry_spec w moves w.transaction fun w₁ => ?_)
    have reserved : Reserved (((d.setWord slot.slab slot.entry ⟨slot.generation, .pending⟩).setHome slot.slab
        slot.entry).setAccount d.trail.account) slot := by
      refine ⟨?_, rfl, next, state⟩
      show ((d.setWord slot.slab slot.entry _).entry slot.slab slot.entry).word = _
      rw [Dir.setWord, setEntry_same]
    refine .bind (beginMutation_hand w₁ (by decide) fun w₂ => ?_)
    refine .bind (allocateDuring_hand w₂ (by decide) (fun h₃ w₃ => ?_) fun o h₃ w₃ fresh => ?_)
    · exact .bind (commitMutation_hand w₃ (by decide) fun w₄ => restore_hand w₄ reserved (q _))
    · exact createAllocated_hand S w₃ ⟨reserved.word, reserved.home, reserved.next, reserved.vacant⟩ fresh q

theorem createHeld_hand (S : Setup) (w : Working p .held false d h)
    (q : ∀ r, Q r none) : HandSpec op (createHeld S p) (some (d, h)) Q := by
  refine .bind (reserve_hand S (fun error => ?_) fun slot vacant => createAt_hand S w vacant q)
  cases error with
  | full =>
    refine .bind (grow_hand w fun r d₁ h₁ w₁ => ?_)
    cases r with
    | error error => exact giveUp_hand w₁ (q _)
    | ok _ => exact .bind (reserve_hand S (fun _ => giveUp_hand w₁ (q _)) fun slot vacant => createAt_hand S w₁ vacant q)
  | _ => exact giveUp_hand w (q _)

theorem claim_hand {Q : Except Error Unit → Hand → Prop} (failed : ∀ error, Q (.error error) none)
    (got : ∀ d h, Working p .held false d h → Q (.ok ()) (some (d, h))) : HandSpec op (claim p) none Q := by
  refine .action fun s dead views t inv view _ => ?_
  have inv : Tenants s views := inv
  rcases transaction : s.dir.transaction with _ | ⟨busy, phase⟩
  · have nobody : ∀ u op' x, views u ≠ some (op', some x) := by
      intro u op' x view'
      obtain ⟨same, -, owned⟩ := inv.own (d := x.1) (h := x.2) view'
      rw [← same] at owned
      exact owned transaction
    have tenant : Tenant (s.dir.begin p) s.heap := inv.tenant.entries rfl inv.tenant.live
    refine ⟨some (s.dir.begin p, s.heap), Tenants.move (fun u op' x _ => nobody u op' x) tenant nofun ?_ nofun,
      ?_, got _ _ ⟨tenant, rfl, inv.rest transaction⟩⟩
    · intro d h same
      rw [Option.some.injEq, Prod.mk.injEq] at same
      rw [← same.1, ← same.2]
      exact ⟨rfl, rfl, nofun⟩
    · exact fun k e => .refl _ _
  · exact ⟨none, by rwa [update_same view], Kept.refl s.dir, failed _⟩

theorem createBusy_hand {error : Error} (q : ∀ r, Q r none) : HandSpec op (createBusy p error) none Q := by
  unfold createBusy
  split
  · refine .seq (R := fun txn v => v = none ∧ txn ≠ .owned p .rollingBack) ?_ ?_
    · refine .read (fun s => Kept.refl s.dir) fun s dead views t inv view _ => ⟨none, ?_, rfl, ?_⟩
      · rwa [update_same view]
      · exact Tenants.normal inv p
    intro txn v ⟨same, normal⟩
    subst same
    rw [if_neg normal]
    exact q _
  · exact q _

theorem create_hand (S : Setup) {heapRegion layout : Nat} {storage : Option Nat}
    (q : ∀ r, Q r none) : HandSpec op (create S p heapRegion storage layout) none Q := by
  unfold create
  split
  · exact q _
  split
  · exact q _
  exact .bind (claim_hand (fun _ => createBusy_hand q) fun d h w => createHeld_hand S w q)

/-! ### Removing -/

/-- `remove_in` from the closed layout on; the entry and its block are those of the identifier. -/
theorem removeClosed_hand {id : Id} {Q : Except Error Unit → Hand → Prop}
    (w : Working p .evidence true d h) (entry : d.entry id.slab id.entry = ⟨⟨id.generation, .closing⟩, o⟩)
    (q : ∀ r, Q r none) : HandSpec op (removeClosed p id o) (some (d, h)) Q := by
  have is_open : (d.entry id.slab id.entry).IsOpen := by
    rw [entry]
    exact .inr rfl
  have apart : ∀ k e, ((d.setWord id.slab id.entry ⟨id.generation, .removing⟩).entry k e).IsOpen →
      ((d.setWord id.slab id.entry ⟨id.generation, .removing⟩).entry k e).offset ≠ o := by
    intro k e opened
    rcases entry_cases (f := (d.setWord id.slab id.entry ⟨id.generation, .removing⟩).entry) rfl k e with
      ⟨-, -, mine⟩ | ⟨ne, other⟩
    · rw [mine] at opened
      simp [Entry.IsOpen] at opened
    · rw [other] at opened ⊢
      intro same
      obtain ⟨hk, he⟩ := w.tenant.apart opened is_open (by rw [entry, same])
      exact ne (by rw [hk, he])
  refine .bind (storeState_hand w (by decide) (by simp [Entry.IsOpen]) ?_ fun w₁ => ?_)
  · rw [is_open.reached, entry]
    exact Nat.le_refl _
  refine .bind (deallocateDuring_hand w₁ (by decide) apart fun h₂ w₂ => ?_)
  refine .bind (storeState_hand w₂ (by decide) (by simp [Entry.IsOpen]) ?_ fun w₃ => ?_)
  · simp [Entry.reached, Dir.pass, Dir.setAccount, Dir.setWord, setEntry_same]
  refine .bind (commitMutation_hand w₃ (by decide) fun w₄ => ?_)
  refine .bind (storeState_hand w₄ (by decide) (by simp [Entry.IsOpen]) ?_ fun w₅ => ?_)
  · simp [Entry.reached, Dir.setWord, setEntry_same]
  exact .bind (clearPending_hand w₅ fun w₆ => .bind (commit_hand w₆ fun _ => q _))

theorem removeHeld_hand (S : Setup) {id : Id} {Q : Except Error Unit → Hand → Prop}
    (w : Working p .held true d h) (entry : d.entry id.slab id.entry = ⟨⟨id.generation, .published⟩, o⟩)
    (q : ∀ r, Q r none) : HandSpec op (removeHeld S p id o) (some (d, h)) Q := by
  have closing : Moves d h (((d.setWord id.slab id.entry ⟨id.generation, .closing⟩).setHome id.slab
      id.entry).setAccount (.loose o)) h := by
    refine .reopen w.tenant rfl w.transaction (by decide) ?_ (.inr rfl) rfl ?_
    · rw [entry]
      exact .inl rfl
    · rw [entry]
  refine .bind (entry_spec w closing w.transaction fun w₁ => ?_)
  refine .bind (persist_hand w₁ fun d₂ entries _ _ _ w₂ => ?_)
  have entry₂ : d₂.entry id.slab id.entry = ⟨⟨id.generation, .closing⟩, o⟩ := by
    rw [entries]
    show (d.setWord id.slab id.entry _).entry id.slab id.entry = _
    rw [Dir.setWord, setEntry_same, entry]
  refine .seq (R := fun _ v => v = some (d₂, h)) ?_ ?_
  · refine .action fun s dead views t inv view _ => ⟨some (d₂, h), ?_, ?_, rfl⟩
    all_goals by_cases alone : s.members o = 2 ^ p
    · rw [update_same view, if_pos alone]
      have inv : Tenants s views := inv
      exact ⟨inv.tenant, inv.normal, inv.own, inv.one, inv.rest⟩
    · rwa [update_same view, if_neg alone]
    · rw [if_pos alone]
      exact Kept.refl s.dir
    · rw [if_neg alone]
      exact Kept.refl s.dir
  intro r v same
  subst same
  cases r with
  | ok _ => exact removeClosed_hand w₂ entry₂ q
  | error error =>
    have back : Moves d₂ h ((d₂.setWord id.slab id.entry ⟨id.generation, .published⟩).setAccount .settled) h := by
      refine .reopen w₂.tenant rfl w₂.transaction (by decide) ?_ (.inl rfl) rfl ?_
      · rw [entry₂]
        exact .inr rfl
      · rw [entry₂]
    refine .bind (entry_spec w₂ back w₂.transaction fun w₃ => ?_)
    refine .bind (clearPending_hand w₃ fun w₄ => ?_)
    exact .bind (commitMutation_hand w₄ (by decide) fun w₅ => giveUp_hand w₅ (q _))

/-! ### Identifiers -/

/-- What the check of `offset(id)` leaves to say later: the entry has the generation of the identifier or a later
one, and while it is open under this generation its block is the one that was read. -/
structure Noted (id : Id) (o : Nat) (d : Dir) : Prop where
  reached : id.generation ≤ (d.entry id.slab id.entry).reached
  offset : (d.entry id.slab id.entry).IsOpen → (d.entry id.slab id.entry).word.generation = id.generation →
    (d.entry id.slab id.entry).offset = o

abbrev NoteSpec (op : ω) (prog : DirProg β) (v : Hand) (fact : Shared → Prop)
    (Q : β → Hand × (Shared → Prop) → Prop) : Prop :=
  tenancy.noting.Triple op prog (v, fact) Q

theorem reached_stable (id : Id) (p : Prop) :
    (@tenancy ω).Stable fun s => p → id.generation ≤ (s.dir.entry id.slab id.entry).reached :=
  fun _ _ kept le holds => Nat.le_trans (le holds) (kept id.slab id.entry).rises

theorem noted_stable (id : Id) (o : Nat) : (@tenancy ω).Stable fun s => Noted id o s.dir := by
  intro s s' kept noted
  have turns := kept id.slab id.entry
  refine ⟨Nat.le_trans noted.reached turns.rises, fun is_open generation => ?_⟩
  rcases turns.opens is_open with ⟨was, offset, same⟩ | ⟨-, -, later, -⟩
  · rw [offset]
    exact noted.offset was (same.symm.trans generation)
  · -- an entry that is published anew has a later generation
    have := noted.reached
    omega

theorem offset_spec (S : Setup) (id : Id) : NoteSpec op (offset S id) none (fun _ => True) fun r w =>
    w.1 = none ∧ ∀ o, r = .ok o → id.region = S.region ∧ w.2 = fun s => Noted id o s.dir := by
  unfold offset
  split
  · exact ⟨rfl, nofun⟩
  rename_i home
  refine .seq (Protocol.Triple.noting (skim_spec (Q := fun _ v => v = none) (entry_reads _ _) fun _ => rfl)) ?_
  intro r (v, fact) ⟨same, is_true⟩
  subst same is_true
  cases r with
  | error error => exact ⟨rfl, nofun⟩
  | ok _ =>
    refine .seq (R := fun word w => w = (none, fun s : Shared =>
        word = ⟨id.generation, .published⟩ → id.generation ≤ (s.dir.entry id.slab id.entry).reached))
      (.note (R := fun _ => True) (fun s => Kept.refl s.dir) ?_ (fun word _ => reached_stable id _) fun _ _ => rfl) ?_
    · intro s dead views t _ _ _
      refine ⟨fun published => ?_, trivial⟩
      simp [Entry.reached, published]
    intro word w same
    subst same
    split
    · exact ⟨rfl, nofun⟩
    rename_i check
    have published : word = ⟨id.generation, .published⟩ := by
      obtain ⟨generation, state⟩ := word
      simp only [not_or, not_not] at check
      rw [check.1, check.2]
    refine .seq (R := fun o w => w = (none, fun s : Shared => Noted id o s.dir))
      (.note (R := fun _ => True) (fun s => Kept.refl s.dir) ?_ (fun o _ => noted_stable id o) fun _ _ => rfl) ?_
    · intro s dead views t _ _ le
      exact ⟨⟨le published, fun _ _ => rfl⟩, trivial⟩
    intro o w same
    subst same
    refine ⟨rfl, fun o' same => ?_⟩
    rw [Except.ok.inj same]
    exact ⟨by_contra home, rfl⟩

theorem remove_spec (S : Setup) (heapRegion mapped : Nat) (id : Id) (fits inHeap : Bool) :
    NoteSpec op (remove S p heapRegion id mapped fits inHeap) none (fun _ => True) fun _ w => w.1 = none := by
  unfold remove
  split
  · rfl
  split
  · rfl
  refine .seq (offset_spec S id) ?_
  intro r (v, fact) ⟨same, noted⟩
  subst same
  cases r with
  | error error => rfl
  | ok o =>
    simp only
    split
    · rfl
    rename_i check
    obtain rfl : mapped = o := by_contra check
    obtain ⟨-, rfl⟩ := noted mapped rfl
    have claimed : HandSpec op (claim p) none fun r v => (∃ error, r = .error error ∧ v = none) ∨
        (r = .ok () ∧ ∃ d h, v = some (d, h) ∧ Working p .held false d h) :=
      claim_hand (fun error => .inl ⟨error, rfl, rfl⟩) fun d h w => .inr ⟨rfl, d, h, rfl, w⟩
    refine .seq claimed.noting ?_
    intro r (v, fact) ⟨outcome, is_fact⟩
    subst is_fact
    rcases outcome with ⟨error, is_error, same⟩ | ⟨is_ok, d, h, same, w⟩
    · subst is_error same
      rfl
    subst is_ok same
    have gaveUp : ∀ {fact : Shared → Prop} (error : Error),
        NoteSpec op (giveUp p error : DirProg (Except Error Unit)) (some (d, h)) fact fun _ w => w.1 = none :=
      fun error => (giveUp_hand (Q := fun _ v => v = none) w rfl).noting.mono fun _ _ ended => ended.1
    refine .seq (Protocol.Triple.noting (skim_spec (Q := fun _ v => v = some (d, h)) (entry_reads _ _) fun _ => rfl)) ?_
    intro r (v, fact) ⟨same, is_fact⟩
    subst same is_fact
    cases r with
    | error error => exact gaveUp _
    | ok _ =>
      refine .seq (R := fun word w => w = (some (d, h), fun s : Shared => Noted id mapped s.dir) ∧
          word = (d.entry id.slab id.entry).word ∧ Noted id mapped d)
        (.note (R := fun word => word = (d.entry id.slab id.entry).word ∧ Noted id mapped d)
          (fun s => Kept.refl s.dir) ?_ (fun _ _ => noted_stable id mapped) fun _ known => ⟨rfl, known⟩) ?_
      · intro s dead views t inv view noted
        have same : s.dir = d := (Tenants.own inv view).1
        rw [same] at noted ⊢
        exact ⟨noted, rfl, noted⟩
      intro word w' ⟨same, is_word, noted⟩
      subst same
      split
      · exact gaveUp _
      rename_i check
      have published : (d.entry id.slab id.entry).word = ⟨id.generation, .published⟩ := by
        rw [← is_word]
        exact by_contra check
      split
      · exact gaveUp _
      have entry : d.entry id.slab id.entry = ⟨⟨id.generation, .published⟩, mapped⟩ := by
        rw [← published, ← noted.offset (.inl (by rw [published])) (by rw [published])]
      refine (Protocol.Triple.noting (Q := fun _ v => v = none) ?_).mono fun _ _ ended => ended.1
      exact .bind (beginMutation_hand w (by decide) fun w₁ => removeHeld_hand S w₁ entry fun _ => rfl)

end Evering.Directory
