import Evering.Directory.Identity

/-!
# Failed operations of the directory

Every early exit of `create_in` and `remove_in` undoes by hand what was done so far: the word of the entry, the claim of the
heap, the block, the pending record and the transaction. Run alone, an operation that returns an error leaves the words of
all entries, the blocks of the heap and both locks as they were; a slab that `grow` has linked stays. The exit that would
leave the transaction to be rolled back is not taken: the heap was committed just before it is claimed again.
-/

namespace Evering.Directory.Failure

open Interleave Function

section Failure

variable {S : Setup} {s t m : Shared} {owner : Nat} {oracle : Nat → Nat} {β : Type}

/-- The entries, the chain, the blocks and the claim of the heap are the same. -/
structure Same (s s' : Shared) : Prop where
  entry : s'.dir.entry = s.dir.entry
  next : s'.dir.next = s.dir.next
  block : s'.heap.block = s.heap.block
  mutation : s'.heap.mutation = s.heap.mutation

/-- One new slab is linked at the end of the chain. -/
structure Grown (s s' : Shared) (k offset : Nat) : Prop where
  linked : s.dir.Linked k
  last : s.dir.next k = 0
  free : offset ≠ 0 ∧ s.heap.block offset = .free
  entry : s'.dir.entry = s.dir.entry
  next : s'.dir.next = Function.update s.dir.next k offset
  block : s'.heap.block = Function.update s.heap.block offset (.live .directory)
  mutation : s'.heap.mutation = s.heap.mutation

theorem Same.refl (s : Shared) : Same s s := ⟨rfl, rfl, rfl, rfl⟩

theorem Same.trans (h : Same s m) (h' : Same m t) : Same s t :=
  ⟨h'.entry.trans h.entry, h'.next.trans h.next, h'.block.trans h.block, h'.mutation.trans h.mutation⟩

variable {k pointer : Nat} {slot : Slot}

theorem Grown.same {offset : Nat} (h : Grown s m k offset) (h' : Same m t) : Grown s t k offset :=
  { h with
    entry := h'.entry.trans h.entry, next := h'.next.trans h.next, block := h'.block.trans h.block,
    mutation := h'.mutation.trans h.mutation }

/-- The operation succeeds, or everything is the same and the transaction is over. -/
def Undoes (s s' : Shared) (r : Except Error β) : Prop :=
  (∃ value, r = .ok value) ∨ Same s s' ∧ s'.dir.transaction = .clean

/-! ### Undoing -/

theorem setWord_back {d d' : Dir} {e : Nat} {word : EntryWord} (changed : d'.entry = (d.setWord k e word).entry) :
    (d'.setWord k e (d.entry k e).word).entry = d.entry := by
  simp [Dir.setWord, Dir.setEntry, changed]

theorem block_back {block : Nat → Block} {offset : Nat} {x y : Block} (free : block offset = .free) :
    Function.update (Function.update (Function.update block offset x) offset y) offset .free = block := by
  rw [update_idem, update_idem, ← free, update_eq_self]

theorem giveUp_alone (held : t.dir.transaction = .owned owner .held) (error : Error) :
    (giveUp owner error : DirProg (Except Error β)).Post oracle t fun t' _ =>
      Same t t' ∧ t'.members = t.members ∧ t'.dir.transaction = .clean := by
  refine .after_action ?_
  rw [if_pos held]
  exact .done ⟨⟨rfl, rfl, rfl, rfl⟩, rfl, rfl⟩

theorem giveUp_undoes (same : Same s t) (held : t.dir.transaction = .owned owner .held) (error : Error) :
    (giveUp owner error : DirProg (Except Error β)).Post oracle t (Undoes s) :=
  .mono (giveUp_alone held error) fun _ _ ⟨same', _, clean⟩ => .inr ⟨same.trans same', clean⟩

/-! ### Steps -/

theorem beginMutation_alone (bound : Bool) : (beginMutation owner bound).Post oracle t fun t' r =>
    (t.heap.mutation = .clean ∧ r = .ok () ∧ t' = { t with heap := t.heap.setMutation (.owned owner) bound }) ∨
      t.heap.mutation ≠ .clean ∧ t' = t ∧ ∃ error, r = .error error := by
  refine .action ?_
  cases mutation : t.heap.mutation with
  | clean => exact .inl ⟨rfl, rfl, rfl⟩
  | owned busy => exact .inr ⟨nofun, rfl, _, rfl⟩
  | poisoned => exact .inr ⟨nofun, rfl, _, rfl⟩

theorem allocateDuring_alone : (allocateDuring owner).Post oracle t fun t' r =>
    t'.dir.entry = t.dir.entry ∧ t'.dir.next = t.dir.next ∧ t'.dir.transaction = t.dir.transaction ∧
      t'.heap.mutation = t.heap.mutation ∧ match r with
      | .ok offset => (offset ≠ 0 ∧ t.heap.block offset = .free) ∧
          t'.heap.block = Function.update t.heap.block offset (.live .directory)
      | .error _ => t'.heap.block = t.heap.block := by
  refine .after_write (.after_pick fun n => .action ?_)
  split
  · rename_i free
    exact ⟨rfl, rfl, rfl, rfl, free, rfl⟩
  · exact ⟨rfl, rfl, rfl, rfl, rfl⟩

theorem deallocateDuring_alone (offset : Nat) : (deallocateDuring owner offset).Post oracle t fun t' _ =>
    t'.dir.entry = t.dir.entry ∧ t'.dir.next = t.dir.next ∧ t'.dir.transaction = t.dir.transaction ∧
      t'.heap.mutation = t.heap.mutation ∧
      t'.heap.block = Function.update (Function.update t.heap.block offset .freeing) offset .free :=
  .after_write (.write ⟨rfl, rfl, rfl, rfl, rfl⟩)

theorem offsetOf_alone (offset : Nat) : (offsetOf offset).Post oracle t fun t' r =>
    t' = t ∧ (r = .ok offset ∨ ∃ error, r = .error error) := by
  refine .after_pick fun n => .done ⟨rfl, ?_⟩
  split
  · exact .inl rfl
  · exact .inr ⟨_, rfl⟩

theorem persist_alone (k e pointer : Nat) (kind : Kind) : (persist owner k e pointer kind).Post oracle t fun t' _ =>
    t'.dir.entry = t.dir.entry ∧ t'.dir.next = t.dir.next ∧ t'.heap = t.heap ∧ t'.dir.pending = pointer :=
  .after_write (.after_write (.after_write (.after_write (.write ⟨rfl, rfl, rfl, rfl⟩))))

/-! ### Creating -/

/-- The entry of the slot is `PENDING`, and the entries are as in `s` otherwise. -/
structure Reserved (s t : Shared) (slot : Slot) : Prop where
  vacant : slot.vacant = (s.dir.entry slot.slab slot.entry).word
  entry : t.dir.entry = (s.dir.setWord slot.slab slot.entry ⟨slot.generation, .pending⟩).entry
  next : t.dir.next = s.dir.next

theorem retract_undoes (reserved : Reserved s t slot) (block : t.heap.block = s.heap.block)
    (mutation : t.heap.mutation = s.heap.mutation) (held : t.dir.transaction = .owned owner .held) (error : Error) : (do
      storeState slot.slab slot.entry slot.vacant
      giveUp owner error : DirProg (Except Error β)).Post oracle t (Undoes s) := by
  refine .after_write ?_
  refine giveUp_undoes ?_ ?_ error
  · refine ⟨?_, reserved.next, block, mutation⟩
    rw [reserved.vacant]
    exact setWord_back reserved.entry
  · exact held

theorem createAdmit_undoes {offset : Nat} (reserved : Reserved s t slot) (unlocked : t.heap.mutation = .clean)
    (clean : s.heap.mutation = .clean) (free : s.heap.block offset = .free)
    (block : t.heap.block = Function.update s.heap.block offset (.live .directory)) (pending : t.dir.pending = offset) :
    (createAdmit S owner slot offset).Post oracle t (Undoes s) := by
  have admits : (admitAt owner offset).Post oracle t fun t' r => r = .ok () ∨ t' = t ∧ ∃ error, r = .error error := by
    refine .after_pick fun n => ?_
    split
    · exact .after_write (.done (.inl rfl))
    · exact .done (.inr ⟨rfl, _, rfl⟩)
  refine .bind admits ?_
  rintro t' r (rfl | ⟨rfl, error, rfl⟩)
  · exact .after_write (.after_write (.after_write (.after_action (.done (.inl ⟨_, rfl⟩)))))
  refine .bind (beginMutation_alone true) ?_
  rintro t₁ r (⟨-, rfl, rfl⟩ | ⟨locked, -⟩)
  swap
  · -- `commit` has just released the heap
    exact absurd unlocked locked
  refine .after_read (.bind (deallocateDuring_alone _) ?_)
  rintro t₂ - ⟨entry, next, -, -, freed⟩
  refine .after_write (.after_write (.after_write ?_))
  refine giveUp_undoes ?_ rfl error
  refine ⟨?_, next.trans reserved.next, ?_, clean.symm⟩
  · rw [reserved.vacant]
    exact setWord_back (entry.trans reserved.entry)
  · refine freed.trans ?_
    show Function.update (Function.update t'.heap.block t'.dir.pending .freeing) t'.dir.pending .free = _
    rw [block, pending, block_back free]

theorem createAllocated_undoes (reserved : Reserved s t slot) (clean : s.heap.mutation = .clean)
    (free : s.heap.block pointer = .free) (block : t.heap.block = Function.update s.heap.block pointer (.live .directory))
    (held : t.dir.transaction = .owned owner .held) : (createAllocated S owner slot pointer).Post oracle t (Undoes s) := by
  refine .after_write (.bind (offsetOf_alone pointer) ?_)
  rintro t' r ⟨rfl, rfl | ⟨error, rfl⟩⟩
  · refine .bind (persist_alone slot.slab slot.entry pointer .create) ?_
    rintro t₁ - ⟨entry, next, heap, pending⟩
    refine .after_write ?_
    refine createAdmit_undoes ⟨reserved.vacant, entry.trans reserved.entry, next.trans reserved.next⟩ rfl clean free ?_ pending
    exact (congrArg Heap.block heap).trans block
  · refine .bind (deallocateDuring_alone pointer) ?_
    rintro t₁ - ⟨entry, next, transaction, -, freed⟩
    refine .after_write ?_
    have back : t₁.heap.block = s.heap.block := by
      refine freed.trans ?_
      rw [block, block_back free]
    refine retract_undoes ?_ ?_ ?_ ?_ error
    · exact ⟨reserved.vacant, entry.trans reserved.entry, next.trans reserved.next⟩
    · exact back
    · exact clean.symm
    · exact transaction.trans held

theorem createAt_undoes (vacant : slot.vacant = (s.dir.entry slot.slab slot.entry).word)
    (held : s.dir.transaction = .owned owner .held) : (createAt S owner slot).Post oracle s (Undoes s) := by
  refine .bind (entry_reads slot.slab slot.entry).finds ?_
  rintro s' r ⟨rfl, -⟩
  cases r with
  | error error => exact giveUp_undoes (.refl _) held error
  | ok _ =>
    refine .after_write (.bind (beginMutation_alone true) ?_)
    rintro t r (⟨clean, rfl, rfl⟩ | ⟨-, rfl, error, rfl⟩)
    swap
    · refine retract_undoes ?_ ?_ ?_ ?_ (.heap error)
      exacts [⟨vacant, rfl, rfl⟩, rfl, rfl, held]
    refine .bind allocateDuring_alone ?_
    rintro t r ⟨entry, next, transaction, -, allocated⟩
    cases r with
    | error error =>
      refine .after_write ?_
      refine retract_undoes ?_ ?_ ?_ ?_ (.heap error)
      exacts [⟨vacant, entry, next⟩, allocated, clean.symm, transaction.trans held]
    | ok pointer => exact createAllocated_undoes ⟨vacant, entry, next⟩ clean allocated.1.2 allocated.2 (transaction.trans held)

/-! ### Growing -/

/-- `grow` links a slab, or leaves everything the same. -/
def Grows (owner : Nat) (s s' : Shared) (r : Except Error Unit) : Prop :=
  s'.dir.transaction = .owned owner .held ∧ match r with
    | .ok () => ∃ k offset, Grown s s' k offset
    | .error _ => Same s s'

theorem growAt_grows (linked : s.dir.Linked k) (last : s.dir.next k = 0)
    (clean : s.heap.mutation = .clean) (free : pointer ≠ 0 ∧ s.heap.block pointer = .free)
    (entry : t.dir.entry = s.dir.entry) (next : t.dir.next = s.dir.next)
    (block : t.heap.block = Function.update s.heap.block pointer (.live .directory))
    (held : t.dir.transaction = .owned owner .held) : (growAt owner k pointer).Post oracle t (Grows owner s) := by
  refine .bind (offsetOf_alone pointer) ?_
  rintro t' r ⟨rfl, rfl | ⟨error, rfl⟩⟩
  · refine .bind (persist_alone (k + 1) 0 pointer .grow) ?_
    rintro t₁ - ⟨entry₁, next₁, heap, -⟩
    refine .after_write (.after_write (.after_write (.done ⟨rfl, k, pointer, linked, last, free, entry₁.trans entry, ?_, ?_,
      clean.symm⟩)))
    · show Function.update t₁.dir.next k pointer = _
      rw [next₁, next]
    · exact (congrArg Heap.block heap).trans block
  · refine .bind (deallocateDuring_alone pointer) ?_
    rintro t₁ - ⟨entry₁, next₁, transaction, -, freed⟩
    refine .after_write (.done ⟨transaction.trans held, entry₁.trans entry, next₁.trans next, freed.trans ?_, clean.symm⟩)
    rw [block, block_back free.2]

theorem grow_grows (held : s.dir.transaction = .owned owner .held) : (grow owner).Post oracle s (Grows owner s) := by
  refine .bind (tailFrom_reads maxSlabs 0).finds ?_
  rintro s' r ⟨rfl, found⟩
  cases r with
  | error error => exact .done ⟨held, .refl _⟩
  | ok k =>
    obtain ⟨linked, last⟩ := tailFrom_result maxSlabs 0 s'.dir.linked_zero found
    dsimp only
    split
    · exact .done ⟨held, .refl _⟩
    refine .bind (beginMutation_alone true) ?_
    rintro t r (⟨clean, rfl, rfl⟩ | ⟨-, rfl, error, rfl⟩)
    swap
    · exact .done ⟨held, .refl _⟩
    refine .bind allocateDuring_alone ?_
    rintro t r ⟨entry, next, transaction, -, allocated⟩
    cases r with
    | error error => exact .after_write (.done ⟨transaction.trans held, entry, next, allocated, clean.symm⟩)
    | ok pointer => exact growAt_grows linked last clean allocated.1 entry next allocated.2 (transaction.trans held)

/-! ### Whole operations -/

/-- What an error leaves: the entries and both locks are as they were, and so are chain and blocks but for a slab that was
linked. -/
structure Restored (s s' : Shared) : Prop where
  entry : s'.dir.entry = s.dir.entry
  transaction : s'.dir.transaction = s.dir.transaction
  mutation : s'.heap.mutation = s.heap.mutation
  storage : s'.dir.next = s.dir.next ∧ s'.heap.block = s.heap.block ∨ ∃ k offset, Grown s s' k offset

theorem createHeld_alone (held : s.dir.transaction = .owned owner .held) : (createHeld S owner).Post oracle s fun s' r =>
    (∃ id, r = .ok id) ∨ (Same s s' ∨ ∃ k offset, Grown s s' k offset) ∧ s'.dir.transaction = .clean := by
  have same {s' : Shared} {r : Except Error Id} (undoes : Undoes s s' r) :
      (∃ id, r = .ok id) ∨ (Same s s' ∨ ∃ k offset, Grown s s' k offset) ∧ s'.dir.transaction = .clean :=
    undoes.imp_right fun ⟨same, clean⟩ => ⟨.inl same, clean⟩
  refine .bind (reserveFrom_reads maxSlabs 0).finds ?_
  rintro s' r ⟨rfl, found⟩
  match r, found with
  | .ok slot, found => exact .mono (createAt_undoes (reserveFrom_result _ _ found).word.symm held) fun _ _ => same
  | .error .full, _ =>
    refine .bind (grow_grows held) ?_
    rintro t r ⟨held', grown⟩
    cases r with
    | error error => exact .mono (giveUp_undoes grown held' error) fun _ _ => same
    | ok _ =>
      obtain ⟨k, offset, grown⟩ := grown
      have grew {t' : Shared} {r : Except Error Id} (undoes : Undoes t t' r) :
          (∃ id, r = .ok id) ∨ (Same s' t' ∨ ∃ k offset, Grown s' t' k offset) ∧ t'.dir.transaction = .clean :=
        undoes.imp_right fun ⟨same, clean⟩ => ⟨.inr ⟨k, offset, grown.same same⟩, clean⟩
      refine .bind (reserveFrom_reads maxSlabs 0).finds ?_
      rintro t' r ⟨rfl, found⟩
      cases r with
      | ok slot => exact .mono (createAt_undoes (reserveFrom_result _ _ found).word.symm held') fun _ _ => grew
      | error error => exact .mono (giveUp_undoes (.refl _) held' error) fun _ _ => grew
  | .error (.busy _), _ | .error .stale, _ | .error .admission, _ | .error (.heap _), _ | .error .rolledBack, _
  | .error (.close _), _ | .error .unreachable, _ => exact .mono (giveUp_undoes (.refl _) held _) fun _ _ => same

theorem create_alone (calm : s.dir.transaction ≠ .owned owner .rollingBack) (heapRegion : Nat) (storage : Option Nat)
    (layout : Nat) :
    (create S owner heapRegion storage layout).Post oracle s fun s' r => ∀ error, r = .error error → Restored s s' := by
  have refl : Restored s s := ⟨rfl, rfl, rfl, .inl ⟨rfl, rfl⟩⟩
  unfold create
  split
  · exact .done fun _ _ => refl
  split
  · exact .done fun _ _ => refl
  refine .after_action ?_
  cases transaction : s.dir.transaction with
  | clean =>
    have begun : ({ s with dir := s.dir.begin owner } : Shared).dir.transaction = .owned owner .held := rfl
    refine .mono (createHeld_alone begun) ?_
    rintro s' r (⟨id, rfl⟩ | ⟨same | ⟨k, offset, grown⟩, clean⟩) error failed
    · cases failed
    · exact ⟨same.entry, clean.trans transaction.symm, same.mutation, .inl ⟨same.next, same.block⟩⟩
    · have grown' : Grown s s' k offset := ⟨grown.linked, grown.last, grown.free, grown.entry, grown.next, grown.block,
        grown.mutation⟩
      exact ⟨grown.entry, clean.trans transaction.symm, grown.mutation, .inr ⟨k, offset, grown'⟩⟩
  | owned busy phase =>
    show (createBusy owner (.busy busy)).Post oracle s _
    unfold createBusy
    split
    · refine .after_read ?_
      rw [if_neg calm]
      exact .done fun _ _ => refl
    · exact .done fun _ _ => refl

/-! ### Removing -/

/-- The operation succeeds, or the members are the same as well. -/
def Returns (s s' : Shared) (r : Except Error Unit) : Prop :=
  r = .ok () ∨ Same s s' ∧ s'.members = s.members ∧ s'.dir.transaction = .clean

theorem giveUp_returns (same : Same s t) (members : t.members = s.members) (held : t.dir.transaction = .owned owner .held)
    (error : Error) : (giveUp owner error : DirProg (Except Error Unit)).Post oracle t (Returns s) :=
  .mono (giveUp_alone held error) fun _ _ ⟨same', members', clean⟩ => .inr ⟨same.trans same', members'.trans members, clean⟩

theorem removeHeld_returns {id : Id} {offset : Nat} (published : (s.dir.entry id.slab id.entry).word =
    ⟨id.generation, .published⟩)
    (clean : s.heap.mutation = .clean) (dir : t.dir = s.dir) (block : t.heap.block = s.heap.block)
    (members : t.members = s.members) :
    (removeHeld S owner id offset).Post oracle t (Returns s) := by
  have persists (t : Shared) : (persist owner id.slab id.entry offset .remove).Post oracle t fun t' _ =>
      t'.dir.entry = t.dir.entry ∧ t'.dir.next = t.dir.next ∧ t'.heap = t.heap ∧ t'.members = t.members :=
    .after_write (.after_write (.after_write (.after_write (.write ⟨rfl, rfl, rfl, rfl⟩))))
  refine .after_write (.bind (persists _) ?_)
  rintro t₁ - ⟨entry, next, heap, members₁⟩
  have closes : (closeUnique S owner offset).Post oracle t₁ fun t' r => r = .ok () ∨ t' = t₁ ∧ ∃ error, r = .error error := by
    refine .action ?_
    dsimp only
    split
    · exact .inl rfl
    · exact .inr ⟨rfl, _, rfl⟩
  refine .bind closes ?_
  rintro t₂ r (rfl | ⟨rfl, error, rfl⟩)
  · refine .after_write (.bind (deallocateDuring_alone offset) fun t₃ _ _ => ?_)
    exact .after_write (.after_write (.after_write (.after_write (.after_action (.done (.inl rfl))))))
  · refine .after_write (.after_write (.after_write ?_))
    refine giveUp_returns ?_ ?_ rfl (.close error)
    · have chain : t.dir.next = s.dir.next := congrArg Dir.next dir
      refine ⟨?_, next.trans chain, (congrArg Heap.block heap).trans block, clean.symm⟩
      rw [← published]
      exact setWord_back (entry.trans (by rw [← dir]; rfl))
    · exact members₁.trans members

theorem remove_alone (heapRegion : Nat) (id : Id) (mapped : Nat) (fits inHeap : Bool) :
    (remove S owner heapRegion id mapped fits inHeap).Post oracle s fun s' r =>
      ∀ error, r = .error error → Same s s' ∧ s'.members = s.members ∧ s'.dir.transaction = s.dir.transaction := by
  have refl : Same s s ∧ s.members = s.members ∧ s.dir.transaction = s.dir.transaction := ⟨.refl s, rfl, rfl⟩
  unfold remove
  split
  · exact .done fun _ _ => refl
  split
  · exact .done fun _ _ => refl
  refine .bind (offset_reads id).finds ?_
  rintro s' r ⟨rfl, -⟩
  cases r with
  | error error => exact .done fun _ _ => refl
  | ok offset =>
    dsimp only
    split
    · exact .done fun _ _ => refl
    refine .after_action ?_
    cases transaction : s'.dir.transaction with
    | owned busy phase => exact .done fun _ _ => ⟨.refl _, rfl, transaction⟩
    | clean =>
      -- from here on the transaction is claimed, and given up by every error
      dsimp only
      refine .mono (Q := Returns { s' with dir := s'.dir.begin owner }) ?_ ?_
      swap
      · rintro t r (rfl | ⟨same, members, clean⟩) error failed
        · cases failed
        · exact ⟨⟨same.entry, same.next, same.block, same.mutation⟩, members, clean⟩
      refine .bind (entry_reads id.slab id.entry).finds ?_
      rintro t r ⟨rfl, -⟩
      cases r with
      | error error => exact giveUp_returns (.refl _) rfl rfl error
      | ok _ =>
        refine .after_read ?_
        split
        · exact giveUp_returns (.refl _) rfl rfl .stale
        rename_i published
        split
        · exact giveUp_returns (.refl _) rfl rfl .stale
        refine .bind (beginMutation_alone true) ?_
        rintro t r (⟨clean, rfl, rfl⟩ | ⟨-, rfl, error, rfl⟩)
        · exact removeHeld_returns (not_not.mp published) clean rfl rfl rfl
        · exact giveUp_returns (.refl _) rfl rfl (.heap error)

/-- The mapping at an offset is a member of a published entry. -/
def Member (owner mapped : Nat) (s : Shared) : Prop :=
  ∃ k e, s.dir.Linked k ∧ e < capacity ∧ (s.dir.entry k e).word.state = .published ∧ (s.dir.entry k e).offset = mapped ∧
    (s.members mapped).testBit owner = true

/-- **Errors are all or nothing.** If the caller has no rollback pending, an error of `create_in` or `remove_in` that runs
alone leaves the entries and both locks as they were, and the chain and the blocks but for a slab that was linked; a mapping
that was to be removed is still a member of its entry. -/
theorem failure_restores (S : Setup) (owner : Nat) (s : Shared) (calm : s.dir.transaction ≠ .owned owner .rollingBack)
    (oracle : Nat → Nat) (n : Nat) (error : Error) :
    (∀ heapRegion storage layout, ((create S owner heapRegion storage layout).solo oracle n s).2 = .error error →
      Restored s ((create S owner heapRegion storage layout).solo oracle n s).1) ∧
    ∀ heapRegion id mapped fits inHeap, ((remove S owner heapRegion id mapped fits inHeap).solo oracle n s).2 = .error error →
      Same s ((remove S owner heapRegion id mapped fits inHeap).solo oracle n s).1 ∧
      Restored s ((remove S owner heapRegion id mapped fits inHeap).solo oracle n s).1 ∧
      (Member owner mapped s → Member owner mapped ((remove S owner heapRegion id mapped fits inHeap).solo oracle n s).1) := by
  refine ⟨fun heapRegion storage layout failed => create_alone calm heapRegion storage layout n error failed, ?_⟩
  intro heapRegion id mapped fits inHeap failed
  obtain ⟨same, members, transaction⟩ := remove_alone heapRegion id mapped fits inHeap n error failed
  refine ⟨same, ⟨same.entry, transaction, same.mutation, .inl ⟨same.next, same.block⟩⟩, ?_⟩
  rintro ⟨k, e, linked, inside, published, offset, member⟩
  unfold Member Dir.Linked
  rw [same.entry, same.next, members]
  exact ⟨k, e, linked, inside, published, offset, member⟩

end Failure

/-- Storage is allocated, but the layout cannot be initialised in it. -/
def refusing (n : Nat) : Nat := if n = 0 then 64 else if n = 1 then 0 else 1

/-- The creation in an empty directory fails at its last step and is undone. -/
theorem failure_restores_empty :
    ((create Identity.oneThread 0 1 (some 8) 8).solo refusing 0 .init).2 = .error .admission ∧
      Restored .init ((create Identity.oneThread 0 1 (some 8) 8).solo refusing 0 .init).1 := by
  have failed : ((create Identity.oneThread 0 1 (some 8) 8).solo refusing 0 .init).2 = .error .admission := by decide +kernel
  exact ⟨failed, (failure_restores Identity.oneThread 0 .init (by decide) refusing 0 .admission).1 1 (some 8) 8 failed⟩

/-- Another thread of the caller has the transaction. -/
def heldByCaller : Shared := { Shared.init with dir := Dir.init.setTransaction (.owned 0 .held) }

/-- A transaction that the caller itself has is neither over nor rolled back after the error. -/
theorem failure_leaves_held :
    ((create Identity.oneThread 0 1 (some 8) 8).solo (fun _ => 0) 0 heldByCaller).2 = .error (.busy 0) ∧
      ((create Identity.oneThread 0 1 (some 8) 8).solo (fun _ => 0) 0 heldByCaller).1.dir.transaction = .owned 0 .held := by
  decide

end Evering.Directory.Failure
