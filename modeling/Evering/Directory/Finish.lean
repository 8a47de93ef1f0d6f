import Evering.Directory.Reading

/-!
# Recovery finishes the transaction it takes over

`recover` run alone, from any state. All its successful exits but one commit the transaction. The exit through
`quarantine` commits inside a `debug_assert!`, so that a build without debug assertions leaves the transaction
with the recovering participant.
-/

namespace Evering.Directory

open Interleave

variable (S : Setup) (live dead : Nat) (oracle : Nat → Nat) (n : Nat) (s : Shared) {β : Type}

/-! ### Which states end in quarantine -/

/-- The first entry of the chain that is `PENDING`, `CLOSING`, `REMOVING` or `RELEASED`. -/
structure Dir.First (d : Dir) (k e : Nat) : Prop where
  linked : d.Linked k
  inside : e < capacity
  moving : (d.entry k e).word.state.isCalm = false
  calm : ∀ k' e', e' < capacity → k' < k ∨ k' = k ∧ e' < e → (d.entry k' e').word.state.isCalm = true

/-- The states of phase, kind, entry and heap from which `recover` gives up the entry. -/
def Stuck (dead : Nat) (mutation : Mutation) : Phase → Kind → EntryWord → Prop
  | .held, _, ⟨generation, .pending⟩ => generation = 0
  | .held, _, _ => True
  | _, .remove, ⟨_, .closing⟩ => mutation = .poisoned
  | _, .remove, ⟨_, .released⟩ => mutation = .poisoned
  | _, .remove, ⟨_, .vacant⟩ => False
  | _, .remove, ⟨_, .removing⟩ => mutation = .poisoned ∨ mutation = .owned dead
  | _, .create, ⟨generation, .pending⟩ => mutation = .poisoned ∨ mutation = .owned dead ∨ generation = 0
  | _, .grow, _ => False
  | _, _, _ => True

/-- `recover` for `dead` gives up an entry of this state. -/
def Quarantines (s : Shared) (dead : Nat) : Prop :=
  match s.dir.transaction with
  | .clean => False
  | .owned _ .held => ∃ k e, s.dir.First k e ∧
      Stuck dead s.heap.mutation .held s.dir.pendingKind (s.dir.entry k e).word
  | .owned _ phase => Stuck dead s.heap.mutation phase s.dir.pendingKind
      (s.dir.entry s.dir.pendingSlab s.dir.pendingEntry).word

/-- A successful end leaves the transaction clean, except for a quarantine in a build without debug
assertions. -/
def Ends (r : Shared × Except Error Recovered) (stuck : Prop) : Prop :=
  ∀ result, r.2 = .ok result → (r.1.dir.transaction = .clean ↔ S.debug = true ∨ ¬stuck)

variable {stuck : Prop} (phase : Phase)

variable {S} in
theorem Ends.of_error {r : Shared × Except Error Recovered} {error : Error} (h : r.2 = .error error) : Ends S r stuck := by
  intro result ok
  rw [h] at ok
  cases ok

variable {S} in
theorem Ends.of_clean {r : Shared × Except Error Recovered}
    (clean : r.1.dir.transaction = .clean) (passed : ¬stuck) : Ends S r stuck :=
  fun _ _ => ⟨fun _ => .inr passed, fun _ => clean⟩

/-! ### The exits -/

theorem transfer_alone (phase next : Phase) (bound : Bool) (k : Except Error Unit → DirProg β) :
    ((transfer live dead phase next bound).bind k).solo oracle n s = if s.dir.transaction = .owned dead phase then
        (k (.ok ())).solo oracle n { s with
          dir := (s.dir.setTransaction (.owned live next)).setHandled true
          heap := { s.heap with bound } }
      else (k (.error (.busy (s.dir.transaction.wordOwner.getD dead)))).solo oracle n s := by
  by_cases here : s.dir.transaction = .owned dead phase
  · simp [transfer, here]
  · simp [transfer, here]

theorem deallocateDuring_alone (owner offset : Nat) (k : Unit → DirProg β) :
    ((deallocateDuring owner offset).bind k).solo oracle n s = (k ()).solo oracle n { s with
      heap := (((s.heap.enter owner).pass offset).leave owner).setBlock offset .free
      dir := s.dir.pass offset } := rfl

theorem finish_ends (result : Recovered) (passed : ¬stuck) : Ends S ((finish live result).solo oracle n s) stuck := by
  refine .of_clean ?_ passed
  simp [finish, clearPending, update, commit, Dir.setTransaction, Dir.setHandled, Dir.issue]

theorem quarantine_ends (k e : Nat) (h : stuck) : Ends S ((quarantine S live dead phase k e).solo oracle n s) stuck := by
  simp only [quarantine, Prog.bind_eq, transfer_alone]
  by_cases here : s.dir.transaction = .owned dead phase
  swap
  · rw [if_neg here]
    exact .of_error rfl
  rw [if_pos here]
  intro result _
  rcases debug : S.debug with _ | _
  · cases phase <;>
      simp [loadState, storeState, update, dropTransaction, h, Dir.setTransaction, Dir.setHandled,
        Dir.setWord, Dir.setEntry]
  · simp [loadState, storeState, update, commit, Dir.setTransaction, Dir.setHandled,
      Dir.setWord, Dir.setEntry, Dir.issue]

theorem claimHeapAndTransfer_alone {k : Except Error Unit → DirProg (Except Error Recovered)}
    (errors : ∀ error, k (.error error) = pure (.error error)) (rest : ∀ s', Ends S ((k (.ok ())).solo oracle n s') stuck) :
    Ends S (((claimHeapAndTransfer live dead phase).bind k).solo oracle n s) stuck := by
  simp only [claimHeapAndTransfer, Prog.bind_eq, Prog.bind_assoc, beginMutation, Prog.solo_action]
  rcases s.heap.mutation with _ | owner | _
  · simp only [Prog.bind_assoc, transfer_alone]
    split
    · exact rest _
    · simp only [Prog.pure_eq, Prog.done_bind, errors]
      exact .of_error rfl
  · simp only [Prog.pure_eq, Prog.done_bind, errors]
    exact .of_error rfl
  · simp only [Prog.pure_eq, Prog.done_bind, errors]
    exact .of_error rfl

theorem recoverUncleared_ends (k e : Nat) (h : s.heap.mutation = .poisoned → stuck) :
    Ends S ((recoverUncleared S live dead phase k e).solo oracle n s) stuck := by
  simp only [recoverUncleared, Prog.bind_eq, mutationState, Prog.solo_read]
  rcases mutation : s.heap.mutation with _ | owner | _
  · exact .of_error rfl
  · exact .of_error rfl
  · exact quarantine_ends S live dead oracle n s phase k e (h mutation)

theorem transfer_ends (phase next : Phase) (bound : Bool) {k : Except Error Unit → DirProg (Except Error Recovered)}
    (errors : ∀ error, k (.error error) = pure (.error error)) (rest : ∀ s', Ends S ((k (.ok ())).solo oracle n s') stuck) :
    Ends S (((transfer live dead phase next bound).bind k).solo oracle n s) stuck := by
  rw [transfer_alone]
  split
  · exact rest _
  · rw [errors]
    exact .of_error rfl

theorem recoverRemoving_ends (k e generation : Nat) (passed : ¬stuck) :
    Ends S ((recoverRemoving live dead phase k e generation).solo oracle n s) stuck :=
  claimHeapAndTransfer_alone S live dead oracle n s phase (fun _ => rfl) fun _ =>
    finish_ends S live oracle n _ .released passed

theorem recoverUnclosed_ends (k e generation : Nat) (passed : ¬stuck) :
    Ends S ((recoverUnclosed live dead phase k e generation).solo oracle n s) stuck :=
  transfer_ends S live dead oracle n s phase phase false (fun _ => rfl) fun _ =>
    finish_ends S live oracle n _ .rolledBack passed

/-- `clear_dead_owner`, which fails on a heap that is poisoned or that somebody else has. -/
theorem clearDeadOwner_alone {k e : Nat} {phase : Phase} {rest : DirProg (Except Error Recovered)}
    (cleared : s.heap.mutation ≠ .poisoned → ∀ s', Ends S (rest.solo oracle n s') (s.heap.mutation = .poisoned)) :
    Ends S (((clearDeadOwner dead).bind fun ok =>
      if (!ok) = true then recoverUncleared S live dead phase k e else rest).solo oracle n s)
      (s.heap.mutation = .poisoned) := by
  rw [clearDeadOwner, Prog.solo_action]
  by_cases mine : s.heap.mutation = .owned dead
  · rw [if_pos mine]
    exact cleared (by simp [mine]) _
  rw [if_neg mine]
  by_cases clean : s.heap.mutation = .clean
  · simp only [clean, decide_true, Bool.not_true, Bool.false_eq_true, if_false]
    rw [← clean]
    exact cleared (by simp [clean]) _
  · simp only [clean, decide_false, Bool.not_false, if_true]
    exact recoverUncleared_ends S live dead oracle n s phase k e id

theorem recoverClosing_ends (k e generation : Nat) :
    Ends S ((recoverClosing S live dead phase k e generation).solo oracle n s) (s.heap.mutation = .poisoned) := by
  refine clearDeadOwner_alone S live dead oracle n s fun healthy s' => ?_
  simp only [Prog.bind_eq, closedAt, Prog.solo_read]
  split
  · exact recoverUnclosed_ends S live dead oracle n s' phase k e generation healthy
  · exact recoverRemoving_ends S live dead oracle n s' phase k e generation healthy

theorem recoverReleased_ends (k e generation : Nat) :
    Ends S ((recoverReleased S live dead phase k e generation).solo oracle n s) (s.heap.mutation = .poisoned) := by
  refine clearDeadOwner_alone S live dead oracle n s fun healthy s' => ?_
  exact transfer_ends S live dead oracle n s' phase phase false (fun _ => rfl) fun _ =>
    finish_ends S live oracle n _ .released healthy

theorem recoverVacant_ends : Ends S ((recoverVacant live dead phase).solo oracle n s) False := by
  have vacated : Ends S ((recoverVacated live dead phase).solo oracle n s) False :=
    transfer_ends S live dead oracle n s phase phase false (fun _ => rfl) fun _ =>
      finish_ends S live oracle n _ .released id
  simp only [recoverVacant, Prog.bind_eq, mutationState, Prog.solo_read]
  rcases s.heap.mutation with _ | owner | _
  · exact vacated
  · dsimp only
    split
    · exact .of_error rfl
    · exact vacated
  · exact vacated

theorem poisonDead_alone (k : Unit → DirProg β) : ∃ s', ((poisonDead dead).bind k).solo oracle n s = (k ()).solo oracle n s' ∧
      s'.heap.mutation = if s.heap.mutation = .owned dead then .poisoned else s.heap.mutation := by
  by_cases mine : s.heap.mutation = .owned dead
  · refine ⟨{ s with heap := s.heap.setMutation .poisoned false }, ?_, ?_⟩
    · simp [poisonDead, mutationState, poisonOwner, mine, Prog.bind_assoc]
    · rw [if_pos mine]
      rfl
  · refine ⟨s, ?_, by rw [if_neg mine]⟩
    simp [poisonDead, mutationState, mine, Prog.bind_assoc]

theorem recoverGuarded_ends (k e : Nat) {clean : DirProg (Except Error Recovered)}
    (poisoned : s.heap.mutation = .poisoned → stuck)
    (rest : s.heap.mutation = .clean → Ends S (clean.solo oracle n s) stuck) :
    Ends S ((recoverGuarded S live dead phase k e clean).solo oracle n s) stuck := by
  simp only [recoverGuarded, Prog.bind_eq, mutationState, Prog.solo_read]
  rcases mutation : s.heap.mutation with _ | owner | _
  · exact rest mutation
  · exact .of_error rfl
  · exact quarantine_ends S live dead oracle n s phase k e (poisoned mutation)

theorem recoverPending_ends (k e generation : Nat) (h : stuck ↔ generation = 0) :
    Ends S ((recoverPending S live dead phase k e generation).solo oracle n s) stuck := by
  rw [recoverPending]
  split
  · rename_i zero
    exact quarantine_ends S live dead oracle n s phase k e (h.mpr zero)
  · rename_i positive
    refine claimHeapAndTransfer_alone S live dead oracle n s phase (fun _ => rfl) fun s' => ?_
    refine .of_clean ?_ (mt h.mp positive)
    simp [deallocateDuring_alone, storeState, clearPending, update, commitMutation, commit, Dir.setTransaction,
      Dir.setHandled, Dir.issue]

theorem recoverReserved_ends (k e generation : Nat) (h : stuck ↔ generation = 0) :
    Ends S ((recoverReserved S live dead phase k e generation).solo oracle n s) stuck := by
  rw [recoverReserved]
  split
  · rename_i zero
    exact quarantine_ends S live dead oracle n s phase k e (h.mpr zero)
  · rename_i positive
    simp only [Prog.bind_eq, transfer_alone]
    split
    · refine .of_clean ?_ (mt h.mp positive)
      simp [storeState, update, commit, Dir.setTransaction, Dir.setHandled, Dir.setWord, Dir.setEntry, Dir.issue]
    · exact .of_error rfl

theorem stuck_evidence {mutation : Mutation} {phase : Phase} {kind : Kind} {word : EntryWord} (evidence : phase ≠ .held) :
    Stuck dead mutation phase kind word = Stuck dead mutation .evidence kind word := by
  obtain ⟨generation, state⟩ := word
  cases phase with
  | held => exact absurd rfl evidence
  | evidence => rfl
  | rollingBack => cases kind <;> cases state <;> rfl

theorem stuck_otherwise {mutation : Mutation} {phase : Phase} {kind : Kind} {word : EntryWord}
    (growth : phase ≠ .held → kind ≠ .grow) (removal : ¬(phase ≠ .held ∧ kind = .remove ∧
      (word.state = .closing ∨ word.state = .released ∨ word.state = .vacant ∨ word.state = .removing)))
    (reserved : ¬(phase = .held ∧ word.state = .pending))
    (creation : ¬(phase ≠ .held ∧ kind = .create ∧ word.state = .pending)) : Stuck dead mutation phase kind word := by
  obtain ⟨generation, state⟩ := word
  cases phase <;> cases kind <;> cases state <;> simp_all [Stuck]

theorem recoverPoisoned_ends (kind : Kind) (k e : Nat) (word : EntryWord) {mutation : Mutation}
    (poisoned : s.heap.mutation = if mutation = .owned dead then .poisoned else mutation)
    (growth : phase ≠ .held → kind ≠ .grow) (removal : ¬(phase ≠ .held ∧ kind = .remove ∧
      (word.state = .closing ∨ word.state = .released ∨ word.state = .vacant))) :
    Ends S ((recoverPoisoned S live dead phase kind k e word).solo oracle n s) (Stuck dead mutation phase kind word) := by
  obtain ⟨generation, state⟩ := word
  have poisoned' : s.heap.mutation = .poisoned ↔ mutation = .poisoned ∨ mutation = .owned dead := by
    rw [poisoned]
    split <;> simp_all
  rw [recoverPoisoned]
  by_cases reserved : phase = .held ∧ state = .pending
  · rw [if_pos reserved]
    obtain ⟨rfl, rfl⟩ := reserved
    exact recoverReserved_ends S live dead oracle n s .held k e generation Iff.rfl
  rw [if_neg reserved]
  by_cases creation : phase ≠ .held ∧ kind = .create ∧ state = .pending
  · rw [if_pos creation]
    obtain ⟨evidence, rfl, rfl⟩ := creation
    rw [stuck_evidence dead evidence]
    refine recoverGuarded_ends S live dead oracle n s phase k e (fun h => ?_) fun clean => ?_
    · exact (poisoned'.mp h).imp_right .inl
    · refine recoverPending_ends S live dead oracle n s phase k e generation ⟨fun stuck => ?_, fun zero => ?_⟩
      · rcases stuck with h | h | zero
        · rw [poisoned'.mpr (.inl h)] at clean
          cases clean
        · rw [poisoned'.mpr (.inr h)] at clean
          cases clean
        · exact zero
      · exact .inr (.inr zero)
  rw [if_neg creation]
  by_cases removing : phase ≠ .held ∧ kind = .remove ∧ state = .removing
  · rw [if_pos removing]
    obtain ⟨evidence, rfl, rfl⟩ := removing
    rw [stuck_evidence dead evidence]
    refine recoverGuarded_ends S live dead oracle n s phase k e poisoned'.mp fun clean => ?_
    refine recoverRemoving_ends S live dead oracle n s phase k e generation fun stuck => ?_
    rw [poisoned'.mpr stuck] at clean
    cases clean
  rw [if_neg removing]
  refine quarantine_ends S live dead oracle n s phase k e ?_
  refine stuck_otherwise dead growth (fun h => ?_) reserved creation
  obtain ⟨evidence, kind, state⟩ := h
  rcases state with h | h | h | h
  · exact removal ⟨evidence, kind, .inl h⟩
  · exact removal ⟨evidence, kind, .inr (.inl h)⟩
  · exact removal ⟨evidence, kind, .inr (.inr h)⟩
  · exact removing ⟨evidence, kind, h⟩

theorem recoverState_ends (kind : Kind) (k e : Nat) (word : EntryWord) (growth : phase ≠ .held → kind ≠ .grow) :
    Ends S ((recoverState S live dead phase kind k e word).solo oracle n s) (Stuck dead s.heap.mutation phase kind word) := by
  rw [recoverState]
  by_cases closing : phase ≠ .held ∧ kind = .remove ∧ word.state = .closing
  · rw [if_pos closing]
    obtain ⟨generation, state⟩ := word
    obtain ⟨evidence, rfl, rfl⟩ := closing
    rw [stuck_evidence dead evidence]
    exact recoverClosing_ends S live dead oracle n s phase k e generation
  rw [if_neg closing]
  by_cases released : phase ≠ .held ∧ kind = .remove ∧ word.state = .released
  · rw [if_pos released]
    obtain ⟨generation, state⟩ := word
    obtain ⟨evidence, rfl, rfl⟩ := released
    rw [stuck_evidence dead evidence]
    exact recoverReleased_ends S live dead oracle n s phase k e generation
  rw [if_neg released]
  by_cases vacant : phase ≠ .held ∧ kind = .remove ∧ word.state = .vacant
  · rw [if_pos vacant]
    obtain ⟨generation, state⟩ := word
    obtain ⟨evidence, rfl, rfl⟩ := vacant
    rw [stuck_evidence dead evidence]
    exact recoverVacant_ends S live dead oracle n s phase
  rw [if_neg vacant]
  obtain ⟨s', ran, mutation⟩ := poisonDead_alone dead oracle n s fun _ =>
    recoverPoisoned S live dead phase kind k e word
  rw [Prog.bind_eq, ran]
  refine recoverPoisoned_ends S live dead oracle n s' phase kind k e word mutation growth fun h => ?_
  obtain ⟨evidence, kind, state⟩ := h
  rcases state with h | h | h
  · exact closing ⟨evidence, kind, h⟩
  · exact released ⟨evidence, kind, h⟩
  · exact vacant ⟨evidence, kind, h⟩

/-! ### Walks over the chain -/

/-- What `transition` finds among `m` entries of a slab -/
def Dir.MovesIn (d : Dir) (k m e : Nat) : Option (Nat × Nat) → Prop
  | none => ∀ e', e ≤ e' → e' < e + m → (d.entry k e').word.state.isCalm = true
  | some (k', e') => k' = k ∧ e ≤ e' ∧ e' < e + m ∧ (d.entry k e').word.state.isCalm = false ∧
      ∀ e'', e ≤ e'' → e'' < e' → (d.entry k e'').word.state.isCalm = true

theorem transitionIn_result (k m e : Nat) : s.dir.MovesIn k m e ((transitionIn k m e).result s) := by
  induction m generalizing e with
  | zero => exact fun e' h h' => by omega
  | succ m ih =>
    show Dir.MovesIn _ _ _ _ (Prog.result (if (!(s.dir.entry k e).word.state.isCalm) = true then
      _ else transitionIn k m (e + 1)) s)
    rcases calm : (s.dir.entry k e).word.state.isCalm with _ | _
    · exact ⟨rfl, Nat.le_refl _, by omega, calm, fun e'' h h' => by omega⟩
    · have here : ∀ e'', e ≤ e'' → ¬e + 1 ≤ e'' → (s.dir.entry k e'').word.state.isCalm = true := by
        intro e'' h h'
        obtain rfl : e'' = e := by omega
        exact calm
      have later := ih (e + 1)
      show Dir.MovesIn _ _ _ _ ((transitionIn k m (e + 1)).result s)
      generalize (transitionIn k m (e + 1)).result s = r at later ⊢
      rcases r with _ | ⟨k', e'⟩
      · intro e' h h'
        by_cases next : e + 1 ≤ e'
        · exact later e' next (by omega)
        · exact here e' h next
      · obtain ⟨rfl, le, lt, moving, before⟩ := later
        refine ⟨rfl, by omega, by omega, moving, fun e'' h h' => ?_⟩
        by_cases next : e + 1 ≤ e''
        · exact before e'' next h'
        · exact here e'' h next

/-- What `transition` finds -/
def Dir.Moves (d : Dir) : Except Error (Option (Nat × Nat)) → Prop
  | .error _ => True
  | .ok none => ∀ k e, e < capacity → d.Linked k → (d.entry k e).word.state.isCalm = true
  | .ok (some (k, e)) => d.First k e

theorem transitionFrom_result (m k : Nat) (linked : s.dir.Linked k)
    (before : ∀ k' e', e' < capacity → k' < k → (s.dir.entry k' e').word.state.isCalm = true) :
    s.dir.Moves ((transitionFrom m k).result s) := by
  induction m generalizing k with
  | zero => trivial
  | succ m ih =>
    have inside := transitionIn_result s k capacity 0
    rw [transitionFrom, Prog.bind_eq, (transitionIn_reads k capacity 0).result_bind]
    generalize (transitionIn k capacity 0).result s = r at inside ⊢
    rcases r with _ | ⟨k', e'⟩
    · have here : ∀ k' e', e' < capacity → k' < k + 1 → (s.dir.entry k' e').word.state.isCalm = true := by
        intro k' e' lt h
        by_cases earlier : k' < k
        · exact before k' e' lt earlier
        · obtain rfl : k' = k := by omega
          exact inside e' (Nat.zero_le _) (by omega)
      show Dir.Moves _ (Prog.result (if s.dir.next k = 0 then _ else transitionFrom m (k + 1)) s)
      split
      · next last =>
        intro k' e' lt reached
        refine here k' e' lt ?_
        by_contra late
        exact reached k (by omega) last
      · next more => exact ih (k + 1) (Dir.linked_succ.mpr ⟨linked, more⟩) here
    · obtain ⟨rfl, -, lt, moving, calm⟩ := inside
      refine ⟨linked, by omega, moving, ?_⟩
      rintro k'' e'' lt' (h | ⟨rfl, h⟩)
      · exact before k'' e'' lt' h
      · exact calm e'' (Nat.zero_le _) h

theorem Dir.First.unique {d : Dir} {k e k' e' : Nat} (h : d.First k e) (h' : d.First k' e') : k = k' ∧ e = e' := by
  have order : ∀ {k e k' e'}, d.First k e → d.First k' e' → ¬(k < k' ∨ k = k' ∧ e < e') := by
    intro k e k' e' h h' lt
    have calm := h'.calm k e h.inside lt
    rw [h.moving] at calm
    cases calm
  have := order h h'
  have := order h' h
  omega

/-! ### Recovery as a whole -/

theorem reads_ends {prog : DirProg β} (reads : Reading prog) {rest : β → DirProg (Except Error Recovered)}
    (h : ∀ r, Ends S ((rest r).solo oracle n s) stuck) : Ends S ((prog.bind rest).solo oracle n s) stuck := by
  rw [reads.solo_bind]
  exact h _

theorem recoverEntry_ends (kind : Kind) (k e : Nat) (growth : phase ≠ .held → kind ≠ .grow) :
    Ends S ((recoverEntry S live dead phase kind k e).solo oracle n s)
      (Stuck dead s.heap.mutation phase kind (s.dir.entry k e).word) := by
  refine reads_ends S oracle n s (entry_reads k e) fun r => ?_
  rcases r with error | _
  · exact .of_error rfl
  · exact recoverState_ends S live dead oracle n s phase kind k e _ growth

theorem recoverHeld_ends (passed : ¬stuck) : Ends S ((recoverHeld live dead .held).solo oracle n s) stuck := by
  have cleared : ∀ s' result, Ends S ((transferAndClear live dead .held result).solo oracle n s') stuck := by
    intro s' result
    simp only [transferAndClear, Prog.bind_eq, transfer_alone]
    split
    · refine .of_clean ?_ passed
      simp [commit, Dir.setTransaction, Dir.setHandled, Dir.issue]
    · exact .of_error rfl
  simp only [recoverHeld, Prog.bind_eq, ne_eq, not_true_eq_false, if_false, mutationState, Prog.solo_read]
  split
  · exact cleared _ _
  · exact cleared _ _

theorem recoverLinked_ends (result : Recovered) (passed : ¬stuck) :
    Ends S ((recoverLinked live dead phase result).solo oracle n s) stuck :=
  transfer_ends S live dead oracle n s phase phase false (fun _ => rfl) fun _ =>
    finish_ends S live oracle n _ result passed

theorem recoverUnlinked_ends (offset : Nat) (passed : ¬stuck) :
    Ends S ((recoverUnlinked live dead phase offset).solo oracle n s) stuck := by
  simp only [recoverUnlinked, Prog.bind_eq, mutationState, Prog.solo_read]
  rcases s.heap.mutation with _ | owner | _
  · refine claimHeapAndTransfer_alone S live dead oracle n s phase (fun _ => rfl) fun s' => ?_
    refine .of_clean ?_ passed
    simp [deallocateDuring_alone, clearPending, update, commitMutation, commit, Dir.setTransaction,
      Dir.setHandled, Dir.issue]
  · exact .of_error rfl
  · exact recoverLinked_ends S live dead oracle n s phase .quarantined passed

theorem recoverLink_ends (offset link : Nat) (passed : ¬stuck) :
    Ends S ((recoverLink live dead phase true offset link).solo oracle n s) stuck := by
  simp only [recoverLink, Prog.bind_eq, if_true]
  split
  · exact recoverLinked_ends S live dead oracle n s phase .retained passed
  split
  · exact recoverLinked_ends S live dead oracle n s phase .quarantined passed
  · obtain ⟨s', ran, -⟩ := poisonDead_alone dead oracle n s fun _ => recoverUnlinked live dead phase offset
    rw [ran]
    exact recoverUnlinked_ends S live dead oracle n s' phase offset passed

theorem recoverGrowth_ends (passed : ¬stuck) : Ends S ((recoverGrowth live dead phase true).solo oracle n s) stuck := by
  simp only [recoverGrowth, Prog.bind_eq, Prog.solo_read]
  rcases s.dir.pendingSlab with _ | predecessor
  · exact .of_error rfl
  simp only [Prog.solo_read, offsetOf, Prog.bind_eq, Prog.bind_assoc, Prog.solo_pick, Prog.pure_eq, Prog.done_bind]
  split
  · exact .of_error rfl
  · refine reads_ends S oracle (n + 1) s (walk_reads 0 predecessor) fun r => ?_
    rcases r with error | _
    · exact .of_error rfl
    · exact recoverLink_ends S live dead oracle (n + 1) s phase _ _ passed

theorem transition_ends {rest : Except Error (Option (Nat × Nat)) → DirProg (Except Error Recovered)}
    (error : ∀ error, Ends S ((rest (.error error)).solo oracle n s) stuck)
    (none : (∀ k e, e < capacity → s.dir.Linked k → (s.dir.entry k e).word.state.isCalm = true) →
      Ends S ((rest (.ok none)).solo oracle n s) stuck)
    (some : ∀ k e, s.dir.First k e → Ends S ((rest (.ok (some (k, e)))).solo oracle n s) stuck) :
    Ends S ((transition.bind rest).solo oracle n s) stuck := by
  rw [transition, (transitionFrom_reads maxSlabs 0).solo_bind]
  have first := transitionFrom_result s maxSlabs 0 s.dir.linked_zero fun k' e' _ h => by omega
  generalize (transitionFrom maxSlabs 0).result s = r at first ⊢
  rcases r with e | _ | ⟨k, e⟩
  · exact error e
  · exact none first
  · exact some k e first

theorem recoverOwned_ends (h : s.dir.transaction = .owned dead phase) :
    Ends S ((recoverOwned S live dead phase).solo oracle n s) (Quarantines s dead) := by
  simp only [recoverOwned, Prog.bind_eq, Prog.solo_read]
  by_cases growth : phase ≠ .held ∧ s.dir.pendingKind = .grow
  · rw [if_pos growth]
    refine recoverGrowth_ends S live dead oracle n s phase ?_
    rw [Quarantines, h]
    obtain ⟨evidence, kind⟩ := growth
    cases phase with
    | held => exact absurd rfl evidence
    | evidence => simp [kind, Stuck]
    | rollingBack => simp [kind, Stuck]
  rw [if_neg growth]
  by_cases evidence : phase ≠ .held
  · rw [if_pos evidence]
    simp only [Prog.solo_read]
    have same : Quarantines s dead = Stuck dead s.heap.mutation phase s.dir.pendingKind
        (s.dir.entry s.dir.pendingSlab s.dir.pendingEntry).word := by
      rw [Quarantines, h]
      cases phase with
      | held => exact absurd rfl evidence
      | evidence => rfl
      | rollingBack => rfl
    rw [same]
    exact recoverEntry_ends S live dead oracle n s phase _ _ _ fun _ kind => growth ⟨evidence, kind⟩
  rw [if_neg evidence]
  obtain rfl : phase = .held := not_not.mp evidence
  refine transition_ends S oracle n s (fun _ => .of_error rfl) (fun calm => ?_) fun k e first => ?_
  · refine recoverHeld_ends S live dead oracle n s ?_
    rw [Quarantines, h]
    rintro ⟨k, e, first, -⟩
    have moving := first.moving
    rw [calm k e first.inside first.linked] at moving
    cases moving
  · have same : Quarantines s dead = Stuck dead s.heap.mutation .held s.dir.pendingKind (s.dir.entry k e).word := by
      rw [Quarantines, h, eq_iff_iff]
      refine ⟨fun ⟨k', e', first', stuck⟩ => ?_, fun stuck => ⟨k, e, first, stuck⟩⟩
      obtain ⟨rfl, rfl⟩ := first.unique first'
      exact stuck
    rw [same]
    exact recoverEntry_ends S live dead oracle n s .held _ k e fun h => absurd rfl h

/-- **Recovery finishes.** Whatever state it is run from, a `recover` that returns `Ok` leaves the transaction
word clean, if debug assertions are evaluated or the state is none that ends in quarantine, and only then. -/
theorem recover_finishes (S : Setup) (live heapRegion dead : Nat) (oracle : Nat → Nat) (s : Shared)
    (result : Recovered) (ok : ((recover S live heapRegion dead).solo oracle 0 s).2 = .ok result) :
    ((recover S live heapRegion dead).solo oracle 0 s).1.dir.transaction = .clean ↔
      S.debug = true ∨ ¬Quarantines s dead := by
  have ends : Ends S ((recover S live heapRegion dead).solo oracle 0 s) (Quarantines s dead) := by
    rw [recover]
    split
    · exact .of_error rfl
    simp only [Prog.bind_eq, loadTxn, Prog.solo_read]
    rcases transaction : s.dir.transaction with _ | ⟨owner, phase⟩
    · exact .of_error rfl
    dsimp only
    split
    · exact .of_error rfl
    · rename_i same
      obtain rfl : owner = dead := not_not.mp same
      exact recoverOwned_ends S live owner oracle 0 s phase transaction
  exact ends result ok

def releaseBuild : Setup where
  target := ⟨64, Target.supported_64⟩
  region := 1
  debug := false
  single := true
  settled := true

/-- The steps of a first creation up to its evidence, which gets the block at `offset`. -/
def createEvidence (t offset : Nat) : List (Step Op) :=
  List.replicate 5 (.run t 0) ++ .run t offset :: List.replicate 8 (.run t 0)

theorem eq_ok_of_toOption {r : Except Error Recovered} {result : Recovered} (h : r.toOption = some result) :
    r = .ok result := by
  cases r with
  | error e => cases h
  | ok a => exact congrArg Except.ok (Option.some.inj h)

/-- A creator dies after it has given up the heap, and its block is released. -/
theorem recover_finishes_created :
    ∃ c, (machine releaseBuild).Reaches (.start .init) c ∧ c.dead 0 = true ∧
      c.shared.dir.transaction = .owned 0 .evidence ∧
      ((recover releaseBuild 1 1 0).solo (fun _ => 0) 0 c.shared).1.dir.transaction = .clean := by
  have steps : ((machine releaseBuild).execAll (.start .init)
      (.spawn (.create 0 1 (some 8) 8) :: createEvidence 0 100 ++ [.run 0 0, .crash 0])).map
      (fun c => ((c.dead 0, c.shared.dir.transaction, c.shared.dir.pendingKind),
        ((c.shared.dir.entry c.shared.dir.pendingSlab c.shared.dir.pendingEntry).word, c.shared.heap.mutation,
        ((recover releaseBuild 1 1 0).solo (fun _ => 0) 0 c.shared).2.toOption))) =
      some ((true, .owned 0 .evidence, .create), (⟨1, .pending⟩, .clean, some .rolledBack)) := by decide +kernel
  obtain ⟨c, run, same⟩ := Machine.exists_reaches steps
  simp only [Prod.mk.injEq] at same
  obtain ⟨⟨dead, transaction, kind⟩, word, mutation, result⟩ := same
  refine ⟨c, run, dead, transaction, ?_⟩
  refine (recover_finishes releaseBuild 1 1 0 _ c.shared _ (eq_ok_of_toOption result)).mpr (.inr ?_)
  simp [Quarantines, transaction, kind, word, mutation, Stuck]

/-- A creator dies with its evidence complete and the heap still claimed. The recovery poisons the heap, gives
up the entry and returns `Ok`, but the transaction stays with the recovering participant. -/
theorem recover_leaves_transaction :
    ∃ c, (machine releaseBuild).Reaches (.start .init) c ∧ c.dead 0 = true ∧
      ((recover releaseBuild 1 1 0).solo (fun _ => 0) 0 c.shared).2 = .ok .quarantined ∧
      ((recover releaseBuild 1 1 0).solo (fun _ => 0) 0 c.shared).1.dir.transaction = .owned 1 .rollingBack := by
  have steps : ((machine releaseBuild).execAll (.start .init)
      (.spawn (.create 0 1 (some 8) 8) :: createEvidence 0 100 ++ [.crash 0])).map
      (fun c => (c.dead 0, ((recover releaseBuild 1 1 0).solo (fun _ => 0) 0 c.shared).2.toOption,
        ((recover releaseBuild 1 1 0).solo (fun _ => 0) 0 c.shared).1.dir.transaction)) =
      some (true, some .quarantined, .owned 1 .rollingBack) := by decide +kernel
  obtain ⟨c, run, same⟩ := Machine.exists_reaches steps
  simp only [Prod.mk.injEq] at same
  exact ⟨c, run, same.1, eq_ok_of_toOption same.2.1, same.2.2⟩

end Evering.Directory
