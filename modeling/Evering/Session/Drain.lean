import Evering.Pool.Alone
import Evering.Queue.Rest
import Evering.Session.Model

/-!
# Draining a direction

`close_with` run alone: it claims the positions that wait, releases their tokens and takes them out. A position that was
skipped ends the loop. A token can be released when the directory finds its Pool and the slot's word is not of an earlier
generation and is not owned in the token's own one.
-/

namespace Evering.Session

open Interleave Function

variable {U : Setup} {s s' : Shared U} {oracle : Nat → Nat} {rounds last : Nat} {token : Pool.Token}

/-- The word of the slot that the token names. -/
def Shared.slotWord (s : Shared U) (token : Pool.Token) : Pool.State :=
  (s.pool token.pool).word token.cls token.slot

/-- The token's generation of its slot is over. -/
def Released (s : Shared U) (token : Pool.Token) : Prop :=
  token.generation = 0 ∨ token.generation < (s.slotWord token).generation ∨ (s.slotWord token).allocated = false

/-- Some entry of the chain names a Pool of this geometry at the offset. -/
def Shows (U : Setup) (last : Nat) (s : Shared U) (offset : Nat) (storage : Pool.Storage) : Prop :=
  U.record offset = some (some storage) ∧ ∃ k e, k ≤ last ∧ e < Directory.capacity ∧
    (s.dir.1.dir.entry k e).word.state = .published ∧ (s.dir.1.dir.entry k e).offset = offset

/-- The token is of an existing Pool, in which it names a slot. -/
def Placed (U : Setup) (last : Nat) (s : Shared U) (token : Pool.Token) : Prop :=
  ∃ storage, Shows U last s token.pool storage ∧ (token.generation = 0 ∨
    token.generation ≤ Pool.maxGeneration ∧ token.metadata ≠ none ∧
      ∃ cls, storage.classes[token.cls]? = some cls ∧ token.slot < cls.slots)

/-- The token's slot can be released for it. -/
structure Redeemable (U : Setup) (last : Nat) (s : Shared U) (token : Pool.Token) : Prop where
  placed : Placed U last s token
  word : token.generation = 0 ∨ (s.slotWord token).canonical = true ∧
    token.generation ≤ (s.slotWord token).generation ∧
    ((s.slotWord token).allocated = true → (s.slotWord token).generation = token.generation →
      (s.slotWord token).owner = none)

/-- What is neither a queue nor the word of a Pool is left alone, and words of Pools only become free. -/
structure Spares (s s' : Shared U) : Prop where
  dir : s'.dir.1 = s.dir.1
  roles : s'.roles = s.roles
  word : ∀ o c i, (s'.pool o).word c i = (s.pool o).word c i ∨ ∃ g, g ≤ Pool.maxGeneration ∧
    ((s.pool o).word c i).generation = g ∧ (s'.pool o).word c i = Pool.State.free g

theorem Spares.refl (s : Shared U) : Spares s s := ⟨rfl, rfl, fun _ _ _ => .inl rfl⟩

variable {s₁ s₂ s₃ : Shared U}

theorem Spares.trans (h : Spares s₁ s₂) (h' : Spares s₂ s₃) : Spares s₁ s₃ where
  dir := h'.dir.trans h.dir
  roles := h'.roles.trans h.roles
  word := by
    intro o c i
    rcases h'.word o c i with same | ⟨g, fits, before, after⟩
    · rw [same]
      exact h.word o c i
    · refine .inr ⟨g, fits, ?_, after⟩
      rcases h.word o c i with same | ⟨g', fits', before', after'⟩
      · rw [← same, before]
      · rw [after', Pool.free_generation fits'] at before
        rw [before', before]

theorem Released.spares (h : Released s token) (spares : Spares s s') : Released s' token := by
  rcases h with zero | finished
  · exact .inl zero
  · refine .inr ?_
    rcases spares.word token.pool token.cls token.slot with same | ⟨g, fits, before, after⟩
    · rw [Shared.slotWord, same]
      exact finished
    · rw [Shared.slotWord, after]
      exact .inr (Pool.free_allocated fits)

theorem Redeemable.spares (h : Redeemable U last s token) (spares : Spares s s') : Redeemable U last s' token where
  placed := by
    obtain ⟨storage, shows, fits⟩ := h.placed
    refine ⟨storage, ?_, fits⟩
    rw [Shows, spares.dir]
    exact shows
  word := by
    refine h.word.imp_right fun ⟨canonical, le, detached⟩ => ?_
    rcases spares.word token.pool token.cls token.slot with same | ⟨g, fits, before, after⟩
    · rw [Shared.slotWord, same]
      exact ⟨canonical, le, detached⟩
    · rw [Shared.slotWord, after, Pool.free_canonical fits, Pool.free_generation fits, Pool.free_allocated fits, ← before]
      exact ⟨rfl, le, fun h => by cases h⟩

variable {p : Pool.Shared} {β : Type} {r : Except RemoveError Unit}

theorem slotWord_put : ((poolLens token.pool).put p s).slotWord token = p.word token.cls token.slot := by
  simp [Shared.slotWord, poolLens]

theorem Spares.put {x : Directory.Shared × Directory.Register} {o : Nat} (same : x.1 = s.dir.1)
    (words : ∀ c i, p.word c i = (s.pool o).word c i ∨ ∃ g, g ≤ Pool.maxGeneration ∧
      ((s.pool o).word c i).generation = g ∧ p.word c i = Pool.State.free g) :
    Spares s ((poolLens o).put p { s with dir := x }) where
  dir := same
  roles := rfl
  word := by
    intro o' c i
    by_cases here : o' = o
    · subst here
      simpa [poolLens] using words c i
    · exact .inl (by simp [poolLens, here])

/-! ### Releasing a token -/

theorem onDir_post {prog : Directory.DirProg β} {Q : Directory.Shared → β → Prop} (h : prog.Post oracle s.dir.1 Q) :
    (onDir prog : SessionProg U β).Post oracle s fun s' r => ∃ x, s' = { s with dir := x } ∧ Q x.1 r :=
  Prog.Post.focus (L := dirLens) (s := s) (Prog.Post.observe h)

theorem inspectPool_post {storage : Pool.Storage} {offset : Nat} (rests : s.dir.1.dir.Rests U.record last)
    (shows : Shows U last s offset storage) :
    (inspectPool U offset).Post oracle s fun s' r => ∃ x, s' = { s with dir := x } ∧ x.1 = s.dir.1 ∧ r = some storage := by
  obtain ⟨known, k, e, le, inside, published, there⟩ := shows
  refine .bind (onDir_post (Directory.inspectLayout_post rests le inside published there known rfl)) ?_
  rintro s' r ⟨x, rfl, same, rfl⟩
  exact .done ⟨x, rfl, same, rfl⟩

theorem releaseToken_post (rests : s.dir.1.dir.Rests U.record last) (redeemable : Redeemable U last s token)
    (patient : Prog.Patient oracle rounds) : (releaseToken U none token rounds).Post oracle s fun s' r =>
      r = true ∧ Spares s s' ∧ s'.queue = s.queue ∧ Released s' token := by
  obtain ⟨storage, shows, spans⟩ := redeemable.placed
  rw [releaseToken]
  by_cases zero : token.generation = 0
  · rw [if_pos zero]
    refine .bind (inspectPool_post rests shows) ?_
    rintro s' r ⟨x, rfl, same, rfl⟩
    exact .done ⟨rfl, ⟨same, rfl, fun _ _ _ => .inl rfl⟩, rfl, .inl zero⟩
  obtain ⟨le, metadata, cls, here, lt⟩ := spans.resolve_left zero
  obtain ⟨canonical, late, detached⟩ := redeemable.word.resolve_left zero
  rw [if_neg zero, if_neg (by simp [metadata]; omega)]
  refine .bind (inspectPool_post rests shows) ?_
  rintro s' r ⟨x, rfl, same, rfl⟩
  simp only [here]
  rw [if_neg (by omega)]
  refine .bind (R := fun t raw => t = { s with dir := x } ∧ raw = s.slotWord token) ?_ ?_
  · exact fun n => ⟨(poolLens (U := U) token.pool).put_get { s with dir := x }, rfl⟩
  rintro t raw ⟨rfl, rfl⟩
  have yields : (s.slotWord token).yields token.generation none = true := by
    rcases taken : (s.slotWord token).allocated with _ | _
    · simp [Pool.State.yields, canonical, late, taken]
    rcases Nat.eq_or_lt_of_le late with here | later
    · simp [Pool.State.yields, canonical, late, detached taken here.symm]
    · simp [Pool.State.yields, canonical, late, later]
  refine .mono (.focus (Pool.releaseLoop_alone _ patient)) ?_
  rintro s' r ⟨p, rfl, rfl, ends⟩
  replace ends : p = if (s.slotWord token).isFreed token.generation none then
      releaseEffect none token ((s.pool token.pool).setWord token.cls token.slot (.free token.generation))
    else s.pool token.pool := ends
  have words : ∀ c i, p.word c i = (s.pool token.pool).word c i ∨ ∃ g, g ≤ Pool.maxGeneration ∧
      ((s.pool token.pool).word c i).generation = g ∧ p.word c i = Pool.State.free g := by
    intro c i
    split at ends
    · rename_i freed
      by_cases slot : c = token.cls ∧ i = token.slot
      · obtain ⟨rfl, rfl⟩ := slot
        simp only [Pool.State.isFreed, Bool.and_eq_true, decide_eq_true_eq] at freed
        refine .inr ⟨token.generation, le, freed.1.2, ?_⟩
        rw [ends]
        exact Pool.word_setWord_self
      · rw [ends]
        exact .inl (Pool.word_setWord_of_ne slot)
    · rw [ends]
      exact .inl rfl
  refine ⟨yields, .put same words, rfl, .inr ?_⟩
  rw [slotWord_put]
  split at ends
  · right
    have word : p.word token.cls token.slot = .free token.generation := by
      rw [ends]
      exact Pool.word_setWord_self
    rw [word, Pool.free_allocated le]
  · rename_i kept
    rw [ends]
    simp only [Pool.State.isFreed, yields, Bool.true_and, Bool.and_eq_true, decide_eq_true_eq, not_and,
      Bool.not_eq_true] at kept
    rcases Nat.eq_or_lt_of_le late with here | later
    · exact .inr (kept here.symm)
    · exact .inl later

/-! ### The loop over one direction -/

/-- The directions have passed some positions, whose tokens are released. -/
structure Advances (s s' : Shared U) : Prop where
  spares : Spares s s'
  headPos : ∀ d, (s.queue d).trail.headPos ≤ (s'.queue d).trail.headPos
  tailPos : ∀ d, (s'.queue d).trail.tailPos = (s.queue d).trail.tailPos
  fate : ∀ d, (s'.queue d).trail.fate = (s.queue d).trail.fate
  receiving : ∀ d, ((s'.queue d).lifecycle >>> (U.route d).recvField) &&& 0b11 =
    ((s.queue d).lifecycle >>> (U.route d).recvField) &&& 0b11
  sending : ∀ d, (s.queue d).lifecycle.testBit (U.route d).sendField = true →
    (s'.queue d).lifecycle.testBit (U.route d).sendField = true
  claims : ∀ d i, Queue.base ((s'.queue d).slot i).control = Queue.consumer ↔
    Queue.base ((s.queue d).slot i).control = Queue.consumer
  released : ∀ d p token, (s.queue d).trail.headPos ≤ p → p < (s'.queue d).trail.headPos →
    (s.queue d).trail.fate p = .published token → Released s' token

theorem Advances.refl (s : Shared U) : Advances s s where
  spares := .refl s
  headPos := fun _ => Nat.le_refl _
  tailPos := fun _ => rfl
  fate := fun _ => rfl
  receiving := fun _ => rfl
  sending := fun _ => id
  claims := fun _ _ => .rfl
  released := fun d p token le lt => by omega

theorem Advances.trans (h : Advances s₁ s₂) (h' : Advances s₂ s₃) : Advances s₁ s₃ where
  spares := h.spares.trans h'.spares
  headPos := fun d => Nat.le_trans (h.headPos d) (h'.headPos d)
  tailPos := fun d => (h'.tailPos d).trans (h.tailPos d)
  fate := fun d => (h'.fate d).trans (h.fate d)
  receiving := fun d => (h'.receiving d).trans (h.receiving d)
  sending := fun d sent => h'.sending d (h.sending d sent)
  claims := fun d i => (h'.claims d i).trans (h.claims d i)
  released := by
    intro d p token le lt published
    by_cases first : p < (s₂.queue d).trail.headPos
    · exact (h.released d p token le first published).spares h'.spares
    · exact h'.released d p token (by omega) lt (by rw [h.fate, published])

variable {d : Fin 2} {q : Queue.Shared U.geometry Pool.Token}

theorem Advances.one (spares : Spares s s') (queue : s'.queue = update s.queue d q)
    (headPos : (s.queue d).trail.headPos ≤ q.trail.headPos)
    (tailPos : q.trail.tailPos = (s.queue d).trail.tailPos) (fate : q.trail.fate = (s.queue d).trail.fate)
    (receiving : (q.lifecycle >>> (U.route d).recvField) &&& 0b11 =
      ((s.queue d).lifecycle >>> (U.route d).recvField) &&& 0b11)
    (sending : (s.queue d).lifecycle.testBit (U.route d).sendField = true →
      q.lifecycle.testBit (U.route d).sendField = true) (claims : ∀ i, Queue.base (q.slot i).control = Queue.consumer ↔
      Queue.base ((s.queue d).slot i).control = Queue.consumer)
    (released : ∀ p token, (s.queue d).trail.headPos ≤ p → p < q.trail.headPos →
      (s.queue d).trail.fate p = .published token → Released s' token) : Advances s s' := by
  have here : s'.queue d = q := by rw [queue, update_self]
  have there : ∀ d', d' ≠ d → s'.queue d' = s.queue d' := fun d' ne => by rw [queue, update_of_ne ne]
  refine ⟨spares, fun d' => ?_, fun d' => ?_, fun d' => ?_, fun d' => ?_, fun d' => ?_, fun d' => ?_, fun d' => ?_⟩ <;>
    by_cases same : d' = d
  case pos => rw [same, here]; exact headPos
  case neg => rw [there d' same]
  case pos => rw [same, here]; exact tailPos
  case neg => rw [there d' same]
  case pos => rw [same, here]; exact fate
  case neg => rw [there d' same]
  case pos => rw [same, here]; exact receiving
  case neg => rw [there d' same]
  case pos => rw [same, here]; exact sending
  case neg => rw [there d' same]; exact id
  case pos => rw [same, here]; exact claims
  case neg => rw [there d' same]; exact fun _ => .rfl
  case pos => rw [same, here]; exact released
  case neg =>
    rw [there d' same]
    intro p token le lt
    omega

theorem Advances.pass (spares : Spares s s')
    (queue : s'.queue = update s.queue d q) (passes : Queue.Passes (U.route d) (s.queue d) q)
    (free : Queue.base ((s.queue d).slot ((U.route d).index (s.queue d).head)).control ≠ Queue.consumer)
    (released : ∀ token, (s.queue d).trail.fate (s.queue d).trail.headPos = .published token → Released s' token) :
    Advances s s' := by
  refine .one spares queue ?_ passes.tailPos passes.fate ?_ ?_ ?_ ?_
  · rw [passes.headPos]
    omega
  · rw [passes.lifecycle]
  · rw [passes.lifecycle]
    exact id
  · intro i
    rw [passes.control i]
    split
    · subst i
      exact iff_of_false (by decide) free
    · rfl
  · intro p token le lt published
    rw [passes.headPos] at lt
    obtain rfl : p = (s.queue d).trail.headPos := by omega
    exact released token published

theorem Advances.reopen (reopens : Queue.Reopens (U.route d) (s.queue d) q) : Advances s (s.setQueue d q) := by
  have same := reopens.same
  refine .one (d := d) (q := q) ⟨rfl, rfl, fun _ _ _ => .inl rfl⟩ rfl ?_ ?_ ?_ reopens.receiving reopens.sending ?_ ?_
  · rw [same]
  · rw [same]
  · rw [same]
  · rw [same]
    exact fun _ => .rfl
  · rw [same]
    intro p token le lt
    exact absurd lt (by simpa using le)

/-- How the loop over direction `d` ends: it drains the direction, or it stops at a skipped position. -/
structure Stops (d : Fin 2) (q : Nat) (s s' : Shared U) (r : Except RemoveError Unit) : Prop where
  advances : Advances s s'
  other : ∀ d', d' ≠ d → s'.queue d' = s.queue d'
  rests : Queue.Rests (U.route d) q (s'.queue d)
  ends : r = .ok () ∧ (s'.queue d).trail.headPos = (s.queue d).trail.tailPos ∧
      (∀ p, (s.queue d).trail.headPos ≤ p → p < (s.queue d).trail.tailPos → (s.queue d).trail.fate p ≠ .skipped) ∨
    r = .error .busy ∧ (s.queue d).trail.headPos < (s'.queue d).trail.headPos ∧
      ∃ p, (s.queue d).trail.headPos ≤ p ∧ p < (s.queue d).trail.tailPos ∧ (s.queue d).trail.fate p = .skipped

variable {q : Nat}

theorem Stops.after (first : Advances s₁ s₂) (apart : ∀ d', d' ≠ d → s₂.queue d' = s₁.queue d')
    (one : (s₂.queue d).trail.headPos = (s₁.queue d).trail.headPos + 1)
    (settled : (s₁.queue d).trail.fate (s₁.queue d).trail.headPos ≠ .skipped) (rest : Stops d q s₂ s₃ r) :
    Stops d q s₁ s₃ r := by
  have fate := first.fate d
  have tailPos := first.tailPos d
  refine ⟨first.trans rest.advances, fun d' ne => (rest.other d' ne).trans (apart d' ne), rest.rests, ?_⟩
  rcases rest.ends with ⟨ok, all, none⟩ | ⟨busy, more, p, le, lt, skipped⟩
  · refine .inl ⟨ok, by rw [all, tailPos], fun p le lt => ?_⟩
    by_cases here : p = (s₁.queue d).trail.headPos
    · rw [here]
      exact settled
    · have := none p (by omega) (by omega)
      rwa [fate] at this
  · refine .inr ⟨busy, by omega, p, by omega, by omega, ?_⟩
    rwa [fate] at skipped

theorem onQueue_post {prog : Queue.QueueProg U.geometry Pool.Token β}
    {Q : Queue.Shared U.geometry Pool.Token → β → Prop} (h : prog.Post oracle (s.queue d) Q) :
    (onQueue d prog).Post oracle s fun s' r => ∃ q, s' = s.setQueue d q ∧ Q q r :=
  Prog.Post.focus (L := queueLens d) (s := s) h

theorem onQueue_ends {prog : Queue.QueueProg U.geometry Pool.Token β} {q t : Queue.Shared U.geometry Pool.Token} {r : β}
    (here : s.queue d = q) (ran : ∀ n, prog.solo oracle n q = (t, r)) :
    (onQueue d prog).Post oracle s fun s' r' => s' = s.setQueue d t ∧ r' = r := by
  refine .mono (onQueue_post (Q := fun t' r' => t' = t ∧ r' = r) fun n => ?_) ?_
  · rw [here, ran]
    exact ⟨rfl, rfl⟩
  · rintro s' r' ⟨t', rfl, rfl, rfl⟩
    exact ⟨rfl, rfl⟩

/-- The session at rest: nothing runs on the directory and on the queues, and the tokens that wait can be released. -/
structure Ready (U : Setup) (last q : Nat) (s : Shared U) : Prop where
  dir : s.dir.1.dir.Rests U.record last
  rests : ∀ d, Queue.Rests (U.route d) q (s.queue d)
  redeemable : ∀ d p token, (s.queue d).trail.headPos ≤ p → p < (s.queue d).trail.tailPos →
    (s.queue d).trail.fate p = .published token → Redeemable U last s token

theorem Ready.next (ready : Ready U last q s) (advances : Advances s s')
    (rests : ∀ d, Queue.Rests (U.route d) q (s'.queue d)) : Ready U last q s' where
  dir := by
    rw [advances.spares.dir]
    exact ready.dir
  rests := rests
  redeemable := by
    intro d p token le lt published
    rw [advances.tailPos] at lt
    rw [advances.fate] at published
    exact (ready.redeemable d p token (Nat.le_trans (advances.headPos d) le) lt published).spares advances.spares

theorem Ready.one (ready : Ready U last q s) (advances : Advances s s')
    (other : ∀ d', d' ≠ d → s'.queue d' = s.queue d') (rests : Queue.Rests (U.route d) q (s'.queue d)) :
    Ready U last q s' := by
  refine ready.next advances fun d' => ?_
  by_cases same : d' = d
  · rw [same]
    exact rests
  · rw [other d' same]
    exact ready.rests d'

/-- **Draining.** Alone on a direction whose receiving side is open, the loop of `close_with` passes the positions up to
the first one that was skipped, and releases their tokens. -/
theorem drain_post (patient : Prog.Patient oracle rounds) (fuel : Nat)
    (ready : Ready U last q s) (receiving : ((s.queue d).lifecycle >>> (U.route d).recvField) &&& 0b11 = 0)
    (enough : (s.queue d).trail.tailPos < (s.queue d).trail.headPos + fuel) :
    (drain U q rounds d fuel).Post oracle s fun s' r => Stops d q s s' r := by
  -- the induction is on the positions that wait
  induction fuel generalizing s with
  | zero =>
    have := (ready.rests d).order
    omega
  | succ fuel ih =>
    have rests := ready.rests d
    rcases Nat.eq_or_lt_of_le rests.order with none | waits
    · refine .bind (onQueue_post (rests.claim_empty receiving none)) ?_
      rintro s' r ⟨t, rfl, rfl, rfl⟩
      rw [setQueue_self]
      exact .done ⟨.refl s, fun _ _ => rfl, rests, .inl ⟨rfl, none, fun p le lt => by omega⟩⟩
    obtain ⟨complete, control, -, -, payload⟩ := rests.waiting waits
    have free : Queue.base ((s.queue d).slot ((U.route d).index (s.queue d).head)).control ≠ Queue.consumer := by
      rw [control]
      cases complete <;> decide
    cases complete with
    | false =>
      have skipped : (s.queue d).trail.fate (s.queue d).trail.headPos = .skipped := payload
      obtain ⟨t, claimed, passes, rests'⟩ := rests.claim_skipped receiving waits skipped
      refine .bind (onQueue_ends rfl fun n => claimed ..) ?_
      rintro s' r ⟨rfl, rfl⟩
      refine .done ⟨.pass ⟨rfl, rfl, fun _ _ _ => .inl rfl⟩ rfl passes free fun token published => ?_,
        fun d' ne => setQueue_there ne, ?_, .inr ⟨rfl, ?_, _, Nat.le_refl _, waits, skipped⟩⟩
      · rw [skipped] at published
        cases published
      · simpa using rests'
      · simp [passes.headPos]
    | true =>
      obtain ⟨token, published, -⟩ := payload
      obtain ⟨t, t', turn, claimed, value, took, passes, rests'⟩ := rests.claim_published receiving waits published
      refine .bind (onQueue_ends rfl fun n => claimed ..) ?_
      rintro s' r ⟨rfl, rfl⟩
      refine .bind (onQueue_ends (t := t) (r := some token) setQueue_here fun n => congrArg (t, ·) value) ?_
      rintro s' item ⟨rfl, rfl⟩
      rw [setQueue_idem]
      have mine := ready.redeemable d _ token (Nat.le_refl _) waits published
      refine .bind (releaseToken_post ready.dir ⟨mine.placed, mine.word⟩ patient) ?_
      rintro s₂ released ⟨rfl, spares, queue, finished⟩
      refine .bind (R := fun s' _ => s'.queue = update s.queue d t ∧ Spares s₂ s') (.write ⟨queue, ?_⟩) ?_
      · exact ⟨rfl, rfl, fun _ _ _ => .inl rfl⟩
      rintro s₃ _ ⟨queue, spares'⟩
      refine .bind (onQueue_ends (by rw [queue, update_self]) fun n => took ..) ?_
      rintro s₄ _ ⟨rfl, -⟩
      have rest : Spares s₃ (s₃.setQueue d t') := ⟨rfl, rfl, fun _ _ _ => .inl rfl⟩
      have spared : Spares s (s₃.setQueue d t') :=
        ⟨(spares.trans (spares'.trans rest)).dir, (spares.trans (spares'.trans rest)).roles,
          (spares.trans (spares'.trans rest)).word⟩
      have passed : Advances s (s₃.setQueue d t') := by
        refine .pass spared (by rw [Shared.setQueue, queue, update_idem]) passes free fun token' published' => ?_
        rw [published, Queue.Fate.published.injEq] at published'
        subst published'
        exact (finished.spares spares').spares rest
      have others : ∀ d', d' ≠ d → (s₃.setQueue d t').queue d' = s.queue d' := by
        intro d' ne
        rw [setQueue_there ne, queue, update_of_ne ne]
      refine .mono (ih (ready.one passed others (by rw [setQueue_here]; exact rests')) ?_ ?_) fun s' r stops =>
        stops.after passed others ?_ ?_
      · rw [passed.receiving, receiving]
      · rw [setQueue_here, passes.headPos, passes.tailPos]
        omega
      · rw [setQueue_here, passes.headPos]
      · rw [published]
        exact fun h => by cases h

/-! ### Closing -/

theorem Stops.reopen {t : Queue.Shared U.geometry Pool.Token}
    (stops : Stops d q s₁ s₂ r) (reopens : Queue.Reopens (U.route d) (s₂.queue d) t)
    (rests : Queue.Rests (U.route d) q t) : Stops d q s₁ (s₂.setQueue d t) r where
  advances := stops.advances.trans (.reopen reopens)
  other := fun d' ne => (setQueue_there ne).trans (stops.other d' ne)
  rests := by
    rw [setQueue_here]
    exact rests
  ends := by
    rw [setQueue_here, reopens.same]
    exact stops.ends

theorem drainClosed_post (patient : Prog.Patient oracle rounds) (ready : Ready U last q s)
    (receiving : ((s.queue d).lifecycle >>> (U.route d).recvField) &&& 0b11 = 0)
    (sent : (s.queue d).lifecycle.testBit (U.route d).sendField = true) (enough : U.geometry.capacity < rounds) :
    (drainClosed U q rounds d).Post oracle s fun s' r => Stops d q s s' r := by
  have window : (s.queue d).trail.tailPos ≤ (s.queue d).trail.headPos + U.geometry.capacity := (ready.rests d).window
  refine .bind (drain_post patient rounds ready receiving (by omega)) ?_
  rintro s₁ r stops
  rcases stops.ends with ⟨rfl, all, none⟩ | ⟨rfl, -⟩
  swap
  · exact .done stops
  have rests := stops.rests
  have closed := stops.advances.sending d sent
  refine .bind (onQueue_post ((Queue.sendClosed_post closed).and (rests.sendClosed closed))) ?_
  rintro s₂ done ⟨t, rfl, ⟨reopens, free⟩, rests'⟩
  rw [free fun i lt => rests.unsent lt]
  have stops' := stops.reopen reopens rests'
  refine .bind (onQueue_post Queue.isEmpty_post) ?_
  rintro s₃ empty ⟨t', rfl, rfl, rfl⟩
  have last : t.tail = t.head := by
    rw [rests'.tail_eq_head, reopens.same]
    exact all.trans (stops.advances.tailPos d).symm
  rw [setQueue_here, setQueue_idem, decide_eq_true last]
  exact .done stops'

/-- The receiving side of an open direction is closed; it is finished unless there are unresolved claims. -/
theorem closeReceiving_post (receiving : ((s.queue d).lifecycle >>> (U.route d).recvField) &&& 0b11 = 0) :
    (closeReceiving U d).Post oracle s fun s' r =>
      (∃ t, s' = s.setQueue d t ∧ t = { s.queue d with lifecycle := t.lifecycle } ∧
        (t.lifecycle >>> (U.route d).recvField) &&& 0b11 ≠ 0) ∧
      (r = .ok () ∧ (∀ i, i < U.geometry.capacity → Queue.base ((s.queue d).slot i).control ≠ Queue.consumer) ∨
        r = .error .busy ∧
          ∃ i, i < U.geometry.capacity ∧ Queue.base ((s.queue d).slot i).control = Queue.consumer) := by
  have both : closeReceiving U d = (onQueue d ((Queue.closeRecv (U.route d)).bind fun _ =>
      Queue.recvClosed (U.route d))).bind fun done => if !done then return .error .busy else return .ok () := by
    rw [onQueue, Prog.focus_bind, Prog.bind_assoc]
    rfl
  rw [both]
  refine .bind (onQueue_post (Queue.recvClosed_post receiving)) ?_
  rintro s' done ⟨t, rfl, same, closed, free⟩
  cases done with
  | true => exact .done ⟨⟨t, rfl, same, closed⟩, .inl ⟨rfl, free.mp rfl⟩⟩
  | false =>
    refine .done ⟨⟨t, rfl, same, closed⟩, .inr ⟨rfl, ?_⟩⟩
    by_contra none
    exact absurd (free.mpr fun i lt theirs => none ⟨i, lt, theirs⟩) (by simp)

/-- Some position that waits in direction `d` was skipped. -/
def Skips (s : Shared U) (d : Fin 2) : Prop :=
  ∃ p, (s.queue d).trail.headPos ≤ p ∧ p < (s.queue d).trail.tailPos ∧ (s.queue d).trail.fate p = .skipped

/-- Some slot of direction `d` is an unresolved claim. -/
def Claims (s : Shared U) (d : Fin 2) : Prop :=
  ∃ i, i < U.geometry.capacity ∧ Queue.base ((s.queue d).slot i).control = Queue.consumer

def waiting (s : Shared U) (d : Fin 2) : Nat := (s.queue d).trail.tailPos - (s.queue d).trail.headPos

/-- How the queues of the channel are closed. -/
inductive Closes (last q : Nat) (s s' : Shared U) : Except RemoveError Unit → Prop
  /-- every token that waited is released -/
  | closed (spares : Spares s s') (unskipped : ∀ d, ¬Skips s d) (unclaimed : ∀ d, ¬Claims s d)
      (released : ∀ d p token, (s.queue d).trail.headPos ≤ p → p < (s.queue d).trail.tailPos →
        (s.queue d).trail.fate p = .published token → Released s' token) : Closes last q s s' (.ok ())
  /-- a skipped position was passed -/
  | passed (d : Fin 2) (skips : Skips s d) (ready : Ready U last q s') (advances : Advances s s')
      (less : waiting s' 0 + waiting s' 1 < waiting s 0 + waiting s 1) : Closes last q s s' (.error .busy)
  | claimed (d : Fin 2) (claims : Claims s d) : Closes last q s s' (.error .busy)

theorem Advances.waiting_le (advances : Advances s s') (d : Fin 2) : waiting s' d ≤ waiting s d := by
  have := advances.headPos d
  have := advances.tailPos d
  unfold waiting
  omega

theorem Advances.waiting_lt (advances : Advances s s') (more : (s.queue d).trail.headPos < (s'.queue d).trail.headPos)
    (order : (s'.queue d).trail.headPos ≤ (s'.queue d).trail.tailPos) : waiting s' d < waiting s d := by
  have := advances.tailPos d
  unfold waiting
  omega

theorem Claims.advances (advances : Advances s s') : Claims s' d ↔ Claims s d := by
  unfold Claims
  simp only [advances.claims]

theorem closeSend_post (ready : Ready U last q s) : (onQueue d (Queue.closeSend (U.route d))).Post oracle s fun s' _ =>
      Ready U last q s' ∧ Advances s s' ∧ (∀ d', (s'.queue d').trail = (s.queue d').trail) ∧
        (s'.queue d).lifecycle.testBit (U.route d).sendField = true := by
  refine .mono (onQueue_post (Queue.closeSend_post.and (ready.rests d).closeSend)) ?_
  rintro s' _ ⟨t, rfl, ⟨reopens, sent⟩, rests⟩
  have advances : Advances s (s.setQueue d t) := .reopen reopens
  refine ⟨ready.one advances (fun d' ne => setQueue_there ne) (by rw [setQueue_here]; exact rests), advances,
    fun d' => ?_, by rw [setQueue_here]; exact sent⟩
  by_cases same : d' = d
  · rw [same, setQueue_here, reopens.same]
  · rw [setQueue_there same]

theorem Skips.same (trail : (s'.queue d).trail = (s.queue d).trail) : Skips s' d ↔ Skips s d := by
  unfold Skips
  rw [trail]

/-- **Closing the queues.** Alone on queues at rest whose receiving sides are open. -/
theorem closeQueues_post (patient : Prog.Patient oracle rounds) (ready : Ready U last q s)
    (receiving : ∀ d, ((s.queue d).lifecycle >>> (U.route d).recvField) &&& 0b11 = 0)
    (enough : U.geometry.capacity < rounds) : (closeQueues U q rounds).Post oracle s fun s' r => Closes last q s s' r := by
  refine .bind (closeSend_post ready) ?_
  rintro s₁ _ ⟨ready₁, first, trail₁, sent₀⟩
  refine .bind (closeSend_post ready₁) ?_
  rintro s₂ _ ⟨ready₂, second, trail₂, sent₁⟩
  have to₂ := first.trans second
  have trail : ∀ d, (s₂.queue d).trail = (s.queue d).trail := fun d => (trail₂ d).trans (trail₁ d)
  have open₂ : ∀ d, ((s₂.queue d).lifecycle >>> (U.route d).recvField) &&& 0b11 = 0 := by
    intro d
    rw [to₂.receiving, receiving]
  refine .bind (drainClosed_post patient ready₂ (open₂ 0) (second.sending 0 sent₀) enough) ?_
  rintro s₃ r stops₀
  have ready₃ := ready₂.one stops₀.advances stops₀.other stops₀.rests
  have to₃ := to₂.trans stops₀.advances
  rcases stops₀.ends with ⟨rfl, all₀, none₀⟩ | ⟨rfl, more, skipped⟩
  swap
  · refine .done (.passed 0 ((Skips.same (trail 0)).mp skipped) ready₃ to₃ ?_)
    rw [trail] at more
    have := to₃.waiting_lt more (stops₀.rests.order)
    have := to₃.waiting_le 1
    omega
  have unskipped₀ : ¬Skips s 0 := by
    rintro ⟨p, le, lt, skipped⟩
    rw [← trail] at le lt skipped
    exact none₀ p le lt skipped
  have other₃ : s₃.queue 1 = s₂.queue 1 := stops₀.other 1 (by decide)
  refine .bind (drainClosed_post patient ready₃ ?_ ?_ enough) ?_
  · rw [other₃, open₂]
  · rw [other₃, sent₁]
  rintro s₄ r stops₁
  have ready₄ := ready₃.one stops₁.advances stops₁.other stops₁.rests
  have to₄ := to₃.trans stops₁.advances
  rcases stops₁.ends with ⟨rfl, all₁, none₁⟩ | ⟨rfl, more, skipped⟩
  swap
  · have skips : Skips s₃ 1 := skipped
    rw [Skips.same (congrArg Queue.Shared.trail other₃), Skips.same (trail 1)] at skips
    refine .done (.passed 1 skips ready₄ to₄ ?_)
    rw [other₃, trail] at more
    have := to₄.waiting_lt more (stops₁.rests.order)
    have := to₄.waiting_le 0
    omega
  have unskipped₁ : ¬Skips s 1 := by
    rintro ⟨p, le, lt, skipped⟩
    rw [← trail, ← other₃] at le lt skipped
    exact none₁ p le lt skipped
  have open₄ : ∀ d, ((s₄.queue d).lifecycle >>> (U.route d).recvField) &&& 0b11 = 0 := by
    intro d
    rw [to₄.receiving, receiving]
  -- both directions are drained
  have drained : ∀ d, (s₄.queue d).trail.headPos = (s.queue d).trail.tailPos := by
    have zero : (s₄.queue 0).trail.headPos = (s.queue 0).trail.tailPos := by
      rw [stops₁.other 0 (by decide), all₀, trail]
    have one : (s₄.queue 1).trail.headPos = (s.queue 1).trail.tailPos := by
      rw [all₁, other₃, trail]
    exact Fin.forall_fin_two.mpr ⟨zero, one⟩
  refine .bind (closeReceiving_post (open₄ 0)) ?_
  rintro s₅ r ⟨⟨t, rfl, same, -⟩, ⟨rfl, free₀⟩ | ⟨rfl, claimed⟩⟩
  swap
  · exact .done (.claimed 0 ((Claims.advances to₄).mp claimed))
  have other₅ : (s₄.setQueue 0 t).queue 1 = s₄.queue 1 := setQueue_there (by decide)
  refine .mono (closeReceiving_post ?_) ?_
  · rw [other₅, open₄]
  rintro s₆ r ⟨⟨t', rfl, same', -⟩, ⟨rfl, free₁⟩ | ⟨rfl, claimed⟩⟩
  · refine .closed ⟨to₄.spares.dir, to₄.spares.roles, to₄.spares.word⟩ (Fin.forall_fin_two.mpr ⟨unskipped₀, unskipped₁⟩) ?_ ?_
    · refine Fin.forall_fin_two.mpr ⟨?_, ?_⟩
      · rw [← Claims.advances to₄]
        rintro ⟨i, lt, theirs⟩
        exact free₀ i lt theirs
      · rw [← Claims.advances to₄]
        rintro ⟨i, lt, theirs⟩
        rw [other₅] at free₁
        exact free₁ i lt theirs
    · intro d p token le lt published
      exact to₄.released d p token le (by rw [drained]; exact lt) published
  · rw [other₅] at claimed
    exact .claimed 1 ((Claims.advances to₄).mp claimed)

end Evering.Session
