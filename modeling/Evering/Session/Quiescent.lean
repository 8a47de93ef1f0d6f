import Evering.Session.Drain
import Evering.Session.Runs

/-!
# Removing a channel on which nothing runs

`Session::remove` run alone, once or again and again on the returned channel. Draining goes through the gated claim of a
consumer, so a receiving side that was closed before, by `Rx::close` or by a removal that failed after it, makes every
later removal fail; so does a claim that was never resolved. A skipped position makes one call fail.
-/

namespace Evering.Session

open Interleave
open Channel (Owns)

/-! ### The role of the caller -/

section Role

variable {T : Target} {t : Channel.Shared T} {role : Channel.Role} {oracle : Nat → Nat} {rounds : Nat}

/-- The word of the role is terminal and unowned, as a successful `close_with` leaves it. -/
def Ended (t : Channel.Shared T) (role : Channel.Role) : Prop :=
  (t.roles role.index).terminal = true ∧ (t.roles role.index).owner = none

theorem new_owned (word : Channel.RoleWord T) (terminal : Bool) :
    ∃ word' : Channel.RoleWord T, Channel.RoleWord.new word.generation word.owner terminal = some word' := by
  have le := word.generation_le
  unfold Channel.RoleWord.new
  rw [dif_neg (by omega)]
  cases owned : word.owner with
  | none => exact ⟨_, rfl⟩
  | some p =>
    simp only
    rw [dif_pos (word.owner_lt owned)]
    exact ⟨_, rfl⟩

theorem compareExchangeWeak_post (i : Nat) (expected new : Channel.RoleWord T)
    (effect : Channel.Shared T → Channel.Shared T) :
    (Channel.compareExchangeWeak i expected new effect).Post oracle t fun t' r =>
      r = none ∧ t.roles i = expected ∧ t' = effect (t.setRole i new) ∨ t' = t ∧ r = some (t.roles i) := by
  refine .bind (R := fun t' _ => t' = t) (.pick fun _ => rfl) ?_
  rintro _ spurious rfl
  refine .action ?_
  split
  · rename_i won
    exact .inl ⟨rfl, won.1, rfl⟩
  · exact .inr ⟨rfl, rfl⟩

theorem closingLoop_post (owns : Owns t role) (patient : Prog.Patient oracle rounds) :
    (Channel.closingLoop role rounds (t.roles role.index)).Post oracle t fun t' r =>
      r = none ∧ ∃ word, t' = t.setRole role.index word ∧ word.parts = (role.generation, some role.owner, true) := by
  obtain ⟨generation, owner⟩ := owns
  obtain ⟨fuel, rfl⟩ := patient.round
  rcases ended : (t.roles role.index).terminal with _ | _
  · obtain ⟨closing, made⟩ := new_owned (t.roles role.index) true
    rw [generation, owner] at made
    have ran : ∀ n, (Channel.closingLoop role (fuel + 1) (t.roles role.index)).solo oracle n t =
        (t.setRole role.index closing, none) := by
      refine Prog.solo_retry (f := fun fuel => Channel.closingLoop role fuel (t.roles role.index)) ?_ ?_ patient
      · intro fuel n granted
        simp [Channel.closingLoop, Channel.compareExchangeWeak, generation, owner, ended, made, granted,
          Prog.bind_assoc]
      · intro fuel n denied
        simp [Channel.closingLoop, Channel.compareExchangeWeak, generation, owner, ended, made, denied, Prog.bind_assoc]
    intro n
    rw [ran]
    have parts := Channel.RoleWord.parts_of_new made
    refine ⟨rfl, closing, rfl, ?_⟩
    rw [Channel.RoleWord.parts, parts.1, parts.2.1, parts.2.2]
  · intro n
    have ran : (Channel.closingLoop role (fuel + 1) (t.roles role.index)).solo oracle n t = (t, none) := by
      simp [Channel.closingLoop, generation, owner, ended]
    rw [ran]
    refine ⟨rfl, t.roles role.index, ?_, ?_⟩
    · simp [Channel.Shared.setRole, Function.update_eq_self]
    · rw [Channel.RoleWord.parts, generation, owner, ended]

theorem closingLoop_ended (ended : Ended t role) (fuel : Nat) :
    (Channel.closingLoop role (fuel + 1) (t.roles role.index)).Post oracle t fun t' r => t' = t ∧ r = some (.ok ()) := by
  intro n
  simp [Channel.closingLoop, ended.1, ended.2]

theorem closingLoop_owns (fuel : Nat) (raw : Channel.RoleWord T) (owns : Owns t role)
    (mine : raw.generation = role.generation ∧ raw.owner = some role.owner) :
    (Channel.closingLoop role fuel raw).Post oracle t fun t' r => Owns t' role ∧ r ≠ some (.ok ()) := by
  induction fuel generalizing raw with
  | zero => exact .done ⟨owns, by simp⟩
  | succ fuel ih =>
    have here : ¬(raw.generation ≠ role.generation ∨ raw.owner ≠ some role.owner) := by simp [mine.1, mine.2]
    rw [Channel.closingLoop, if_neg here]
    split
    · exact .done ⟨owns, by simp⟩
    split
    · exact .done ⟨owns, by simp⟩
    rename_i closing made
    have parts := Channel.RoleWord.parts_of_new made
    refine .bind (compareExchangeWeak_post role.index raw closing id) ?_
    rintro t' r (⟨rfl, -, rfl⟩ | ⟨rfl, rfl⟩)
    · refine .done ⟨?_, by simp⟩
      simp [Owns, Channel.Shared.setRole, parts.1, parts.2.1, mine.1, mine.2]
    · exact ih _ owns

theorem giveUpRole_post (word : (t.roles role.index).parts = (role.generation, some role.owner, true)) :
    (giveUpRole role).Post oracle t fun t' r => r = true ∧ ∃ word', t' = t.setRole role.index word' ∧
      word'.terminal = true ∧ word'.owner = none := by
  simp only [Channel.RoleWord.parts, Prod.mk.injEq] at word
  obtain ⟨generation, owner, terminal⟩ := word
  obtain ⟨owned, made⟩ := new_owned (t.roles role.index) true
  rw [generation, owner] at made
  obtain ⟨ended, made'⟩ := Option.isSome_iff_exists.mp
    (Channel.RoleWord.new_isSome (T := T) (generation ▸ (t.roles role.index).generation_le) true)
  have parts := Channel.RoleWord.parts_of_new made
  have parts' := Channel.RoleWord.parts_of_new made'
  have same : t.roles role.index = owned := by
    apply Channel.RoleWord.parts_injective
    rw [Channel.RoleWord.parts, Channel.RoleWord.parts, generation, owner, terminal, parts.1, parts.2.1, parts.2.2]
  intro n
  have ran : (giveUpRole role).solo oracle n t = (t.setRole role.index ended, true) := by
    simp [giveUpRole, made, made', Channel.compareExchange, same]
  rw [ran]
  exact ⟨rfl, ended, rfl, parts'.2.2, parts'.2.1⟩

end Role

variable {U : Setup} {s s' : Shared U} {role : Channel.Role} {oracle : Nat → Nat} {rounds last : Nat} {token : Pool.Token}

/-! ### A removal that cannot succeed -/

/-- What draining never does: it opens no side, closes no receiving side and resolves no claim that was there before. -/
structure Keeps (s s' : Shared U) : Prop where
  roles : s'.roles = s.roles
  receiving : ∀ d, ((s'.queue d).lifecycle >>> (U.route d).recvField) &&& 0b11 =
    ((s.queue d).lifecycle >>> (U.route d).recvField) &&& 0b11
  sending : ∀ d, (s.queue d).lifecycle.testBit (U.route d).sendField = true →
    (s'.queue d).lifecycle.testBit (U.route d).sendField = true
  claims : ∀ d i, Queue.base ((s.queue d).slot i).control = Queue.consumer →
    Queue.base ((s'.queue d).slot i).control = Queue.consumer

theorem Keeps.refl (s : Shared U) : Keeps s s := ⟨rfl, fun _ => rfl, fun _ => id, fun _ _ => id⟩

variable {s₁ s₂ : Shared U} {β : Type} {q : Nat}

theorem Keeps.trans {s₃ : Shared U} (h : Keeps s₁ s₂) (h' : Keeps s₂ s₃) : Keeps s₁ s₃ where
  roles := h'.roles.trans h.roles
  receiving := fun d => (h'.receiving d).trans (h.receiving d)
  sending := fun d sent => h'.sending d (h.sending d sent)
  claims := fun d i theirs => h'.claims d i (h.claims d i theirs)

theorem Keeps.apart (roles : s'.roles = s.roles) (queue : s'.queue = s.queue) : Keeps s s' := by
  refine ⟨roles, fun d => ?_, fun d => ?_, fun d i => ?_⟩ <;> rw [queue]
  · exact id
  · exact id

variable {d : Fin 2}

theorem Keeps.one (roles : s'.roles = s.roles) (other : ∀ d', d' ≠ d → s'.queue d' = s.queue d')
    (receiving : ((s'.queue d).lifecycle >>> (U.route d).recvField) &&& 0b11 =
      ((s.queue d).lifecycle >>> (U.route d).recvField) &&& 0b11)
    (sending : (s.queue d).lifecycle.testBit (U.route d).sendField = true →
      (s'.queue d).lifecycle.testBit (U.route d).sendField = true)
    (claims : ∀ i, Queue.base ((s.queue d).slot i).control = Queue.consumer →
      Queue.base ((s'.queue d).slot i).control = Queue.consumer) : Keeps s s' := by
  refine ⟨roles, fun d' => ?_, fun d' => ?_, fun d' => ?_⟩ <;> by_cases same : d' = d
  case pos => rw [same]; exact receiving
  case neg => rw [other d' same]
  case pos => rw [same]; exact sending
  case neg => rw [other d' same]; exact id
  case pos => rw [same]; exact claims
  case neg => rw [other d' same]; exact fun _ => id

theorem Keeps.reopen {q : Queue.Shared U.geometry Pool.Token}
    (reopens : Queue.Reopens (U.route d) (s.queue d) q) : Keeps s (s.setQueue d q) := by
  refine .one rfl (fun d' ne => setQueue_there ne) ?_ ?_ ?_ <;> rw [setQueue_here]
  · exact reopens.receiving
  · exact reopens.sending
  · rw [reopens.same]
    exact fun _ => id

theorem onDir_keeps {prog : Directory.DirProg β} :
    (onDir prog : SessionProg U β).Post oracle s fun s' _ => s'.roles = s.roles ∧ s'.queue = s.queue := by
  refine .mono (onDir_post (Q := fun _ _ => True) fun _ => trivial) ?_
  rintro s' r ⟨x, rfl, -⟩
  exact ⟨rfl, rfl⟩

theorem onPool_keeps {offset : Nat} {prog : Pool.PoolProg β} :
    (onPool offset prog : SessionProg U β).Post oracle s fun s' _ => s'.roles = s.roles ∧ s'.queue = s.queue := by
  refine .mono (.focus (Q := fun _ _ => True) fun _ => trivial) ?_
  rintro s' r ⟨p, rfl, -⟩
  exact ⟨rfl, rfl⟩

theorem releaseToken_keeps {owner : Option Nat} : (releaseToken U owner token rounds).Post oracle s fun s' _ =>
    s'.roles = s.roles ∧ s'.queue = s.queue := by
  have inspects : ∀ s : Shared U, (inspectPool U token.pool).Post oracle s fun s' _ =>
      s'.roles = s.roles ∧ s'.queue = s.queue :=
    fun s => .bind onDir_keeps fun s' r kept => .done kept
  rw [releaseToken]
  split
  · exact .bind (inspects s) fun s' r kept => .done kept
  split
  · exact .done ⟨rfl, rfl⟩
  refine .bind (inspects s) ?_
  rintro s₁ storage kept
  split
  · exact .done kept
  split
  · exact .done kept
  split
  · exact .done kept
  refine .bind onPool_keeps ?_
  rintro s₂ raw kept'
  refine .mono onPool_keeps ?_
  rintro s₃ r kept''
  exact ⟨kept''.1.trans (kept'.1.trans kept.1), kept''.2.trans (kept'.2.trans kept.2)⟩

theorem drain_keeps (fuel : Nat) : (drain U q rounds d fuel).Post oracle s fun s' _ => Keeps s s' := by
  induction fuel generalizing s with
  | zero => exact .done (.refl s)
  | succ fuel ih =>
    refine .bind (onQueue_post Queue.claim_apart) ?_
    rintro s₁ r ⟨t, rfl, lifecycle, apart⟩
    have first : Keeps s (s.setQueue d t) := by
      refine .one rfl (fun d' ne => setQueue_there ne) ?_ ?_ fun i theirs => ?_ <;> rw [setQueue_here]
      · rw [lifecycle]
      · rw [lifecycle]
        exact id
      · rw [(apart i theirs).1]
        exact theirs
    split
    swap
    · exact .done first
    swap
    · exact .done first
    rename_i claim
    refine .bind (onQueue_post (Q := fun t' _ => t' = t) (.read setQueue_here)) ?_
    rintro s₂ item ⟨t', rfl, rfl⟩
    rw [setQueue_idem]
    cases item with
    | none => exact .done first
    | some token =>
    refine .bind releaseToken_keeps ?_
    rintro s₃ released kept
    cases released with
    | false => exact .done (first.trans (.apart kept.1 kept.2))
    | true =>
    refine .bind (R := fun (s' : Shared U) _ => s'.roles = s.roles ∧ s'.queue = (s.setQueue d t').queue) (.write kept) ?_
    rintro s₄ _ kept
    refine .bind (onQueue_post Queue.take_apart) ?_
    rintro s₅ _ ⟨t'', rfl, lifecycle', other⟩
    rw [kept.2, setQueue_here] at lifecycle' other
    have last : Keeps s (s₄.setQueue d t'') := by
      refine .one (d := d) kept.1 (fun d' ne => ?_) ?_ ?_ fun i theirs => ?_
      · rw [setQueue_there ne, kept.2, setQueue_there ne]
      · rw [setQueue_here, lifecycle', lifecycle]
      · rw [setQueue_here, lifecycle', lifecycle]
        exact id
      · rw [setQueue_here, other i ((apart i theirs).2 claim rfl), (apart i theirs).1]
        exact theirs
    exact .mono ih fun s' _ keeps => last.trans keeps

theorem drain_closed (receiving : ((s.queue d).lifecycle >>> (U.route d).recvField) &&& 0b11 ≠ 0)
    (fuel : Nat) : (drain U q rounds d fuel).Post oracle s fun _ r => r = .error .busy := by
  cases fuel with
  | zero => exact .done rfl
  | succ fuel =>
    refine .bind (onQueue_post (Queue.claim_closed receiving)) ?_
    rintro s' r ⟨t, rfl, rfl, rfl⟩
    exact .done rfl

/-- The receiving side of direction `d` was closed, or there is an unresolved claim. -/
def Jammed (s : Shared U) (d : Fin 2) : Prop :=
  ((s.queue d).lifecycle >>> (U.route d).recvField) &&& 0b11 ≠ 0 ∨ Claims s d

theorem Jammed.keeps (jammed : Jammed s d) (keeps : Keeps s s') : Jammed s' d := by
  rcases jammed with closed | ⟨i, lt, theirs⟩
  · left
    rwa [keeps.receiving]
  · exact .inr ⟨i, lt, keeps.claims d i theirs⟩

theorem drainClosed_keeps (sent : (s.queue d).lifecycle.testBit (U.route d).sendField = true) :
    (drainClosed U q rounds d).Post oracle s fun s' r => Keeps s s' ∧
      (((s.queue d).lifecycle >>> (U.route d).recvField) &&& 0b11 ≠ 0 → r ≠ .ok ()) := by
  refine .bind (R := fun s' r => Keeps s s' ∧
      (((s.queue d).lifecycle >>> (U.route d).recvField) &&& 0b11 ≠ 0 → r ≠ .ok ())) ?_ ?_
  · refine fun n => ⟨drain_keeps rounds n, fun receiving => ?_⟩
    rw [drain_closed receiving rounds n]
    nofun
  rintro s₁ (error | ⟨⟩) ⟨keeps, closed⟩
  · exact .done ⟨keeps, nofun⟩
  refine .bind (onQueue_post (Queue.sendClosed_post (keeps.sending d sent))) ?_
  rintro s₂ done ⟨t, rfl, reopens, -⟩
  have keeps' := keeps.trans (.reopen reopens)
  cases done with
  | false => exact .done ⟨keeps', nofun⟩
  | true =>
  refine .bind (onQueue_post Queue.isEmpty_post) ?_
  rintro s₃ empty ⟨t', rfl, rfl, -⟩
  rw [setQueue_self]
  cases empty with
  | false => exact .done ⟨keeps', nofun⟩
  | true => exact .done ⟨keeps', closed⟩

theorem closeReceiving_other : (closeReceiving U d).Post oracle s fun s' _ =>
    s'.roles = s.roles ∧ ∀ d', d' ≠ d → s'.queue d' = s.queue d' := by
  refine .bind (onQueue_post (Q := fun _ _ => True) fun _ => trivial) ?_
  rintro s₁ _ ⟨t, rfl, -⟩
  refine .bind (onQueue_post (Q := fun _ _ => True) fun _ => trivial) ?_
  rintro s₂ done ⟨t', rfl, -⟩
  rw [setQueue_idem]
  cases done with
  | false => exact .done ⟨rfl, fun d' ne => setQueue_there ne⟩
  | true => exact .done ⟨rfl, fun d' ne => setQueue_there ne⟩

theorem closeReceiving_claims (receiving : ((s.queue d).lifecycle >>> (U.route d).recvField) &&& 0b11 = 0)
    (claims : Claims s d) : (closeReceiving U d).Post oracle s fun s' r => r ≠ .ok () ∧ s'.roles = s.roles ∧ Jammed s' d := by
  refine .mono (closeReceiving_post receiving) ?_
  rintro s' r ⟨⟨t, rfl, -, closed⟩, ⟨rfl, free⟩ | ⟨rfl, -⟩⟩
  · obtain ⟨i, lt, theirs⟩ := claims
    exact absurd theirs (free i lt)
  · refine ⟨nofun, rfl, .inl ?_⟩
    rwa [setQueue_here]

theorem closeQueues_jammed (jammed : Jammed s d) :
    (closeQueues U q rounds).Post oracle s fun s' r => r ≠ .ok () ∧ s'.roles = s.roles ∧ Jammed s' d := by
  refine .bind (onQueue_post Queue.closeSend_post) ?_
  rintro s₁ _ ⟨t, rfl, reopens, sent⟩
  refine .bind (onQueue_post Queue.closeSend_post) ?_
  rintro s₂ _ ⟨t', rfl, reopens', sent'⟩
  have first : Keeps s ((s.setQueue 0 t).setQueue 1 t') := .trans (.reopen reopens) (.reopen reopens')
  refine .bind (drainClosed_keeps ?_) ?_
  · rwa [setQueue_there (by decide), setQueue_here]
  rintro s₃ (error | ⟨⟩) ⟨keeps, closed₀⟩
  · exact .done ⟨nofun, (first.trans keeps).roles, jammed.keeps (first.trans keeps)⟩
  refine .bind (drainClosed_keeps (keeps.sending 1 (by rwa [setQueue_here]))) ?_
  rintro s₄ (error | ⟨⟩) ⟨keeps', closed₁⟩
  · have kept := (first.trans keeps).trans keeps'
    exact .done ⟨nofun, kept.roles, jammed.keeps kept⟩
  have kept := (first.trans keeps).trans keeps'
  -- both receiving sides are open, so there is an unresolved claim
  have opened : ∀ d, ((s₄.queue d).lifecycle >>> (U.route d).recvField) &&& 0b11 = 0 := by
    refine Fin.forall_fin_two.mpr ⟨?_, ?_⟩
    · rw [keeps'.receiving, keeps.receiving]
      exact not_not.mp fun closed => closed₀ closed rfl
    · rw [keeps'.receiving]
      exact not_not.mp fun closed => closed₁ closed rfl
  have claims : Claims s₄ d := (jammed.keeps kept).resolve_left (not_not.mpr (opened d))
  rcases (by omega : d = 0 ∨ d = 1) with rfl | rfl
  · refine .bind (closeReceiving_claims (opened 0) claims) ?_
    rintro s₅ (error | ⟨⟩) ⟨failed, roles, jammed'⟩
    · exact .done ⟨nofun, roles.trans kept.roles, jammed'⟩
    · exact absurd rfl failed
  · refine .bind closeReceiving_other ?_
    rintro s₅ r ⟨roles, other⟩
    have claims' : Claims s₅ 1 := by
      rw [Claims, other 1 (by decide)]
      exact claims
    cases r with
    | error error => exact .done ⟨nofun, roles.trans kept.roles, .inr claims'⟩
    | ok =>
      refine .mono (closeReceiving_claims ?_ claims') ?_
      · rw [other 1 (by decide), opened]
      · rintro s₆ r ⟨failed, roles', jammed'⟩
        exact ⟨failed, roles'.trans (roles.trans kept.roles), jammed'⟩

/-- The caller owns its role, and a direction is jammed. -/
def Blocked (s : Shared U) (role : Channel.Role) : Prop := Owns s.roles role ∧ ∃ d, Jammed s d

theorem onRole_post {prog : Channel.RoleProg U.target β} {Q : Channel.Shared U.target → β → Prop}
    (h : prog.Post oracle s.roles Q) : (onRole prog).Post oracle s fun s' r => ∃ t, s' = { s with roles := t } ∧ Q t r :=
  Prog.Post.focus (L := roleLens) (s := s) h

/-- **A blocked removal.** Whatever else holds of the session, the removal fails and stays blocked. -/
theorem remove_blocked (blocked : Blocked s role) (unique : Bool) :
    (remove U role unique rounds).Post oracle s fun s' r => r ≠ .ok () ∧ Blocked s' role := by
  obtain ⟨owns, d, jammed⟩ := blocked
  cases unique with
  | false => exact .done ⟨nofun, owns, d, jammed⟩
  | true =>
  refine .bind (R := fun s' _ => s'.roles = s.roles ∧ s'.queue = s.queue) ?_ ?_
  · refine .bind onDir_keeps ?_
    rintro s' (error | offset) kept
    · exact .done kept
    · exact .done kept
  rintro s₁ found ⟨roles, queue⟩
  have jammed₁ : Jammed s₁ d := jammed.keeps (.apart roles queue)
  cases found with
  | false => exact .done ⟨nofun, by rw [Blocked, roles]; exact ⟨owns, d, jammed₁⟩⟩
  | true =>
  rw [← roles] at owns
  refine .bind (R := fun s' r => r ≠ .ok () ∧ Blocked s' role) ?_ ?_
  · refine .bind (onRole_post (Q := fun t raw => t = s₁.roles ∧ raw = s₁.roles.roles role.index) (.read ⟨rfl, rfl⟩)) ?_
    rintro s₂ raw ⟨t, rfl, rfl, rfl⟩
    refine .bind (onRole_post (closingLoop_owns rounds _ owns owns)) ?_
    rintro s₃ answer ⟨t, rfl, owns', unanswered⟩
    have jammed₃ : Jammed { s₁ with roles := t } d := jammed₁
    rcases answer with _ | (error | ⟨⟩)
    · refine .bind (closeQueues_jammed jammed₃) ?_
      rintro s₄ (error | ⟨⟩) ⟨failed, roles', jammed₄⟩
      · exact .done ⟨nofun, by rw [Blocked, roles']; exact ⟨owns', d, jammed₄⟩⟩
      · exact absurd rfl failed
    · exact .done ⟨nofun, owns', d, jammed₃⟩
    · exact absurd rfl unanswered
  rintro s₂ (error | ⟨⟩) ⟨failed, blocked⟩
  · exact .done ⟨nofun, blocked⟩
  · exact absurd rfl failed

/-! ### A removal that can succeed -/

/-- No operation on the directory or the heap is in progress, the other role is unowned, and the caller is the only
member of the layout. -/
structure Solitary (U : Setup) (role : Channel.Role) (s : Shared U) : Prop where
  index : role.index < 2
  peer : (s.roles.roles (1 - role.index)).owner = none
  named : s.dir.1.dir.Names U.dir U.id U.offset
  transaction : s.dir.1.dir.transaction = .clean
  mutation : s.dir.1.heap.mutation = .clean
  only : s.dir.1.members U.offset = 2 ^ role.owner

/-- The session as the caller of `remove` finds it when nobody else is at work, the queues at rest. -/
structure Still (U : Setup) (last : Nat) (role : Channel.Role) (s : Shared U) : Prop extends Solitary U role s where
  ready : Ready U last role.owner s

/-- The receiving sides of both directions were never closed. -/
def Receiving (s : Shared U) : Prop := ∀ d, ((s.queue d).lifecycle >>> (U.route d).recvField) &&& 0b11 = 0

/-- The tokens that wait in `s` are released in `s'`. -/
def Served (s s' : Shared U) : Prop :=
  ∀ d p token, (s.queue d).trail.headPos ≤ p → p < (s.queue d).trail.tailPos →
    (s.queue d).trail.fate p = .published token → Released s' token

def Vacated (s : Shared U) : Prop := (s.dir.1.dir.entry U.id.slab U.id.entry).word = ⟨U.id.generation, .vacant⟩

theorem Ready.frame (ready : Ready U last q s) (dir : s'.dir.1 = s.dir.1) (queue : s'.queue = s.queue)
    (pool : s'.pool = s.pool) : Ready U last q s' := by
  refine ⟨by rw [dir]; exact ready.dir, by rw [queue]; exact ready.rests, ?_⟩
  rw [queue]
  intro d p token le lt published
  have mine := ready.redeemable d p token le lt published
  obtain ⟨storage, shows, spans⟩ := mine.placed
  refine ⟨⟨storage, ?_, spans⟩, ?_⟩
  · rw [Shows, dir]
    exact shows
  · rw [Shared.slotWord, pool]
    exact mine.word

theorem Solitary.next (alone : Solitary U role s) (dir : s'.dir.1 = s.dir.1)
    (peer : s'.roles.roles (1 - role.index) = s.roles.roles (1 - role.index)) : Solitary U role s' where
  index := alone.index
  peer := by rw [peer, alone.peer]
  named := by rw [dir]; exact alone.named
  transaction := by rw [dir, alone.transaction]
  mutation := by rw [dir, alone.mutation]
  only := by rw [dir, alone.only]

theorem matchesLayout_post (alone : Solitary U role s) : (matchesLayout U).Post oracle s fun s' r =>
    r = true ∧ ∃ x, s' = { s with dir := x } ∧ x.1 = s.dir.1 := by
  refine .bind (onDir_post (Directory.offset_post alone.named)) ?_
  rintro s' r ⟨x, rfl, same, rfl⟩
  exact .done ⟨decide_eq_true rfl, x, rfl, same⟩

/-- `close_with` of an owned role, alone on queues that receive. The closing word is stored first. -/
theorem closeWith_post (patient : Prog.Patient oracle rounds) (ready : Ready U last role.owner s)
    (owns : Owns s.roles role) (receiving : Receiving s) (enough : U.geometry.capacity < rounds) :
    (closeWith U role rounds).Post oracle s fun s' r => ∃ word s₁, word.parts = (role.generation, some role.owner, true) ∧
      Closes last role.owner { s with roles := s.roles.setRole role.index word } s₁ r ∧
      (r = .ok () → ∃ ended : Channel.RoleWord U.target, ended.terminal = true ∧ ended.owner = none ∧
        s' = { s₁ with roles := s₁.roles.setRole role.index ended }) ∧
      (r ≠ .ok () → s' = s₁) := by
  refine .bind (onRole_post (Q := fun t raw => t = s.roles ∧ raw = s.roles.roles role.index) (.read ⟨rfl, rfl⟩)) ?_
  rintro s₁ raw ⟨t, rfl, rfl, rfl⟩
  refine .bind (onRole_post (closingLoop_post owns patient)) ?_
  rintro s₂ answer ⟨t, rfl, rfl, word, rfl, parts⟩
  refine .bind (closeQueues_post patient (ready.frame rfl rfl rfl) receiving enough) ?_
  rintro s₃ r closes
  cases closes with
  | passed d skips ready advances less => exact .done ⟨word, s₃, parts, .passed d skips ready advances less, nofun, fun _ => rfl⟩
  | claimed d claims => exact .done ⟨word, s₃, parts, .claimed d claims, nofun, fun _ => rfl⟩
  | closed spares unskipped unclaimed released =>
    have parts' : (s₃.roles.roles role.index).parts = (role.generation, some role.owner, true) := by
      rw [spares.roles]
      simpa [Channel.Shared.setRole] using parts
    refine .bind (onRole_post (giveUpRole_post parts')) ?_
    rintro s₄ given ⟨t, rfl, rfl, ended, rfl, terminal, unowned⟩
    exact .done ⟨word, s₃, parts, .closed spares unskipped unclaimed released, fun _ => ⟨ended, terminal, unowned, rfl⟩,
      fun h => absurd rfl h⟩

theorem removeClosed_post (alone : Solitary U role s) (ended : Ended s.roles role) :
    (removeClosed U role).Post oracle s fun s' r => r = .ok () ∧ Vacated s' ∧ s'.pool = s.pool := by
  refine .bind (onRole_post (Q := fun t word => t = s.roles ∧ word = s.roles.roles (1 - role.index)) (.read ⟨rfl, rfl⟩)) ?_
  rintro s₁ word ⟨t, rfl, rfl, rfl⟩
  rw [alone.peer, if_neg (by simp)]
  refine .bind (onRole_post (Q := fun t word => t = s.roles ∧ word = s.roles.roles role.index) (.read ⟨rfl, rfl⟩)) ?_
  rintro s₂ word ⟨t, rfl, rfl, rfl⟩
  rw [ended.1, ended.2, if_neg (by simp)]
  refine .bind (onDir_post (Directory.remove_post alone.named alone.transaction alone.mutation alone.only)) ?_
  rintro s₃ r ⟨x, rfl, rfl, vacant⟩
  exact .done ⟨rfl, vacant, rfl⟩

/-- How one call of `remove` ends when its role is owned and both directions receive. -/
inductive Removes (last : Nat) (role : Channel.Role) (s s' : Shared U) : Except RemoveError Unit → Prop
  | removed (vacated : Vacated s') (served : Served s s') (lasting : ∀ token, Released s token → Released s' token)
      (unskipped : ∀ d, ¬Skips s d) (unclaimed : ∀ d, ¬Claims s d) : Removes last role s s' (.ok ())
  /-- a skipped position was passed -/
  | passed (d : Fin 2) (skips : Skips s d) (quiet : Still U last role s') (owns : Owns s'.roles role)
      (advances : ∃ word, Advances { s with roles := s.roles.setRole role.index word } s')
      (less : waiting s' 0 + waiting s' 1 < waiting s 0 + waiting s 1) : Removes last role s s' (.error .busy)
  | claimed (d : Fin 2) (claims : Claims s d) : Removes last role s s' (.error .busy)

theorem Released.same (pool : s'.pool = s.pool) : Released s' token ↔ Released s token := by
  rw [Released, Shared.slotWord, pool]
  rfl

theorem setRole_peer {T : Target} {t : Channel.Shared T} (index : role.index < 2) (word : Channel.RoleWord T) :
    (t.setRole role.index word).roles (1 - role.index) = t.roles (1 - role.index) :=
  Function.update_of_ne (by omega) ..

/-- **One removal.** Alone, with an owned role, on queues that receive. -/
theorem remove_post (patient : Prog.Patient oracle rounds) (quiet : Still U last role s) (owns : Owns s.roles role)
    (receiving : Receiving s) (enough : U.geometry.capacity < rounds) :
    (remove U role true rounds).Post oracle s fun s' r => Removes last role s s' r := by
  refine .bind (matchesLayout_post quiet.toSolitary) ?_
  rintro s₁ found ⟨rfl, x, rfl, same⟩
  refine .bind (closeWith_post patient (quiet.ready.frame same rfl rfl) owns receiving enough) ?_
  rintro s₂ r ⟨word, s₃, parts, closes, ok, failed⟩
  cases closes with
  | claimed d claims =>
    obtain rfl := failed nofun
    exact .done (.claimed d claims)
  | passed d skips ready advances less =>
    obtain rfl := failed nofun
    have owns' : Owns s₂.roles role := by
      rw [Owns, advances.spares.roles]
      simp only [Channel.RoleWord.parts, Prod.mk.injEq] at parts
      simp [Channel.Shared.setRole, parts]
    have alone' : Solitary U role s₂ := by
      refine quiet.next (advances.spares.dir.trans same) ?_
      rw [advances.spares.roles]
      exact setRole_peer quiet.index word
    exact .done (.passed d skips ⟨alone', ready⟩ owns' ⟨word, ⟨advances.spares.dir.trans same, advances.spares.roles,
      advances.spares.word⟩, advances.headPos, advances.tailPos, advances.fate, advances.receiving, advances.sending,
      advances.claims, advances.released⟩ less)
  | closed spares unskipped unclaimed released =>
    obtain ⟨ended, terminal, unowned, rfl⟩ := ok rfl
    have alone' : Solitary U role { s₃ with roles := s₃.roles.setRole role.index ended } := by
      refine quiet.next (spares.dir.trans same) ?_
      rw [setRole_peer quiet.index, spares.roles]
      exact setRole_peer quiet.index word
    refine .mono (removeClosed_post alone' ?_) ?_
    · simp [Ended, Channel.Shared.setRole, terminal, unowned]
    · rintro s' r ⟨rfl, vacated, pool⟩
      refine .removed vacated (fun d p token le lt published => ?_) (fun token finished => ?_) unskipped unclaimed
      · rw [Released.same pool]
        exact released d p token le lt published
      · have lasts : Released s₃ token :=
          Released.spares (s := { s with dir := x, roles := s.roles.setRole role.index word }) finished spares
        rw [Released.same pool]
        exact lasts

theorem remove_ended (patient : Prog.Patient oracle rounds) (alone : Solitary U role s) (ended : Ended s.roles role) :
    (remove U role true rounds).Post oracle s fun s' r => r = .ok () ∧ Vacated s' ∧ s'.pool = s.pool := by
  obtain ⟨fuel, rfl⟩ := patient.round
  refine .bind (matchesLayout_post alone) ?_
  rintro s₁ found ⟨rfl, x, rfl, same⟩
  refine .bind (R := fun s' r => s' = { s with dir := x } ∧ r = .ok ()) ?_ ?_
  · refine .bind (onRole_post (Q := fun t raw => t = s.roles ∧ raw = s.roles.roles role.index) (.read ⟨rfl, rfl⟩)) ?_
    rintro s₂ raw ⟨t, rfl, rfl, rfl⟩
    refine .bind (onRole_post (closingLoop_ended ended fuel)) ?_
    rintro s₃ answer ⟨t, rfl, rfl, rfl⟩
    exact .done ⟨rfl, rfl⟩
  rintro s₂ r ⟨rfl, rfl⟩
  exact removeClosed_post (s := { s with dir := x }) (alone.next same rfl) ended

/-! ### Calls again and again -/

/-- At most so many calls of `Session::remove` on the channel that the last one returned; `true` when one succeeds. -/
def attempts (U : Setup) (role : Channel.Role) (rounds : Nat) : Nat → SessionProg U Bool
  | 0 => return false
  | n + 1 => do
    match ← remove U role true rounds with
    | .ok () => return true
    | .error _ => attempts U role rounds n

theorem Served.after {word : Channel.RoleWord U.target}
    (advances : Advances { s with roles := s.roles.setRole role.index word } s₁)
    (lasting : ∀ token, Released s₁ token → Released s₂ token) (served : Served s₁ s₂) : Served s s₂ := by
  intro d p token le lt published
  by_cases passed : p < (s₁.queue d).trail.headPos
  · exact lasting token (advances.released d p token le passed published)
  · refine served d p token (by omega) ?_ ?_
    · rw [advances.tailPos]
      exact lt
    · rw [advances.fate]
      exact published

/-- **Removal in finitely many calls.** Every call that fails passes a position, so there are no more of them than
positions that wait. -/
theorem attempts_post (patient : Prog.Patient oracle rounds) (enough : U.geometry.capacity < rounds) (n : Nat)
    (quiet : Still U last role s) (owns : Owns s.roles role) (receiving : Receiving s)
    (unclaimed : ∀ d, ¬Claims s d) (few : waiting s 0 + waiting s 1 < n) :
    (attempts U role rounds n).Post oracle s fun s' done =>
      done = true ∧ Vacated s' ∧ Served s s' ∧ ∀ token, Released s token → Released s' token := by
  induction n generalizing s with
  | zero => omega
  | succ n ih =>
    refine .bind (remove_post patient quiet owns receiving enough) ?_
    rintro s₁ r removes
    cases removes with
    | claimed d claims => exact absurd claims (unclaimed d)
    | removed vacated served lasting => exact .done ⟨rfl, vacated, served, lasting⟩
    | passed d skips quiet' owns' advances less =>
      obtain ⟨word, advances⟩ := advances
      have receiving' : Receiving s₁ := fun d => (advances.receiving d).trans (receiving d)
      have unclaimed' : ∀ d, ¬Claims s₁ d := fun d claims => unclaimed d ((Claims.advances advances).mp claims)
      refine .mono (ih quiet' owns' receiving' unclaimed' (by omega)) ?_
      rintro s₂ done ⟨rfl, vacated, served, lasting⟩
      exact ⟨rfl, vacated, served.after advances lasting, fun token finished => lasting token (Released.spares
        (s := { s with roles := s.roles.setRole role.index word }) finished advances.spares)⟩

theorem attempts_blocked (n : Nat) (blocked : Blocked s role) :
    (attempts U role rounds n).Post oracle s fun _ done => done = false := by
  induction n generalizing s with
  | zero => exact .done rfl
  | succ n ih =>
    refine .bind (remove_blocked blocked true) ?_
    rintro s₁ (error | ⟨⟩) ⟨failed, blocked'⟩
    · exact ih blocked'
    · exact absurd rfl failed

theorem attempts_ended (patient : Prog.Patient oracle rounds) (alone : Solitary U role s) (ended : Ended s.roles role)
    (n : Nat) : (attempts U role rounds n).Post oracle s fun s' done =>
      (0 < n → done = true ∧ Vacated s') ∧ s'.pool = s.pool := by
  cases n with
  | zero => exact .done ⟨nofun, rfl⟩
  | succ n =>
    refine .bind (remove_ended patient alone ended) ?_
    rintro s₁ r ⟨rfl, vacated, pool⟩
    exact .done ⟨fun _ => ⟨rfl, vacated⟩, pool⟩

theorem Served.same (pool : s'.pool = s.pool) : Served s s' ↔ Served s s := by
  unfold Served
  simp only [Released.same pool]

/-- What the caller of `remove` finds in the words of the session when nobody else has to do with the channel: every token that
waits is one of a Pool of the directory. -/
structure Quiescent (U : Setup) (last : Nat) (role : Channel.Role) (s : Shared U) : Prop extends Solitary U role s where
  dir : s.dir.1.dir.Rests U.record last
  redeemable : ∀ d p token, (s.queue d).trail.headPos ≤ p → p < (s.queue d).trail.tailPos →
    (s.queue d).trail.fate p = .published token → Redeemable U last s token

theorem Rested.still {c : Config (Shared U) Queue.Site (Op U)} (rested : Rested U role.owner c)
    (quiet : Quiescent U last role c.shared) : Still U last role c.shared :=
  ⟨quiet.toSolitary, quiet.dir, rested.rests, quiet.redeemable⟩

/-! ### The small session at rest -/

/-- Participant 0 has the channel as its creator. -/
def pairRole : Channel.Role := ⟨0, 1, 0⟩

/-- Nobody but participant 0 has to do with the small session, and at most one token waits in a direction. -/
def Tidy (s : Shared pairSetup) : Prop :=
  (s.dir.1.dir.next 0 = 0 ∧ (∀ e, e < Directory.capacity → s.dir.1.dir.entry 0 e = pairStart.dir.1.dir.entry 0 e) ∧
    s.dir.1.dir.transaction = .clean ∧ s.dir.1.heap.mutation = .clean ∧ s.dir.1.members 200 = 1) ∧
  (s.pool 100).word 0 0 = .detached 3 ∧ (s.roles.roles 1).owner = none ∧ Owns s.roles pairRole ∧
  ∀ d : Fin 2, (s.queue d).trail.tailPos ≤ 1 ∧
    ((s.queue d).trail.fate 0 = .published pairToken ∨ (s.queue d).trail.fate 0 = .unreserved) ∧
    ∀ i, i < 2 → ((s.queue d).ctl i).holder = none ∧ Queue.base ((s.queue d).slot i).control ≠ Queue.consumer

instance : DecidablePred Tidy := fun s => by
  unfold Tidy
  infer_instance

section Tidy

variable {s : Shared pairSetup}

theorem Tidy.quiescent (tidy : Tidy s) : Quiescent pairSetup 0 pairRole s := by
  obtain ⟨⟨last, entries, transaction, mutation, only⟩, word, peer, -, queues⟩ := tidy
  have calm : ∀ e, e < Directory.capacity → (pairStart.dir.1.dir.entry 0 e).word.state.isCalm = true ∧
      ((pairStart.dir.1.dir.entry 0 e).word.state = .published →
        (pairSetup.record (pairStart.dir.1.dir.entry 0 e).offset).isSome = true) := by
    decide
  have channel : (s.dir.1.dir.entry 0 1).word = ⟨1, .published⟩ ∧ (s.dir.1.dir.entry 0 1).offset = 200 := by
    rw [entries 1 (by decide)]
    decide
  have pool : (s.dir.1.dir.entry 0 0).word.state = .published ∧ (s.dir.1.dir.entry 0 0).offset = 100 := by
    rw [entries 0 (by decide)]
    decide
  have linked : s.dir.1.dir.Linked 0 := fun j lt => absurd lt (Nat.not_lt_zero j)
  refine ⟨⟨by decide, peer, ⟨rfl, linked, by decide, channel.1, channel.2⟩, transaction, mutation, only⟩,
    ⟨linked, last, by decide, fun k e le lt => ?_, fun k e le lt => ?_⟩, fun d p token le lt published => ?_⟩
  · obtain rfl : k = 0 := by omega
    rw [entries e lt]
    exact (calm e lt).1
  · obtain rfl : k = 0 := by omega
    rw [entries e lt]
    exact (calm e lt).2
  · obtain ⟨few, first, -⟩ := queues d
    obtain rfl : p = 0 := by omega
    obtain rfl : token = pairToken := by
      rcases first with first | first <;> rw [first] at published <;> cases published
      rfl
    refine ⟨⟨pairPool, ⟨rfl, 0, 0, Nat.le_refl _, by decide, pool.1, pool.2⟩,
      .inr ⟨by decide, by decide, ⟨64, 1⟩, rfl, by decide⟩⟩, .inr ?_⟩
    rw [show s.slotWord pairToken = .detached 3 from word]
    decide

theorem Tidy.unclaimed (tidy : Tidy s) (d : Fin 2) : ¬Claims s d := by
  rintro ⟨i, lt, claimed⟩
  exact ((tidy.2.2.2.2 d).2.2 i lt).2 claimed

theorem Tidy.unskipped (tidy : Tidy s) (d : Fin 2) : ¬Skips s d := by
  rintro ⟨p, le, lt, skipped⟩
  obtain ⟨few, first, -⟩ := tidy.2.2.2.2 d
  obtain rfl : p = 0 := by omega
  rcases first with first | first <;> rw [first] at skipped <;> cases skipped

end Tidy

abbrev PairRun : Config (Shared pairSetup) Queue.Site (Op pairSetup) → Prop :=
  (machine pairSetup true).Run (Allowed Judged fun _ _ => True) (.start pairStart)

/-- No word of the queues names anybody but participant 0. -/
def Mine (s : Shared pairSetup) : Prop := ∀ d : Fin 2, ∀ i, i < 2 → ((s.queue d).ctl i).holder.map Prod.fst ∈ [none, some 0]

instance : DecidablePred Mine := fun s => by
  unfold Mine
  infer_instance

theorem PairRun.rested {c : Config (Shared pairSetup) Queue.Site (Op pairSetup)} (run : PairRun c) (idle : c.running = [])
    (alive : c.dead 0 = false) (mine : Mine c.shared) : Rested pairSetup 0 c where
  reached := ⟨pairStart, fun _ => rfl, run⟩
  settled := rfl
  idle := idle
  numbered := by
    show 0 < pairSetup.geometry.participants
    decide
  alive := alive
  words := by
    intro d i lt p r holder
    have named := mine d i lt
    rw [holder] at named
    obtain rfl : p = 0 := by simpa using named
    exact alive

theorem Tidy.rested {c : Config (Shared pairSetup) Queue.Site (Op pairSetup)} (tidy : Tidy c.shared) (run : PairRun c)
    (idle : c.running = []) (alive : c.dead 0 = false) : Rested pairSetup 0 c :=
  run.rested idle alive fun d i lt => by rw [((tidy.2.2.2.2 d).2.2 i lt).1]; exact List.mem_cons_self

theorem patient_zero (some_ : 0 < rounds) : Prog.Patient (fun _ => 0) rounds := fun _ => ⟨0, some_, rfl⟩

/-- Thread `t` is started and makes `n` steps. -/
def begun (op : Op pairSetup) (t n : Nat) : List (Step (Op pairSetup)) := .spawn op :: List.replicate n (.run t 0)

/-- Participant 1 becomes a member of the channel and adopts the other role. -/
def arrival : List (Step (Op pairSetup)) :=
  begun (.role (.adopt 1 ⟨1, 1, by decide, Nat.one_pos, by decide⟩)) 0 3 ++ begun (.dir (.member 1 200 3)) 1 1

/-- Participant 1 drops its role in thread `t` and leaves. -/
def departure (t : Nat) : List (Step (Op pairSetup)) :=
  [.spawn (.role (.dropRole ⟨1, 1, 1⟩)), .run t 0, .run t 1, .run t 0, .run t 0] ++ begun (.dir (.member 1 200 1)) (t + 1) 1

/-- The channel is closing, and a token waits in it. -/
def Waits (d : Fin 2) (s : Shared pairSetup) : Prop :=
  Tidy s ∧ Receiving s ∧ (s.roles.roles 0).terminal = true ∧ (s.queue d).trail.fate 0 = .published pairToken ∧
    (s.queue d).trail.headPos = 0 ∧ (s.queue d).trail.tailPos = 1

instance (d : Fin 2) : DecidablePred (Waits d) := fun s => by
  unfold Waits Receiving
  infer_instance

/-- Participant 0 calls `remove` while participant 1 has a position reserved, and fails. -/
theorem failed_removal_waits : ∃ c, Rested pairSetup 0 c ∧ Waits 1 c.shared := by
  have steps : ((machine pairSetup true).execIf (Allowed Judged fun _ _ => True) (.start pairStart) (arrival ++
      begun (.queue 1 (.produce 1 pairToken .publish)) 2 9 ++ begun (.remove pairRole true 3) 3 21 ++
      List.replicate 4 (.run 2 0) ++ departure 4)).map (fun c => (c.running.isEmpty, c.dead 0, decide (Waits 1 c.shared))) =
      some (true, false, true) := by
    decide +kernel
  obtain ⟨c, run, same⟩ := Machine.exists_run steps
  simp only [Prod.mk.injEq, decide_eq_true_eq, List.isEmpty_iff] at same
  obtain ⟨idle, alive, waits⟩ := same
  exact ⟨c, waits.1.rested run idle alive, waits⟩

/-! ### Removals at rest -/

variable {c : Config (Shared U) Queue.Site (Op U)}

/-- **Which quiescent channels can be removed.** At the end of a run whose repairs lose nothing: those whose receiving sides were
never closed, and those that an earlier call has closed. -/
theorem quiescent_removal (rested : Rested U role.owner c) (quiet : Quiescent U last role c.shared)
    (held : Owns c.shared.roles role ∨ Ended c.shared.roles role) (unclaimed : ∀ d, ¬Claims c.shared d)
    (patient : Prog.Patient oracle rounds) (enough : U.geometry.capacity < rounds) :
    (∃ n, (attempts U role rounds n).Post oracle c.shared fun s' done => done = true ∧ Vacated s' ∧ Served c.shared s') ↔
      Owns c.shared.roles role ∧ Receiving c.shared ∨ Ended c.shared.roles role ∧ Served c.shared c.shared := by
  have still := rested.still quiet
  constructor
  · rintro ⟨n, removed⟩
    rcases held with owns | ended
    · refine .inl ⟨owns, fun d => not_not.mp fun closed => ?_⟩
      have failed : (attempts U role rounds n).Post oracle c.shared fun _ done => done = false :=
        attempts_blocked n ⟨owns, d, .inl closed⟩
      have both := failed 0
      rw [(removed 0).1] at both
      cases both
    · refine .inr ⟨ended, ?_⟩
      rw [← Served.same (attempts_ended patient quiet.toSolitary ended n 0).2]
      exact (removed 0).2.2
  · rintro (⟨owns, receiving⟩ | ⟨ended, served⟩)
    · refine ⟨waiting c.shared 0 + waiting c.shared 1 + 1, .mono
        (attempts_post patient enough _ still owns receiving unclaimed ?_) ?_⟩
      · omega
      · rintro s' done ⟨rfl, vacated, served, -⟩
        exact ⟨rfl, vacated, served⟩
    · refine ⟨1, .mono (attempts_ended patient quiet.toSolitary ended 1) ?_⟩
      rintro s' done ⟨ok, pool⟩
      exact ⟨(ok (by omega)).1, (ok (by omega)).2, (Served.same pool).mpr served⟩

/-- A token waits in a channel that nobody else uses any more. -/
theorem quiescent_removal_sent : ∃ c, Rested pairSetup 0 c ∧ (c.shared.queue 1).trail.tailPos = 1 ∧
    ∃ n, (attempts pairSetup pairRole 3 n).Post (fun _ => 0) c.shared fun s' done =>
      done = true ∧ Vacated s' ∧ Served c.shared s' := by
  obtain ⟨c, rested, tidy, receiving, -, -, -, tail⟩ := failed_removal_waits
  have owns := tidy.2.2.2.1
  exact ⟨c, rested, tail, (quiescent_removal rested tidy.quiescent (.inl owns) tidy.unclaimed (patient_zero (by decide))
    (by decide)).mpr (.inl ⟨owns, receiving⟩)⟩

/-- After `Rx::close` no number of calls removes the channel: the removal drains through the gate that the receiver has
closed. -/
theorem closed_receiver_stays : ∃ c, Rested pairSetup 0 c ∧ Quiescent pairSetup 0 pairRole c.shared ∧
    Owns c.shared.roles pairRole ∧ (∀ d, ¬Claims c.shared d) ∧
    ∀ oracle rounds n, (attempts pairSetup pairRole rounds n).Post oracle c.shared fun _ done => done = false := by
  have steps : ((machine pairSetup true).execIf (Allowed Judged fun _ _ => True) (.start pairStart)
      (begun (.queue 0 (.produce 0 pairToken .publish)) 0 13 ++ begun (.queue 1 (.closeRecv 0)) 1 1)).map (fun c =>
        (c.running.isEmpty, c.dead 0, decide (Tidy c.shared),
          ((c.shared.queue 1).lifecycle >>> (pairSetup.route 1).recvField) &&& 0b11)) =
      some (true, false, true, 1) := by
    decide +kernel
  obtain ⟨c, run, same⟩ := Machine.exists_run steps
  simp only [Prod.mk.injEq, decide_eq_true_eq, List.isEmpty_iff] at same
  obtain ⟨idle, alive, tidy, closed⟩ := same
  have owns := tidy.2.2.2.1
  exact ⟨c, tidy.rested run idle alive, tidy.quiescent, owns, tidy.unclaimed, fun oracle rounds n =>
    attempts_blocked n ⟨owns, 1, .inl (by rw [closed]; decide)⟩⟩

/-- **When one call suffices.** At the end of a run whose repairs lose nothing, earlier calls of `remove` that failed among its
operations: no position that waits was skipped and no claim is unresolved, of the caller or of anybody else. -/
theorem quiescent_retry (rested : Rested U role.owner c) (quiet : Quiescent U last role c.shared)
    (held : Owns c.shared.roles role ∨ Ended c.shared.roles role) (patient : Prog.Patient oracle rounds)
    (enough : U.geometry.capacity < rounds) :
    ((remove U role true rounds).Post oracle c.shared fun s' r => r = .ok () ∧ Vacated s' ∧ Served c.shared s') ↔
      Owns c.shared.roles role ∧ Receiving c.shared ∧ (∀ d, ¬Skips c.shared d) ∧ (∀ d, ¬Claims c.shared d) ∨
        Ended c.shared.roles role ∧ Served c.shared c.shared := by
  have still := rested.still quiet
  constructor
  · intro removed
    rcases held with owns | ended
    · have receiving : Receiving c.shared := by
        intro d
        by_contra closed
        have failed : (remove U role true rounds).Post oracle c.shared fun s' r => r ≠ .ok () ∧ Blocked s' role :=
          remove_blocked ⟨owns, d, .inl closed⟩ true
        exact (failed 0).1 (removed 0).1
      have removes := remove_post patient still owns receiving enough 0
      rw [(removed 0).1] at removes
      cases removes with
      | removed vacated served lasting unskipped unclaimed => exact .inl ⟨owns, receiving, unskipped, unclaimed⟩
    · refine .inr ⟨ended, ?_⟩
      rw [← Served.same (remove_ended patient quiet.toSolitary ended 0).2.2]
      exact (removed 0).2.2
  · rintro (⟨owns, receiving, unskipped, unclaimed⟩ | ⟨ended, served⟩)
    · refine .mono (remove_post patient still owns receiving enough) ?_
      rintro s' r removes
      cases removes with
      | removed vacated served => exact ⟨rfl, vacated, served⟩
      | passed d skips => exact absurd skips (unskipped d)
      | claimed d claims => exact absurd claims (unclaimed d)
    · refine .mono (remove_ended patient quiet.toSolitary ended) ?_
      rintro s' r ⟨rfl, vacated, pool⟩
      exact ⟨rfl, vacated, (Served.same pool).mpr served⟩

/-- An earlier call has failed and left the channel closing; one more call removes it, with the token that was sent meanwhile. -/
theorem quiescent_retry_sent : ∃ c, Rested pairSetup 0 c ∧ (c.shared.roles.roles 0).terminal = true ∧
    (c.shared.queue 1).trail.tailPos = 1 ∧ (remove pairSetup pairRole true 3).Post (fun _ => 0) c.shared fun s' r =>
      r = .ok () ∧ Vacated s' ∧ Served c.shared s' := by
  obtain ⟨c, rested, tidy, receiving, closing, -, -, tail⟩ := failed_removal_waits
  have owns := tidy.2.2.2.1
  exact ⟨c, rested, closing, tail, (quiescent_retry rested tidy.quiescent (.inl owns) (patient_zero (by decide)) (by decide)).mpr
    (.inl ⟨owns, receiving, tidy.unskipped, tidy.unclaimed⟩)⟩

/-! ### Removals that fail for good -/

/-- What one call of `remove` at a configuration returns -/
def answer (c : Config (Shared pairSetup) Queue.Site (Op pairSetup)) : Except RemoveError Unit :=
  ((remove pairSetup pairRole true 3).solo (fun _ => 0) 0 c.shared).2

/-- Participant 1 has the claim of a token when `remove` comes to the receiving sides. The call closes the first receiver,
finds the claim and returns `Busy`; no later call removes the channel, since the drain goes through the gate that was closed.
When an entry of the directory is in transition, the call cannot find the Pool of the token and returns `Evidence`; the claim
that it forgets stops every later call. -/
theorem busy_removal_stays :
    (∃ c₁ c, answer c₁ = .error .busy ∧ (machine pairSetup true).Reaches c₁ c ∧ Rested pairSetup 0 c ∧
      Quiescent pairSetup 0 pairRole c.shared ∧ (∀ d, ¬Claims c.shared d) ∧ (∀ d, ¬Skips c.shared d) ∧
      ∀ oracle rounds n, (attempts pairSetup pairRole rounds n).Post oracle c.shared fun _ done => done = false) ∧
    ∃ c₁ c, answer c₁ = .error .evidence ∧ (machine pairSetup true).Reaches c₁ c ∧ Rested pairSetup 0 c ∧
      ∀ oracle rounds n, (attempts pairSetup pairRole rounds n).Post oracle c.shared fun _ done => done = false := by
  constructor
  · have steps : (((machine pairSetup true).execIf (Allowed Judged fun _ _ => True) (.start pairStart) (arrival ++
        begun (.queue 0 (.produce 0 pairToken .publish)) 2 13 ++ begun (.queue 0 (.consume 1 .take)) 3 7)).bind fun c₁ =>
        ((machine pairSetup true).execIf (Allowed Judged fun _ _ => True) c₁ (begun (.remove pairRole true 3) 4 30 ++
          List.replicate 3 (.run 3 0) ++ departure 5)).map fun c => (c₁, c)).map (fun (c₁, c) =>
          (decide (answer c₁ = .error .busy), c.running.isEmpty, c.dead 0, decide (Tidy c.shared),
            ((c.shared.queue 0).lifecycle >>> (pairSetup.route 0).recvField) &&& 0b11)) = some (true, true, false, true, 1) := by
      decide +kernel
    obtain ⟨c₁, c, first, second, same⟩ := exists_stages steps
    simp only [Prod.mk.injEq, decide_eq_true_eq, List.isEmpty_iff] at same
    obtain ⟨busy, idle, alive, tidy, closed⟩ := same
    have further := Machine.run_of_execIf second
    exact ⟨c₁, c, busy, further.mono fun _ _ _ => trivial, tidy.rested ((Machine.run_of_execIf first).trans further) idle alive,
      tidy.quiescent, tidy.unclaimed, tidy.unskipped, fun oracle rounds n =>
        attempts_blocked n ⟨tidy.2.2.2.1, 0, .inl fun opened => absurd (closed.symm.trans opened) (by decide)⟩⟩
  · have steps : (((machine pairSetup true).execIf (Allowed Judged fun _ _ => True) (.start pairStart) (
        begun (.queue 0 (.produce 0 pairToken .publish)) 0 13 ++ begun (.dir (.create 1 1 (some 8) 8)) 1 6)).bind fun c₁ =>
        ((machine pairSetup true).execIf (Allowed Judged fun _ _ => True) c₁ (begun (.remove pairRole true 3) 2 22 ++
          List.replicate 6 (.run 1 0))).map fun c => (c₁, c)).map (fun (c₁, c) =>
          (decide (answer c₁ = .error .evidence), c.running.isEmpty, c.dead 0, decide (Owns c.shared.roles pairRole),
            decide (Mine c.shared), Queue.base ((c.shared.queue 0).slot 0).control)) =
              some (true, true, false, true, true, Queue.consumer) := by
      decide +kernel
    obtain ⟨c₁, c, first, second, same⟩ := exists_stages steps
    simp only [Prod.mk.injEq, decide_eq_true_eq, List.isEmpty_iff] at same
    obtain ⟨evidence, idle, alive, owns, mine, claimed⟩ := same
    have further := Machine.run_of_execIf second
    exact ⟨c₁, c, evidence, further.mono fun _ _ _ => trivial,
      PairRun.rested ((Machine.run_of_execIf first).trans further) idle alive mine, fun oracle rounds n =>
        attempts_blocked n ⟨owns, 0, .inr ⟨0, by decide, claimed⟩⟩⟩

end Evering.Session
