import Evering.Pool.Custody

/-!
# Specifications of the Pool operations

The protocol of the Pool: ledger and custody together are the invariant, and every step lets generations
only grow. Each function of the model has one specification, which says what the operation has by value
before and after it; `code_spec` composes them over the operations.
-/

namespace Evering.Pool

open Interleave Function List

def protocol (pool : Storage) : Protocol Shared Unit Op View where
  inv := fun s dead views => Ledger pool s ∧ Custody pool s dead views
  idle := fun v => v.allocationId = none ∨ v.tokenId = none
  guar := Grows

section Specs

variable {pool : Storage} {op : Op} {a k : Nat} {al : Allocation} {tok : Token}

abbrev Spec (pool : Storage) (op : Op) {α : Type} (prog : PoolProg α) (v : View)
    (Q : α → View → Prop) : Prop :=
  (protocol pool).Triple op prog v Q

variable {v : View} {s : Shared}

theorem stay {dead : Nat → Bool} {views : Views Op View} {t : Nat}
    (ledger : Ledger pool s) (custody : Custody pool s dead views) (ht : views t = some (op, v)) :
    (protocol pool).inv s dead (update views t (some (op, v))) ∧ (protocol pool).guar s s := by
  rw [Protocol.update_same ht]
  exact ⟨⟨ledger, custody⟩, .refl s⟩

/-! ### Taking and returning values -/

theorem moveAllocation_spec (op : Op) :
    Spec pool op (moveAllocation op.owner a) .idle fun r v => v = r.elim .idle (.allocation a) := by
  refine .action fun s dead views t ⟨ledger, custody⟩ ht _ => ?_
  have same := stay ledger custody ht
  rcases ha : s.allocation a with _ | al
  · exact ⟨.idle, same.1, same.2, rfl⟩
  by_cases mine : al.owner = op.owner ∧ s.busy a = false
  · simp only [mine, and_self, if_true]
    refine ⟨.allocation a al, ⟨ledger.same rfl rfl rfl rfl rfl rfl rfl rfl, ?_⟩, .of_word rfl, rfl⟩
    refine custody.step ht (.setBusy (.inr mine.2)) ⟨ha, update_self .., mine.1⟩ ?_ ?_ ?_
    · intro a' h
      simp only [View.allocationId, Option.some.injEq] at h
      exact .inr (h ▸ custody.allocation_free (.inl mine.2))
    · exact fun _ is => by cases is
    · exact fun a' al' k tok ha' hk _ => .inl ⟨ha', hk, by simp [View.allocationId]⟩
  · simp only [mine, if_false]
    exact ⟨.idle, same.1, same.2, rfl⟩

theorem returnAllocation_spec : Spec pool op (returnAllocation a) (.allocation a al) fun _ v => v = .idle := by
  refine .write fun s dead views t ⟨ledger, custody⟩ ht _ => ?_
  refine ⟨.idle, ⟨ledger.same rfl rfl rfl rfl rfl rfl rfl rfl, ?_⟩, .of_word rfl, rfl⟩
  refine custody.step ht (.setBusy (.inl rfl)) trivial ?_ ?_ ?_
  · exact nofun
  · exact nofun
  · exact fun a' al' k tok ha' hk _ => .inl ⟨ha', hk, by simp [View.tokenId]⟩

theorem moveToken_spec (op : Op) : Spec pool op (moveToken op.owner k) .idle fun r v =>
      v = r.elim .idle fun tok => .received k tok false := by
  refine .action fun s dead views t ⟨ledger, custody⟩ ht _ => ?_
  have same := stay ledger custody ht
  rcases hk : s.token k with _ | tok
  · exact ⟨.idle, same.1, same.2, rfl⟩
  by_cases mine : s.place k = .claimed op.owner false
  · simp only [mine, if_true]
    refine ⟨.received k tok false, ⟨ledger.same rfl rfl rfl rfl rfl rfl rfl rfl, ?_⟩, .of_word rfl, rfl⟩
    refine custody.step ht (.setPlace ?_ (.inr ?_)) ⟨⟨hk, update_self ..⟩, by simp⟩ ?_ ?_ ?_
    · intro d owner
      rw [mine] at owner
      cases owner
      exact (custody.alive ht).1
    · simp [mine]
    · exact nofun
    · intro k' h
      simp only [View.tokenId, Option.some.injEq] at h
      exact .inr (h ▸ custody.token_free (.inr ⟨_, mine⟩))
    · exact fun a' al' k tok ha' hk _ => .inl ⟨ha', hk, by simp [View.allocationId]⟩
  · simp only [mine, if_false]
    exact ⟨.idle, same.1, same.2, rfl⟩

theorem setPlace_spec {place : Place} (id : v.tokenId = some k) (none : v.allocationId = none)
    (held : ∀ {s}, v.Ok s op → (s.place k).owner = some op.owner) :
    Spec pool op (.write () fun s => s.setPlace k place) v fun _ v => v = .idle := by
  refine .write fun s dead views t ⟨ledger, custody⟩ ht _ => ?_
  refine ⟨.idle, ⟨ledger.same rfl rfl rfl rfl rfl rfl rfl rfl, ?_⟩, .of_word rfl, rfl⟩
  refine custody.step ht (.setPlace ?_ (.inl id)) trivial ?_ ?_ ?_
  · intro d owner
    rw [held (custody.view ht), Option.some.injEq] at owner
    exact owner ▸ (custody.alive ht).1
  · exact nofun
  · exact nofun
  · exact fun a' al' k tok ha' hk _ => .inl ⟨ha', hk, by simp [none]⟩

variable {ended : Bool} {d id kind len : Nat} {α : Type} {expected new : State} {outcome : Outcome}

theorem returnToken_spec (op : Op) : Spec pool op (returnToken op.owner k) (.received k tok ended) fun _ v => v = .idle :=
  setPlace_spec rfl rfl fun ok => by rw [ok.1.place]; rfl

theorem publishToken_spec : Spec pool op (publishToken k) (.posted k tok) fun _ v => v = .idle :=
  setPlace_spec rfl rfl fun ok => by rw [ok.place]; rfl

theorem receive_spec (op : Op) : Spec pool op (receive op.owner k) .idle fun _ v => v = .idle := by
  refine .write fun s dead views t ⟨ledger, custody⟩ ht _ => ?_
  have same := stay ledger custody ht
  by_cases queued : (s.token k).isSome ∧ s.place k = .queued
  · simp only [queued, and_self, if_true]
    refine ⟨.idle, ⟨ledger.same rfl rfl rfl rfl rfl rfl rfl rfl, ?_⟩, .of_word rfl, rfl⟩
    refine custody.step ht (.setPlace ?_ (.inr ?_)) trivial ?_ ?_ ?_
    · intro d owner
      rw [queued.2] at owner
      cases owner
    · simp [queued.2]
    · exact nofun
    · exact nofun
    · exact fun a' al' k tok ha' hk _ => .inl ⟨ha', hk, by simp [View.tokenId]⟩
  · simp only [queued, if_false]
    exact ⟨.idle, same.1, same.2, rfl⟩

/-! ### Tokens entering and leaving queue slots -/

theorem stageEmpty_spec (zero : tok.generation = 0) :
    Spec pool op (stage op.owner tok) .idle fun k v => v = .posted k tok := by
  refine .action fun s dead views t ⟨ledger, custody⟩ ht _ => ?_
  have fresh := ledger.token_fresh (Nat.le_refl s.nextToken)
  refine ⟨.posted s.nextToken tok, ⟨ledger.stage _ (.inl zero), ?_⟩, .of_word rfl, rfl⟩
  refine custody.step ht (.addToken fresh) ⟨update_self .., update_self ..⟩ ?_ ?_ ?_
  · exact nofun
  · intro k h
    simp only [View.tokenId, Option.some.injEq] at h
    exact .inr (h ▸ custody.token_free (.inl fresh))
  · intro a al k tok' ha hk key
    rcases update_some_iff.mp hk with ⟨-, rfl⟩ | ⟨-, old⟩
    · -- an allocation has a generation above zero
      have owned := ((ledger.slot al.cls al.slot).allocation ha rfl rfl).1
      have positive := (ledger.slot al.cls al.slot).positive
      rw [owned] at positive
      have same : tok.generation = al.generation := congrArg (·.2.2) key
      exact absurd (same ▸ zero) (positive rfl)
    · exact .inl ⟨ha, old, by simp [View.allocationId]⟩

theorem stage_spec (key : tok.key = al.key) :
    Spec pool op (stage op.owner tok) (.allocation a al) fun k v => v = .staged a al k tok := by
  refine .action fun s dead views t ⟨ledger, custody⟩ ht _ => ?_
  have fresh := ledger.token_fresh (Nat.le_refl s.nextToken)
  have has : Has s op.owner a al := custody.view ht
  have owned := ((ledger.slot al.cls al.slot).allocation has.live rfl rfl).1
  have parts := key
  simp only [Token.key, Allocation.key, Prod.mk.injEq] at parts
  refine ⟨.staged a al s.nextToken tok, ⟨ledger.stage _ (.inr ⟨al.owner, ?_⟩), ?_⟩, .of_word rfl, rfl⟩
  · rw [parts.1, parts.2.1, parts.2.2, owned]
  refine custody.step ht (.addToken fresh)
    ⟨⟨has.live, has.busy, has.owner⟩, ⟨update_self .., update_self ..⟩, key⟩ ?_ ?_ ?_
  · exact fun a h => .inl h
  · intro k h
    simp only [View.tokenId, Option.some.injEq] at h
    exact .inr (h ▸ custody.token_free (.inl fresh))
  · intro a' al' k tok' ha hk key'
    rcases update_some_iff.mp hk with ⟨rfl, rfl⟩ | ⟨-, old⟩
    · -- the slot has no other allocation
      simp only [Token.key, Allocation.key, Prod.mk.injEq] at key'
      have same := (ledger.slot al.cls al.slot).allocation_unique ha has.live
        (key'.1.symm.trans parts.1) (key'.2.1.symm.trans parts.2.1) rfl rfl
      exact .inr ⟨by rw [same]; rfl, rfl⟩
    · exact .inl ⟨ha, old, by simp [View.tokenId]⟩

theorem removeToken_keep_spec (idA : v.allocationId = some a) (idK : v.tokenId = some k)
    (has : ∀ {s}, v.Ok s op → Has s op.owner a al)
    (present : ∀ {s}, v.Ok s op → s.token k = some tok ∧ (s.place k).owner = some op.owner)
    (key : ∀ {s}, v.Ok s op → tok.key = al.key) : Spec pool op (removeToken k) v fun _ v => v = .allocation a al := by
  refine .write fun s dead views t ⟨ledger, custody⟩ ht _ => ?_
  have ok := custody.view ht
  have alive := (custody.alive ht).1
  have owned := ((ledger.slot al.cls al.slot).allocation (has ok).live rfl rfl).1
  have parts := key ok
  simp only [Token.key, Allocation.key, Prod.mk.injEq] at parts
  refine ⟨.allocation a al, ⟨ledger.removeToken ?_, ?_⟩, .of_word rfl, rfl⟩
  · intro tok' h
    rw [(present ok).1, Option.some.injEq] at h
    subst h
    exact (ledger.slot al.cls al.slot).unarmed (present ok).1 parts.1 parts.2.1 (by rw [owned]; simp)
  refine custody.step ht (.removeToken (.inl idK) ?_) ⟨(has ok).live, (has ok).busy, (has ok).owner⟩ ?_ ?_ ?_
  · intro tok' d _ owner gone
    rw [(present ok).2, Option.some.injEq] at owner
    rw [← owner, alive] at gone
    cases gone
  · exact fun a' h => .inl (idA.trans h)
  · exact fun _ is => by cases is
  · intro a' al' k' tok' ha hk _
    obtain ⟨ne, old⟩ := update_none_iff.mp hk
    refine .inl ⟨ha, old, fun mine => ne ?_⟩
    rw [idK, Option.some.injEq] at mine
    exact mine.2.symm

theorem removeStaged_spec : Spec pool op (removeToken k) (.staged a al k tok) fun _ v => v = .allocation a al :=
  removeToken_keep_spec rfl rfl (fun ok => ok.1)
    (fun ok => ⟨ok.2.1.present, by rw [ok.2.1.place]; rfl⟩) fun ok => ok.2.2

theorem removeTook_spec : Spec pool op (removeToken k) (.took a al k tok) fun _ v => v = .allocation a al :=
  removeToken_keep_spec rfl rfl (fun ok => ok.1)
    (fun ok => ⟨ok.2.1.present, by rw [ok.2.1.place]; rfl⟩) fun ok => ok.2.2

theorem removeToken_spec (none : v.allocationId = none)
    (settled : ∀ {s}, v.Ok s op → ∀ tok', s.token k = some tok' → Settled s tok'.key)
    (mine : v.tokenId = some k ∨ ∀ {s}, v.Ok s op → ∀ tok' p, s.token k = some tok' →
      (s.place k).owner = some p → op.reaps = some p) : Spec pool op (removeToken k) v fun _ v => v = .idle := by
  refine .write fun s dead views t ⟨ledger, custody⟩ ht _ => ?_
  have ok := custody.view ht
  refine ⟨.idle, ⟨ledger.removeToken fun tok' h => ledger.unarmed_of_settled h (settled ok tok' h), ?_⟩,
    .of_word rfl, rfl⟩
  refine custody.step ht (.removeToken ?_ fun tok' _ h _ _ => settled ok tok' h) trivial ?_ ?_ ?_
  · exact mine.imp_right fun reaps tok' p h owner => custody.reaps ht (reaps ok tok' p h owner)
  · exact nofun
  · exact nofun
  · exact fun a al k' tok' ha hk _ => .inl ⟨ha, (update_none_iff.mp hk).2, by simp [none]⟩

theorem removePosted_spec (zero : tok.generation = 0) :
    Spec pool op (removeToken k) (.posted k tok) fun _ v => v = .idle := by
  refine removeToken_spec rfl (fun ok tok' h => .inl ?_) (.inl rfl)
  rw [ok.present, Option.some.injEq] at h
  exact h ▸ zero

theorem removeReceived_spec (settled : tok.generation = 0 ∨ ended = true) :
    Spec pool op (removeToken k) (.received k tok ended) fun _ v => v = .idle := by
  refine removeToken_spec rfl (fun ok tok' h => ?_) (.inl rfl)
  rw [ok.1.present, Option.some.injEq] at h
  subst h
  exact settled.elim .inl ok.2

theorem removeInspected_spec (settled : tok.generation = 0 ∨ ended = true) :
    Spec pool op (removeToken k) (.inspecting d k tok ended) fun _ v => v = .idle := by
  refine removeToken_spec rfl (fun ok tok' h => ?_) (.inr fun ok tok' p h owner => ?_)
  · rw [(ok.2.present tok' h).1]
    exact settled.elim .inl ok.2.ended
  · rw [(ok.2.present tok' h).2, Option.some.injEq] at owner
    exact owner ▸ ok.1

/-! ### Words -/

variable {c i : Nat}

theorem compareExchange_spec {effect : Shared → Shared × α} {Q : Option α → View → Prop}
    (success : ∀ s dead views t, Ledger pool s → Custody pool s dead views → views t = some (op, v) →
      s.word c i = expected → ∃ v', (protocol pool).inv (effect (s.setWord c i new)).1 dead
        (update views t (some (op, v'))) ∧ Grows s (effect (s.setWord c i new)).1 ∧
        Q (some (effect (s.setWord c i new)).2) v')
    (failure : ∀ s dead views t, Ledger pool s → Custody pool s dead views → views t = some (op, v) →
      s.word c i ≠ expected → Q none v) : Spec pool op (compareExchange c i expected new effect) v Q := by
  refine .action fun s dead views t ⟨ledger, custody⟩ ht _ => ?_
  by_cases same : s.word c i = expected
  · simp only [same, if_true]
    exact success s dead views t ledger custody ht same
  · simp only [same, if_false]
    exact ⟨v, (stay ledger custody ht).1, .refl s, failure s dead views t ledger custody ht same⟩

theorem compareExchangeWeak_spec {effect : Shared → Shared} {Q : Option State → View → Prop}
    (success : ∀ s dead views t, Ledger pool s → Custody pool s dead views → views t = some (op, v) →
      s.word c i = expected → ∃ v', (protocol pool).inv (effect (s.setWord c i new)) dead
        (update views t (some (op, v'))) ∧ Grows s (effect (s.setWord c i new)) ∧ Q none v')
    (failure : ∀ s dead views t, Ledger pool s → Custody pool s dead views → views t = some (op, v) →
      ∃ v', Custody pool s dead (update views t (some (op, v'))) ∧ Q (some (s.word c i)) v') :
    Spec pool op (compareExchangeWeak c i expected new effect) v Q := by
  refine .pick fun spurious => .action fun s dead views t ⟨ledger, custody⟩ ht _ => ?_
  by_cases same : s.word c i = expected ∧ spurious = 0
  · simp only [same, and_self, if_true]
    exact success s dead views t ledger custody ht same.1
  · simp only [same, if_false]
    obtain ⟨v', custody', post⟩ := failure s dead views t ledger custody ht
    exact ⟨v', ⟨ledger, custody'⟩, .refl s, post⟩

theorem release_spec : Spec pool op (release pool a al) (.allocation a al) fun _ v => v.tokenId = none := by
  unfold release
  split
  · exact rfl
  next loc local_eq =>
    obtain ⟨fits, rfl⟩ := State.of_local_eq_some pool.capacity_small local_eq
    refine .seq (R := fun r v => r.isSome ∧ v = .idle) (compareExchange_spec ?_ ?_) ?_
    · intro s dead views t ledger custody ht _
      have has : Has s op.owner a al := custody.view ht
      have owned := ((ledger.slot al.cls al.slot).allocation has.live rfl rfl).1
      have grows : Grows s (((s.setWord al.cls al.slot (State.free al.generation)).dropAllocation
          a).logFree al.cls al.slot al.generation) := by
        rw [State.free_eq fits.1]
        exact .of_allocated pool (c := al.cls) (i := al.slot) rfl (x := .free al.generation) fits.1
          (by rw [owned]; rfl) (by rw [owned]; rfl)
      refine ⟨.idle, ⟨ledger.release has.live, ?_⟩, grows, rfl, rfl⟩
      refine custody.step ht (.ofWord grows rfl rfl rfl ?_) trivial ?_ ?_ ?_
      · intro a' al' live busy _ other
        refine ⟨(update_of_ne ?_ ..).trans live, busy⟩
        rintro rfl
        exact other rfl
      · exact nofun
      · exact nofun
      · exact fun a' al' k tok ha hk _ => .inl ⟨(update_none_iff.mp ha).2, hk, by simp [View.tokenId]⟩
    · intro s dead views t ledger custody ht differs
      have has : Has s op.owner a al := custody.view ht
      have owned := ((ledger.slot al.cls al.slot).allocation has.live rfl rfl).1
      exact absurd ((ledger.word_iff fits).mpr owned) differs
    · rintro r v ⟨some, rfl⟩
      rw [Option.isNone_eq_false_iff.mpr some]
      exact rfl

theorem detach_spec : Spec pool op (detach pool a al k) (.staged a al k tok) fun r v =>
      v = if r then .posted k tok else .staged a al k tok := by
  unfold detach
  split
  · exact rfl
  next loc local_eq =>
    obtain ⟨fits, rfl⟩ := State.of_local_eq_some pool.capacity_small local_eq
    refine .seq (R := fun r v => v = if r.isSome then .posted k tok else .staged a al k tok)
      (compareExchange_spec ?_ ?_) ?_
    · intro s dead views t ledger custody ht _
      obtain ⟨has, staged, key⟩ : Has s op.owner a al ∧ At s k tok (.staged op.owner) ∧
        tok.key = al.key := custody.view ht
      have alive := (custody.alive ht).1
      have owned := ((ledger.slot al.cls al.slot).allocation has.live rfl rfl).1
      have grows : Grows s (((s.setWord al.cls al.slot (State.detached al.generation)).dropAllocation
          a).arm k true) := by
        rw [State.detached_eq fits.1]
        exact .of_allocated pool (c := al.cls) (i := al.slot) rfl (x := .detached al.generation) fits.1
          (by rw [owned]; rfl) (by rw [owned]; rfl)
      refine ⟨.posted k tok, ⟨ledger.detach has.live staged.present key fun k' tok' h h' => ?_, ?_⟩, grows, rfl⟩
      · have mine := custody.only_token ht has.live rfl (has.owner ▸ alive) h h'
        exact (Option.some.inj mine).symm
      refine custody.step ht (.ofWord grows rfl rfl rfl ?_) ⟨staged.present, staged.place⟩ ?_ ?_ ?_
      · intro a' al' live busy _ other
        refine ⟨(update_of_ne ?_ ..).trans live, busy⟩
        rintro rfl
        exact other rfl
      · exact nofun
      · exact fun k h => .inl h
      · intro a' al' k' tok' ha hk _
        obtain ⟨ne, old⟩ := update_none_iff.mp ha
        refine .inl ⟨old, hk, fun mine => ne ?_⟩
        exact (Option.some.inj mine.1).symm
    · exact fun _ _ _ _ _ _ _ _ => rfl
    · exact fun r v post => post

theorem mem_slots {cls : Class} (hc : pool.classes[c]? = some cls) (hi : i < cls.slots) : (c, i) ∈ pool.slots := by
  refine mem_flatMap.mpr ⟨(cls, c), mem_zipIdx_iff_getElem?.mpr hc, ?_⟩
  exact mem_map.mpr ⟨i, mem_range.mpr hi, rfl⟩

/-- After a takeover the operation has the allocation beside the token, or still only the token. -/
def Taken (k : Nat) (tok : Token) : Except AdoptError (Option (Nat × Allocation)) → View → Prop
  | .error _, v => v = .received k tok false
  | .ok none, v => v = .received k tok false ∧ tok.generation = 0
  | .ok (some (a, al)), v => v = .took a al k tok

theorem takeover_spec (op : Op) : Spec pool op (takeover pool op.owner k tok) (.received k tok false) (Taken k tok) := by
  unfold takeover
  split
  next zero =>
    split
    · exact rfl
    · exact ⟨rfl, zero⟩
  split
  · exact rfl
  next bound =>
  split
  · exact rfl
  split
  · exact rfl
  next cls hc =>
  split
  · exact rfl
  next hi =>
  split
  · exact rfl
  next loc local_eq =>
    obtain ⟨fits, rfl⟩ := State.of_local_eq_some pool.capacity_small local_eq
    refine .seq (R := fun r v => v = r.elim (.received k tok false) fun a =>
      .took a ⟨op.owner, tok.cls, tok.slot, tok.generation⟩ k tok) (compareExchange_spec ?_ ?_) ?_
    · intro s dead views t ledger custody ht word
      have here : At s k tok (.claimed op.owner true) := (custody.view ht).1
      have slot := ledger.slot tok.cls tok.slot
      rw [State.detached_eq fits.1] at word
      have detached := (ledger.word_iff (x := .detached tok.generation) fits.1).mp word
      have grows : Grows s (((s.setWord tok.cls tok.slot (Auth.owned tok.generation op.owner).word
          ).addAllocation ⟨op.owner, tok.cls, tok.slot, tok.generation⟩ true).arm k false) :=
        .of_allocated pool (c := tok.cls) (i := tok.slot) rfl fits (by rw [detached]; rfl)
          (by rw [detached]; rfl)
      refine ⟨_, ⟨ledger.takeover here.present detached fits.2 (mem_slots hc (by omega)), ?_⟩, grows, rfl⟩
      refine custody.step ht (.ofWord grows rfl rfl rfl ?_)
        ⟨⟨update_self .., update_self .., rfl⟩, ⟨here.present, here.place⟩, rfl⟩ ?_ ?_ ?_
      · intro a' al' live busy _ _
        have ne := ledger.not_next live
        exact ⟨(update_of_ne ne ..).trans live, (update_of_ne ne ..).trans busy⟩
      · intro a' h
        simp only [Option.elim, View.allocationId, Option.some.injEq] at h
        exact .inr (h ▸ custody.allocation_free (.inr (ledger.allocation_fresh (Nat.le_refl _))))
      · exact fun k h => .inl h
      · intro a' al' k' tok' ha hk key
        rcases update_some_iff.mp ha with ⟨rfl, rfl⟩ | ⟨-, old⟩
        · -- a detached word has one token for its generation
          simp only [Token.key, Allocation.key, Prod.mk.injEq] at key
          have positive := slot.positive
          rw [detached] at positive
          have nonzero : tok.generation ≠ 0 := positive rfl
          have armed := (slot.armed here.present rfl rfl nonzero).mpr detached
          have armed' := (slot.armed hk key.1 key.2.1 (key.2.2 ▸ nonzero)).mpr (key.2.2 ▸ detached)
          have same := slot.armed_unique hk here.present key.1 key.2.1 rfl rfl armed' armed
          exact .inr ⟨rfl, by rw [same]; rfl⟩
        · exact .inl ⟨old, hk, by simp [View.allocationId]⟩
    · intro s dead views t ledger custody ht _
      exact rfl
    · rintro (_ | a) v rfl
      · exact rfl
      · exact rfl

theorem adoptId_spec (op : Op) {expected : Nat} {layout : Metadata → Option (Nat × Nat)} :
    Spec pool op (adoptId pool op.owner k tok expected layout) (.received k tok false) (Taken k tok) := by
  unfold adoptId
  split
  · exact rfl
  split
  · exact rfl
  split
  · exact takeover_spec op
  split
  · exact rfl
  split
  · exact rfl
  · exact takeover_spec op

/-! ### `claim` -/

theorem mem_probes {preferred : Nat} (h : (c, i) ∈ probes pool preferred) : (c, i) ∈ pool.slots := by
  obtain ⟨⟨cls, index⟩, hmem, h⟩ := mem_flatMap.mp h
  obtain ⟨n, hn, h⟩ := mem_map.mp h
  rw [Prod.mk.injEq] at h
  obtain ⟨rfl, rfl⟩ := h
  have here := mem_zipIdx_iff_getElem?.mp (mem_of_mem_drop hmem)
  have positive : 0 < cls.slots := Nat.lt_of_le_of_lt (Nat.zero_le _) (mem_range.mp hn)
  exact mem_slots here (Nat.mod_lt _ positive)

theorem probe_spec (span : (c, i) ∈ pool.slots) : Spec pool op (probe pool op.owner c i) .idle fun _ v => v = .idle := by
  refine .seq (.peek Grows.refl (Q := fun _ v => v = .idle) fun _ => rfl) fun free v hv => ?_
  subst hv
  dsimp only
  split
  · exact rfl
  next loc local_eq =>
  obtain ⟨fits, rfl⟩ := State.of_local_eq_some pool.capacity_small local_eq
  split
  next usable =>
    simp only [Bool.and_eq_true, Bool.not_eq_true', decide_eq_true_eq] at usable
    obtain ⟨⟨-, unallocated⟩, lt⟩ := usable
    have next : min (free.generation + 1) (2 ^ 32 - 1) = free.generation + 1 := by
      rw [maxGeneration_eq] at lt
      omega
    rw [next] at fits ⊢
    refine compareExchange_spec ?_ fun _ _ _ _ _ _ _ _ => rfl
    intro s dead views t ledger custody ht word
    have auth : s.auth c i = .free free.generation := by
      rw [Shared.auth, word, State.auth, unallocated]
      rfl
    have grows : Grows s (((s.setWord c i (Auth.owned (free.generation + 1) op.owner).word).addAllocation
        ⟨op.owner, c, i, free.generation + 1⟩ false).logClaim c i (free.generation + 1)) := by
      refine .of_setWord (c := c) (i := i) rfl fits ?_ ?_
      · rw [auth]
        exact Nat.le_succ _
      · intro g free'
        rw [auth, Auth.free.injEq] at free'
        exact free' ▸ Nat.lt_succ_self _
    refine ⟨.idle, ⟨ledger.claim auth lt fits.2 span, ?_⟩, grows, rfl⟩
    refine custody.step ht (.ofWord grows rfl rfl rfl ?_) trivial ?_ ?_ ?_
    · intro a' al' live busy _ _
      have ne := ledger.not_next live
      exact ⟨(update_of_ne ne ..).trans live, (update_of_ne ne ..).trans busy⟩
    · exact fun _ is => by cases is
    · exact fun _ is => by cases is
    · intro a' al' k' tok' ha hk key
      rcases update_some_iff.mp ha with ⟨rfl, rfl⟩ | ⟨-, old⟩
      · -- no token is older than its slot's word
        simp only [Token.key, Allocation.key, Prod.mk.injEq] at key
        have recorded := (ledger.slot c i).recorded hk key.1 key.2.1
        rw [auth, key.2.2] at recorded
        exact absurd recorded (Nat.not_succ_le_self _)
      · exact .inl ⟨old, hk, by simp [View.allocationId]⟩
  · exact rfl

theorem probeAll_spec {spans : List (Nat × Nat)} (h : ∀ c i, (c, i) ∈ spans → (c, i) ∈ pool.slots) :
    Spec pool op (probeAll pool op.owner spans) .idle fun _ v => v = .idle := by
  induction spans with
  | nil => exact rfl
  | cons span rest ih =>
    obtain ⟨c, i⟩ := span
    refine .next (probe_spec (h c i mem_cons_self)) fun r => ?_
    cases r with
    | some a => exact rfl
    | none => exact ih fun c i hm => h c i (mem_cons_of_mem _ hm)

theorem claim_spec {size align : Nat} : Spec pool op (claim pool op.owner size align) .idle fun _ v => v = .idle := by
  unfold claim
  split
  · exact rfl
  split
  · dsimp only
    split
    · exact rfl
    · exact .seq (probeAll_spec fun c i h => mem_probes h) fun _ _ hv => hv
  · exact rfl

/-! ### `release_token` -/

/-- The observed word says that the generation is settled. -/
def isOver (g : Nat) (raw : State) : Bool :=
  decide (raw.generation > g) || (decide (raw.generation = g) && !raw.allocated)

theorem Ledger.generation_eq (ledger : Ledger pool s) (c i : Nat) : (s.word c i).generation = (s.auth c i).generation := by
  have fits := (ledger.slot c i).fits
  rw [fits.2, Auth.word_generation pool.capacity_small fits.1]

theorem Ledger.allocated_eq (ledger : Ledger pool s) (c i : Nat) : (s.word c i).allocated = (s.auth c i).allocated := by
  have fits := (ledger.slot c i).fits
  rw [fits.2, Auth.word_allocated pool.capacity_small fits.1]

theorem Ledger.owner_eq (ledger : Ledger pool s) (c i : Nat) : (s.word c i).owner = (s.auth c i).owner := by
  have fits := (ledger.slot c i).fits
  rw [fits.2, Auth.word_owner pool.capacity_small fits.1]

theorem Ledger.settled_of_isOver (ledger : Ledger pool s)
    (h : isOver tok.generation (s.word tok.cls tok.slot) = true) : Settled s tok.key := by
  simp only [isOver, Bool.or_eq_true, decide_eq_true_eq, Bool.and_eq_true, Bool.not_eq_true'] at h
  rw [ledger.generation_eq, ledger.allocated_eq] at h
  rcases h with passed | ⟨same, free⟩
  · exact .inr (.inr passed)
  · refine .inr (.inl ?_)
    change s.auth tok.cls tok.slot = .free tok.generation
    cases auth : s.auth tok.cls tok.slot with
    | free g =>
      rw [auth] at same
      exact congrArg Auth.free same
    | owned g p => rw [auth] at free; cases free
    | detached g => rw [auth] at free; cases free

/-- The views with which an operation calls `release_token` for token `k`, on behalf of `owner`. -/
structure Reader (op : Op) (k : Nat) (tok : Token) (owner : Option Nat) (w : Bool → View) : Prop where
  own : ∀ {s b}, (w b).Ok s op → ∀ tok', s.token k = some tok' → tok' = tok
  gone : ∀ {s b}, (w b).Ok s op → s.token k = none → Settled s tok.key
  ended : ∀ {s s' b}, (w b).Ok s op → s'.token = s.token → s'.place = s.place →
    s'.nextToken = s.nextToken → Grows s s' → Settled s' tok.key → (w true).Ok s' op
  allocation : ∀ b, (w b).allocationId = none
  token : ∀ b b', (w b).tokenId = (w b').tokenId
  reaps : ∀ d, owner = some d → op.reaps = some d

theorem Reader.received : Reader op k tok none (.received k tok) where
  own := by
    intro s b ok tok' h
    rw [ok.1.present, Option.some.injEq] at h
    exact h.symm
  gone := by
    intro s b ok h
    rw [ok.1.present] at h
    cases h
  ended := fun ok token place _ _ settled =>
    ⟨⟨token ▸ ok.1.present, place ▸ ok.1.place⟩, fun _ => settled⟩
  allocation := fun _ => rfl
  token := fun _ _ => rfl
  reaps := fun _ h => by cases h

theorem Reader.inspecting (reaps : op.reaps = some d) : Reader op k tok (some d) (.inspecting d k tok) where
  own := fun ok tok' h => (ok.2.present tok' h).1
  gone := fun ok h => ok.2.gone h
  ended := by
    intro s s' b ok token place nextToken grows settled
    refine ⟨ok.1, ?_, ?_, fun _ => settled, fun _ => settled⟩
    · rw [nextToken]
      exact ok.2.started
    · rw [token, place]
      exact ok.2.present
  allocation := fun _ => rfl
  token := fun _ _ => rfl
  reaps := fun d' h => Option.some.inj h ▸ reaps

section Release

variable {owner : Option Nat} {w : Bool → View} {s : Shared} {dead : Nat → Bool}
  {views : Views Op View} {t : Nat} {b : Bool}

theorem Reader.observe (reader : Reader op k tok owner w) (ledger : Ledger pool s)
    (custody : Custody pool s dead views) (ht : views t = some (op, w false)) : Custody pool s dead (update views t
      (some (op, w (isOver tok.generation (s.word tok.cls tok.slot))))) := by
  cases observed : isOver tok.generation (s.word tok.cls tok.slot) with
  | false =>
    rw [Protocol.update_same ht]
    exact custody
  | true =>
    have settled := ledger.settled_of_isOver observed
    exact custody.learn ht (reader.ended (custody.view ht) rfl rfl rfl (.refl s) settled)
      (by rw [reader.allocation, reader.allocation]) (reader.token _ _)

theorem releaseEffect_allocation {a' : Nat} {al' : Allocation} (h : s.allocation a' = some al')
    (other : ∀ d, owner = some d → al'.owner ≠ d) : (releaseEffect k tok owner s).allocation a' = some al' := by
  cases owner with
  | none => exact h
  | some d =>
    refine voidAllocations_iff.mpr ⟨h, ?_⟩
    rintro rfl
    exact other d rfl rfl

theorem Reader.release (reader : Reader op k tok owner w) (ledger : Ledger pool s)
    (custody : Custody pool s dead views) (ht : views t = some (op, w b))
    (source : (∃ d, owner = some d ∧ s.auth tok.cls tok.slot = .owned tok.generation d) ∨
      s.auth tok.cls tok.slot = .detached tok.generation) : (protocol pool).inv (releaseEffect k tok owner
        (s.setWord tok.cls tok.slot (State.free tok.generation))) dead (update views t (some (op, w true))) ∧
      Grows s (releaseEffect k tok owner (s.setWord tok.cls tok.slot (State.free tok.generation))) := by
  have slot := ledger.slot tok.cls tok.slot
  have allocated : (s.auth tok.cls tok.slot).allocated = true ∧
      (s.auth tok.cls tok.slot).generation = tok.generation := by
    rcases source with ⟨d, -, owned⟩ | detached
    · rw [owned]
      exact ⟨rfl, rfl⟩
    · rw [detached]
      exact ⟨rfl, rfl⟩
  have bound : tok.generation ≤ maxGeneration := allocated.2 ▸ slot.generation_le
  have present : s.auth tok.cls tok.slot = .detached tok.generation → s.token k = some tok := by
    intro detached
    rcases h : s.token k with _ | tok'
    · rcases reader.gone (custody.view ht) h with zero | free | passed
      · exact absurd (allocated.2.trans zero) (slot.positive allocated.1)
      · exact absurd (detached.symm.trans free) (by simp)
      · change tok.generation < (s.auth tok.cls tok.slot).generation at passed
        omega
    · rw [reader.own (custody.view ht) tok' h]
  have fields : (releaseEffect k tok owner (s.setWord tok.cls tok.slot (State.free tok.generation))).word =
        (s.setWord tok.cls tok.slot (State.free tok.generation)).word ∧
      (releaseEffect k tok owner (s.setWord tok.cls tok.slot (State.free tok.generation))).busy = s.busy ∧
      (releaseEffect k tok owner (s.setWord tok.cls tok.slot (State.free tok.generation))).token = s.token ∧
      (releaseEffect k tok owner (s.setWord tok.cls tok.slot (State.free tok.generation))).place = s.place ∧
      (releaseEffect k tok owner
        (s.setWord tok.cls tok.slot (State.free tok.generation))).nextToken = s.nextToken := by
    cases owner <;> exact ⟨rfl, rfl, rfl, rfl, rfl⟩
  obtain ⟨word, busy, token, place, nextToken⟩ := fields
  have grows := Grows.of_allocated pool (x := .free tok.generation)
    (word.trans (by rw [State.free_eq bound])) bound allocated.1 allocated.2
  have settled : Settled (releaseEffect k tok owner
      (s.setWord tok.cls tok.slot (State.free tok.generation))) tok.key := by
    refine .inr (.inl ?_)
    change Shared.auth _ tok.cls tok.slot = .free tok.generation
    rw [Shared.auth, word, word_setWord_self, State.free_eq bound,
      Auth.auth_word pool.capacity_small (x := .free tok.generation) bound]
  refine ⟨⟨ledger.releaseToken (reader.own (custody.view ht)) (source.imp_right fun detached =>
    ⟨detached, present detached⟩), ?_⟩, grows⟩
  refine custody.step ht (.ofWord grows token place nextToken ?_)
    (reader.ended (custody.view ht) token place nextToken grows settled) ?_ ?_ ?_
  · intro a' al' live held alive _
    refine ⟨releaseEffect_allocation live fun d some same => ?_, busy ▸ held⟩
    rw [same, custody.reaps ht (reader.reaps d some)] at alive
    cases alive
  · exact fun a h => .inl (by rw [reader.allocation] at h; cases h)
  · exact fun k h => .inl (reader.token true b ▸ h)
  · intro a' al' k' tok' ha hk _
    refine .inl ⟨?_, token ▸ hk, by simp [reader.allocation]⟩
    cases owner with
    | none => exact ha
    | some d => exact (voidAllocations_iff.mp ha).1

theorem releaseLoop_spec (reader : Reader op k tok owner w) (fuel : Nat) (raw : State) :
    Spec pool op (releaseLoop tok.cls tok.slot tok.generation owner (releaseEffect k tok owner) fuel raw)
      (w (isOver tok.generation raw)) fun r v => (∃ b, v = w b) ∧ (r = true → v = w true) := by
  induction fuel generalizing raw with
  | zero => exact ⟨⟨_, rfl⟩, by simp⟩
  | succ fuel ih =>
    unfold releaseLoop
    split
    · exact ⟨⟨_, rfl⟩, by simp⟩
    next known =>
    simp only [Bool.or_eq_true, Bool.not_eq_true', decide_eq_true_eq, not_or, Bool.not_eq_false, Nat.not_lt] at known
    split
    next done =>
      simp only [Bool.or_eq_true, Bool.not_eq_true', decide_eq_true_eq] at done
      have ended : isOver tok.generation raw = true := by
        simp only [isOver, Bool.or_eq_true, decide_eq_true_eq, Bool.and_eq_true, Bool.not_eq_true']
        rcases done with passed | free
        · exact .inl passed
        · rcases Nat.lt_or_eq_of_le known.2 with passed | same
          · exact .inl passed
          · exact .inr ⟨same.symm, free⟩
      rw [ended]
      exact ⟨⟨_, rfl⟩, fun _ => rfl⟩
    next current =>
    simp only [Bool.or_eq_true, Bool.not_eq_true', decide_eq_true_eq, not_or, Bool.not_eq_false, Nat.not_lt] at current
    have same : raw.generation = tok.generation := Nat.le_antisymm current.1 known.2
    have open_ : isOver tok.generation raw = false := by
      simp [isOver, same, current.2]
    rw [open_]
    split
    · exact ⟨⟨_, rfl⟩, by simp⟩
    next mine =>
    refine .seq (R := fun r v => v = r.elim (w true) fun observed => w (isOver tok.generation observed))
      (compareExchangeWeak_spec ?_ ?_) ?_
    · intro s dead views t ledger custody ht word
      have source : (∃ d, owner = some d ∧ s.auth tok.cls tok.slot = .owned tok.generation d) ∨
          s.auth tok.cls tok.slot = .detached tok.generation := by
        have generation := ledger.generation_eq tok.cls tok.slot
        have allocated := ledger.allocated_eq tok.cls tok.slot
        have named := ledger.owner_eq tok.cls tok.slot
        rw [word] at generation allocated named
        cases auth : s.auth tok.cls tok.slot with
        | free g =>
          rw [auth, current.2] at allocated
          cases allocated
        | owned g d =>
          rw [auth] at generation named
          rw [named] at mine
          simp only [Auth.owner, Option.any_some, decide_eq_true_eq, ne_eq, not_not] at mine
          exact .inl ⟨d, mine.symm, by rw [← same, generation]; rfl⟩
        | detached g =>
          rw [auth] at generation
          exact .inr (by rw [← same, generation]; rfl)
      obtain ⟨inv, grows⟩ := reader.release ledger custody ht source
      exact ⟨w true, inv, grows, rfl⟩
    · intro s dead views t ledger custody ht
      exact ⟨_, reader.observe ledger custody ht, rfl⟩
    · rintro (_ | observed) v rfl
      · exact ⟨⟨_, rfl⟩, fun _ => rfl⟩
      · exact ih observed

theorem releaseToken_spec (reader : Reader op k tok owner w) {fuel : Nat} :
    Spec pool op (releaseToken pool k tok owner fuel) (w false) fun r v =>
      (∃ b, v = w b) ∧ (r = true → v = w true ∨ tok.generation = 0) := by
  unfold releaseToken
  split
  next zero => exact fun found => ⟨⟨_, rfl⟩, fun _ => .inr zero⟩
  split
  · exact ⟨⟨_, rfl⟩, by simp⟩
  refine .pick fun found => ?_
  split
  · exact ⟨⟨_, rfl⟩, by simp⟩
  split
  · exact ⟨⟨_, rfl⟩, by simp⟩
  split
  · exact ⟨⟨_, rfl⟩, by simp⟩
  refine .seq (R := fun raw v => v = w (isOver tok.generation raw)) (.read Grows.refl ?_) ?_
  · intro s dead views t inv ht _
    exact ⟨_, ⟨inv.1, reader.observe inv.1 inv.2 ht⟩, rfl⟩
  · rintro raw v rfl
    exact (releaseLoop_spec reader fuel raw).mono fun r v post => ⟨post.1, fun h => .inl (post.2 h)⟩

end Release

/-! ### `Storage::recover` -/

theorem recoverLoop_spec (reaps : op.reaps = some d) (fuel : Nat) (raw : State) :
    Spec pool op (recoverLoop d c i fuel raw) .idle fun _ v => v = .idle := by
  induction fuel generalizing raw with
  | zero => exact rfl
  | succ fuel ih =>
    unfold recoverLoop
    split
    · exact rfl
    split
    · exact rfl
    next mine =>
    simp only [Bool.or_eq_true, Bool.not_eq_true', decide_eq_true_eq, not_or, Bool.not_eq_false, ne_eq, not_not] at mine
    refine .seq (R := fun _ v => v = .idle) (compareExchangeWeak_spec ?_ ?_) ?_
    · intro s dead views t ledger custody ht word
      have owned : s.auth c i = .owned raw.generation d := by
        rw [Shared.auth, word, State.auth, mine.1, mine.2]
        rfl
      have bound : raw.generation ≤ maxGeneration := by
        have le := (ledger.slot c i).generation_le
        rwa [owned] at le
      have grows : Grows s (((s.setWord c i (State.free raw.generation)).voidAllocations d c i
          raw.generation).logFree c i raw.generation) := by
        rw [State.free_eq bound]
        exact .of_allocated pool (c := c) (i := i) rfl (x := .free raw.generation) bound
          (by rw [owned]; rfl) (by rw [owned]; rfl)
      refine ⟨.idle, ⟨ledger.recover owned, ?_⟩, grows, rfl⟩
      refine custody.step ht (.ofWord grows rfl rfl rfl ?_) trivial ?_ ?_ ?_
      · intro a' al' live busy alive _
        refine ⟨voidAllocations_iff.mpr ⟨live, ?_⟩, busy⟩
        rintro rfl
        rw [custody.reaps ht reaps] at alive
        cases alive
      · exact fun _ is => by cases is
      · exact fun _ is => by cases is
      · exact fun a' al' k tok ha hk _ =>
          .inl ⟨(voidAllocations_iff.mp ha).1, hk, by simp [View.tokenId]⟩
    · intro s dead views t ledger custody ht
      exact ⟨.idle, (stay ledger custody ht).1.2, rfl⟩
    · rintro (_ | observed) v rfl
      · exact rfl
      · exact ih observed

theorem recoverAll_spec {fuel : Nat} (reaps : op.reaps = some d) (spans : List (Nat × Nat)) :
    Spec pool op (recoverAll d fuel spans) .idle fun _ v => v = .idle := by
  induction spans with
  | nil => exact rfl
  | cons span rest ih =>
    obtain ⟨c, i⟩ := span
    refine .seq (.peek Grows.refl (Q := fun _ v => v = .idle) fun _ => rfl) fun raw v hv => ?_
    subst hv
    refine .next (recoverLoop_spec reaps fuel raw) fun r => ?_
    cases r with
    | true => exact ih
    | false => exact rfl

theorem inspectToken_spec (reaps : op.reaps = some d) : Spec pool op (inspectToken d k) .idle fun r v =>
      v = r.elim .idle fun tok => .inspecting d k tok false := by
  refine .read Grows.refl fun s dead views t ⟨ledger, custody⟩ ht _ => ?_
  by_cases mine : (s.place k).owner = some d
  · rcases hk : s.token k with _ | tok
    · simp only [mine, if_true]
      exact ⟨.idle, (stay ledger custody ht).1, rfl⟩
    · simp only [mine, if_true]
      refine ⟨.inspecting d k tok false, ⟨ledger, custody.learn ht ⟨reaps, ?_, ?_, ?_, by simp⟩ rfl rfl⟩, rfl⟩
      · by_contra late
        rw [ledger.token_fresh (by omega)] at hk
        cases hk
      · intro tok' h
        rw [hk, Option.some.injEq] at h
        exact ⟨h.symm, mine⟩
      · intro h
        rw [hk] at h
        cases h
  · simp only [mine, if_false]
    exact ⟨.idle, (stay ledger custody ht).1, rfl⟩

/-! ### The operations -/

theorem ends_idle {prog : PoolProg α} (h : Spec pool op prog v fun _ v' => v' = .idle) :
    Spec pool op prog v fun _ v' => (protocol pool).idle v' := h.mono fun _ v hv => .inl (by rw [hv]; rfl)

theorem sendEmpty_spec (op : Op) : Spec pool op (sendEmpty pool op.owner id kind len outcome) .idle fun _ v => v = .idle := by
  refine .next (stageEmpty_spec rfl) fun k => ?_
  cases outcome with
  | publish => exact publishToken_spec
  | cancel => exact removePosted_spec rfl
  | drop => exact removePosted_spec rfl

theorem sendLive_spec (op : Op) : Spec pool op (sendLive pool op.owner a al id kind len outcome) (.allocation a al) fun _ v =>
      (protocol pool).idle v := by
  refine .next (stage_spec rfl) fun k => ?_
  cases outcome with
  | publish =>
    refine .next detach_spec fun detached => ?_
    cases detached with
    | true => exact ends_idle publishToken_spec
    | false =>
      refine .next removeStaged_spec fun _ => ?_
      exact release_spec.mono fun _ v hv => .inr hv
  | cancel =>
    refine .next removeStaged_spec fun _ => ?_
    exact ends_idle returnAllocation_spec
  | drop =>
    refine .next removeStaged_spec fun _ => ?_
    exact release_spec.mono fun _ v hv => .inr hv

theorem code_spec : Spec pool op (op.code pool) .idle fun _ v => (protocol pool).idle v := by
  cases op with
  | reserve p size align => exact ends_idle (.seq claim_spec fun _ _ hv => hv)
  | drop p a =>
    refine .next (moveAllocation_spec (.drop p a)) fun r => ?_
    cases r with
    | none => exact .inl rfl
    | some al => exact release_spec.mono fun _ v hv => .inr hv
  | send p a id kind len outcome =>
    cases a with
    | none => exact ends_idle (sendEmpty_spec (.send p none id kind len outcome))
    | some a =>
      refine .next (moveAllocation_spec (.send p (some a) id kind len outcome)) fun r => ?_
      cases r with
      | none => exact .inl rfl
      | some al => exact sendLive_spec (.send p (some a) id kind len outcome)
  | receive q k => exact ends_idle (receive_spec (.receive q k))
  | adopt q k expected layout =>
    refine .next (moveToken_spec (.adopt q k expected layout)) fun r => ?_
    cases r with
    | none => exact .inl rfl
    | some tok =>
      refine .seq (adoptId_spec (.adopt q k expected layout)) fun r v taken => ?_
      rcases r with _ | _ | ⟨a, al⟩
      · cases taken
        exact ends_idle (returnToken_spec (.adopt q k expected layout))
      · obtain ⟨rfl, zero⟩ := taken
        exact ends_idle (removeReceived_spec (.inl zero))
      · cases taken
        refine .next removeTook_spec fun _ => ?_
        exact ends_idle returnAllocation_spec
  | discard q k =>
    refine .next (moveToken_spec (.discard q k)) fun r => ?_
    cases r with
    | none => exact .inl rfl
    | some tok =>
      refine .seq (takeover_spec (.discard q k)) fun r v taken => ?_
      rcases r with _ | _ | ⟨a, al⟩
      · cases taken
        exact ends_idle (returnToken_spec (.discard q k))
      · obtain ⟨rfl, zero⟩ := taken
        exact ends_idle (removeReceived_spec (.inl zero))
      · cases taken
        refine .next removeTook_spec fun _ => ?_
        exact release_spec.mono fun _ v hv => .inr hv
  | remove q k fuel =>
    refine .next (moveToken_spec (.remove q k fuel)) fun r => ?_
    cases r with
    | none => exact .inl rfl
    | some tok =>
      refine .seq (releaseToken_spec .received) fun r v post => ?_
      obtain ⟨⟨b, rfl⟩, released⟩ := post
      cases r with
      | false => exact .inl rfl
      | true =>
        have settled : tok.generation = 0 ∨ b = true := by
          rcases released rfl with same | zero
          · exact .inr (by simpa using same)
          · exact .inl zero
        exact ends_idle (removeReceived_spec settled)
  | recover r d fuel => exact ends_idle (.seq (recoverAll_spec rfl _) fun _ _ hv => hv)
  | repair r d k fuel =>
    refine .next (inspectToken_spec rfl) fun r => ?_
    cases r with
    | none => exact .inl rfl
    | some tok =>
      refine .seq (releaseToken_spec (.inspecting rfl)) fun r v post => ?_
      obtain ⟨⟨b, rfl⟩, released⟩ := post
      cases r with
      | false => exact .inl rfl
      | true =>
        have settled : tok.generation = 0 ∨ b = true := by
          rcases released rfl with same | zero
          · exact .inr (by simpa using same)
          · exact .inl zero
        exact ends_idle (removeInspected_spec settled)

end Specs

end Evering.Pool
