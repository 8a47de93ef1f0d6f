import Evering.Queue.Delivery
import Evering.Typed.Received

/-!
# Sending a block

The identity of a transfer is computed once, from the header that the block is given first. `map` changes the type of the
header and keeps the identity, so the receiver of another header type refuses a token that is sound in every other respect.
If the last header has the identity of the first one, what is adopted is what was sent.
-/

namespace Evering.Typed

open Interleave Option

/-! ### Blocks -/

section Blocks

variable {target : Target} {P : PoolRef target} {B : Body} {s : Pool.Shared} {oracle : Nat → Nat}

def ClassOf (P : PoolRef target) (al : Pool.Allocation) (cls : Pool.Extent.Class) : Prop :=
  P.geometry.classes[al.cls]? = some cls ∧ al.slot < cls.slots

/-- A block that its owner may use -/
structure Block.Valid (P : PoolRef target) (block : Block B) (s : Pool.Shared) : Prop where
  /-- a live allocation has its slot -/
  owned : ∀ a al, block.allocation = some (a, al) → al.owner = P.owner ∧ al.generation ≠ 0 ∧ al.generation ≤ Pool.maxGeneration ∧
    (∃ cls, ClassOf P al cls) ∧ s.word al.cls al.slot = (Pool.Auth.owned al.generation P.owner).word
  /-- a value with bytes is in the slot of a live allocation -/
  placed : ∃ size align, B.layout target block.metadata = some (size, align) ∧
    (size ≠ 0 → ∃ a al cls, block.allocation = some (a, al) ∧ ClassOf P al cls ∧ size ≤ cls.bytes ∧ align ≤ cls.bytes ∧
      block.address = cls.address P.base al.slot)

end Blocks

/-! ### Transfers -/

/-- `map`s and `update`s of a transfer, from a header of one type to a header of another -/
inductive Chain : HeaderType → HeaderType → Type 1
  | done (H : HeaderType) : Chain H H
  | map {H T U : HeaderType} (f : H.Value → T.Value) (rest : Chain T U) : Chain H U
  | update {H U : HeaderType} (f : H.Value → H.Value) (rest : Chain H U) : Chain H U

namespace Chain

def apply : {H T : HeaderType} → Chain H T → Transfer H.Value → Transfer T.Value
  | _, _, done _, transfer => transfer
  | _, _, map f rest, transfer => rest.apply (transfer.map f)
  | _, _, update f rest, transfer => rest.apply (transfer.update f)

/-- The final header -/
def value : {H T : HeaderType} → Chain H T → H.Value → T.Value
  | _, _, done _, header => header
  | _, _, map f rest, header => rest.value (f header)
  | _, _, update f rest, header => rest.value (f header)

theorem apply_eq {H T : HeaderType} (chain : Chain H T) (transfer : Transfer H.Value) :
    chain.apply transfer = ⟨transfer.allocation, transfer.token.token, chain.value transfer.token.header⟩ := by
  induction chain with
  | done H => rfl
  | map f rest ih => exact ih _
  | update f rest ih => exact ih _

end Chain

section Transfers

variable {R : Queue.Route} {target : Target} {P Q : PoolRef target} {B : Body} {H T : HeaderType} {index : Nat}

def Block.token (P : PoolRef target) (block : Block B) (id : BitVec 64) : Pool.Token := (block.transferWith P () id).token.token

theorem chain_token (chain : Chain H T) (block : Block B) (header : H.Value) :
    (chain.apply (block.transfer P H header)).token = ⟨block.token P (typeId H B), chain.value header⟩ :=
  congrArg Transfer.token (chain.apply_eq _)

theorem chain_allocation (chain : Chain H T) (block : Block B) (header : H.Value) :
    (chain.apply (block.transfer P H header)).allocation = block.allocation :=
  congrArg Transfer.allocation (chain.apply_eq _)

theorem poolToken_metadata (pool cls slot generation : Nat) (metadata : Pool.Metadata) (id : BitVec 64) :
    (poolToken pool cls slot generation metadata id).metadata = some metadata := by
  cases metadata <;> simp [poolToken, metadataWords, Pool.Token.metadata]

/-- A slot that is not the one of the block -/
def Elsewhere (block : Block B) (cls slot : Nat) : Prop := ∀ a al, block.allocation = some (a, al) →
    (cls, slot) ≠ (al.cls, al.slot)

/-- What a publication leaves behind -/
structure Sent (block : Block B) (item : Token T.Value) (index : Nat) (s s' : Shared R T.Value) : Prop where
  item : (s'.queue.slot index).value = some item
  detached : ∀ a al, block.allocation = some (a, al) → s'.pool.word al.cls al.slot = .detached al.generation
  others : ∀ cls slot, Elsewhere block cls slot → s'.pool.word cls slot = s.pool.word cls slot

/-- The same value in another mapping of the Pool -/
structure SameBlock (P Q : PoolRef target) (block block' : Block B) : Prop where
  metadata : block'.metadata = block.metadata
  slot : (block'.allocation.map fun x => (x.2.cls, x.2.slot, x.2.generation)) =
    block.allocation.map fun x => (x.2.cls, x.2.slot, x.2.generation)
  bytes : ∀ size align, B.layout target block.metadata = some (size, align) → size ≠ 0 →
    block'.address + P.base = block.address + Q.base

/-- Exactly the slot of the block is free again. -/
structure Freed (block : Block B) (s s' : Pool.Shared) : Prop where
  free : ∀ a al, block.allocation = some (a, al) → s'.word al.cls al.slot = .free al.generation
  others : ∀ cls slot, Elsewhere block cls slot → s'.word cls slot = s.word cls slot

variable {α : Type} {a : Nat} {s' : Pool.Shared}

theorem stage_leads (q : Queue.Shared R.toGeometry α) (index : Nat) (value : α) :
    ∃ q', (Queue.stage index value).Leads q q' () ∧ (q'.slot index).value = some value := by
  refine ⟨_, ⟨rfl, rfl⟩, ?_⟩
  simp [Queue.Shared.setSlot]

theorem publish_leads {q : Queue.Shared R.toGeometry α} {value : α} (staged : (q.slot index).value = some value) :
    ∃ q', (Queue.publish index value).Leads q q' () ∧ (q'.slot index).value = some value := by
  refine ⟨_, ⟨rfl, rfl⟩, ?_⟩
  simp [Queue.Shared.setSlot, staged]

variable {block : Block B} {s : Pool.Shared}

theorem detachHeld_leads (valid : block.Valid P s) (k : Nat) : ∃ s', (detachHeld P k block.allocation).Leads s s' true ∧
      (∀ a al, block.allocation = some (a, al) → s'.word al.cls al.slot = .detached al.generation) ∧
      ∀ cls slot, Elsewhere block cls slot → s'.word cls slot = s.word cls slot := by
  match allocation : block.allocation with
  | none => exact ⟨s, .done, nofun, fun _ _ _ => rfl⟩
  | some (a, al) =>
    obtain ⟨owner, -, small, -, word⟩ := valid.owned a al allocation
    have detach : (Pool.detach P.storage a al k).Leads s
        (((s.setWord al.cls al.slot (.detached al.generation)).dropAllocation a).arm k true) true := by
      unfold Pool.detach
      rw [owner, Pool.State.local_eq P.storage.capacity_small small P.numbered]
      exact .bind (compareExchange_won word) .done
    refine ⟨_, detach, ?_, fun cls slot elsewhere => ?_⟩
    · rintro a' al' same
      cases same
      simp [Pool.Shared.arm, Pool.Shared.dropAllocation, Pool.Shared.setWord]
    · exact Pool.word_setWord_of_ne fun here => elsewhere a al allocation (by rw [here.1, here.2])

theorem publish_sent {s : Shared R T.Value} {transfer : Transfer T.Value} (valid : block.Valid P s.pool)
    (same : transfer.allocation = block.allocation) (k index : Nat) :
    ∃ s', (publish P k index transfer).Leads s s' true ∧ Sent block transfer.token index s s' := by
  obtain ⟨staged, stage, value⟩ := stage_leads s.queue index transfer.token
  obtain ⟨published, publish, value'⟩ := publish_leads value
  obtain ⟨pool, detach, detached, others⟩ := detachHeld_leads valid k
  rw [← same] at detach
  have first := Prog.Leads.focus (s := s) queueLens (fun _ => ()) stage
  have second := Prog.Leads.focus (s := { s with queue := staged }) poolLens id detach
  have third := Prog.Leads.focus (s := (⟨staged, pool⟩ : Shared R T.Value)) queueLens (fun _ => ()) publish
  exact ⟨⟨published, pool⟩, .bind first (.bind second (.bind third .done)), value', detached, others⟩

variable {al : Pool.Allocation}

theorem Block.token_live (id : BitVec 64) (live : block.allocation = some (a, al)) :
    block.token P id = poolToken P.id al.cls al.slot al.generation block.metadata id := by
  unfold Block.token Block.transferWith
  rw [live]

theorem Block.token_empty (id : BitVec 64) (empty : block.allocation = none) :
    block.token P id = poolToken P.id 0 0 0 block.metadata id := by
  unfold Block.token Block.transferWith
  rw [empty]

theorem Block.Valid.expected (valid : block.Valid P s) (peer : Q.geometry = P.geometry)
    (id : BitVec 64) {size align : Nat} (layout : B.layout target block.metadata = some (size, align)) :
    Expected Q B (block.token P id) id block.metadata size align := by
  have fields : (block.token P id).id = id.toNat ∧ (block.token P id).metadata = some block.metadata := by
    match allocation : block.allocation with
    | none =>
      rw [block.token_empty id allocation]
      exact ⟨rfl, poolToken_metadata ..⟩
    | some (a, al) =>
      rw [block.token_live id allocation]
      exact ⟨rfl, poolToken_metadata ..⟩
  refine ⟨fields.1, fields.2, layout, fun some_ => ?_⟩
  obtain ⟨size', align', layout', placed⟩ := valid.placed
  rw [layout] at layout'
  cases layout'
  obtain ⟨a, al, cls, allocation, ⟨there, inside⟩, room, aligned, -⟩ := placed some_
  rw [block.token_live id allocation]
  exact ⟨(valid.owned a al allocation).2.1, cls, peer ▸ there, inside, room, aligned⟩

theorem Block.Valid.takeable (valid : block.Valid P s) (same : Q.id = P.id)
    (peer : Q.geometry = P.geometry) (id : BitVec 64) (live : block.allocation = some (a, al))
    (detached : s'.word al.cls al.slot = .detached al.generation) : Takeable Q.storage (block.token P id) s' := by
  obtain ⟨-, some_, small, ⟨cls, there, inside⟩, -⟩ := valid.owned a al live
  rw [block.token_live id live]
  refine ⟨some_, small, same.symm, ⟨⟨cls.bytes, cls.slots⟩, ?_, inside⟩, detached⟩
  rw [PoolRef.storage, peer]
  exact (List.getElem?_map ..).trans (congrArg (Option.map _) there)

theorem Block.Valid.takeover (valid : block.Valid P s) (same : Q.id = P.id)
    (peer : Q.geometry = P.geometry) (id : BitVec 64) (k : Nat)
    (detached : ∀ a al, block.allocation = some (a, al) → s'.word al.cls al.slot = .detached al.generation) :
    ∃ s'' held, (Pool.takeover Q.storage Q.owner k (block.token P id)).Leads s' s'' (.ok held) ∧
      (held.map fun x => (x.2.cls, x.2.slot, x.2.generation)) =
        (block.allocation.map fun x => (x.2.cls, x.2.slot, x.2.generation)) ∧
      (∀ a al, held = some (a, al) → al.owner = Q.owner ∧
        s''.word al.cls al.slot = (Pool.Auth.owned al.generation Q.owner).word) ∧
      ∀ cls slot, Elsewhere block cls slot → s''.word cls slot = s'.word cls slot := by
  match allocation : block.allocation with
  | none =>
    rw [block.token_empty id allocation]
    exact ⟨s', none, takeover_empty rfl same.symm, rfl, nofun, fun _ _ _ => rfl⟩
  | some (a, al) =>
    have takeable := valid.takeable same peer id allocation (detached a al allocation)
    refine ⟨_, _, takeover_taken takeable Q.numbered, ?_, ?_, fun cls slot elsewhere => ?_⟩
    · rw [block.token_live id allocation]
      rfl
    · rintro _ _ ⟨⟩
      refine ⟨rfl, ?_⟩
      simp [takenOver, allocationOf, Pool.Shared.setWord, Pool.Shared.addAllocation, Pool.Shared.arm]
    · refine Pool.word_setWord_of_ne fun here => elsewhere a al allocation ?_
      rw [block.token_live id allocation] at here
      rw [here.1, here.2]
      rfl

theorem release_freed {pool : Pool.Storage} (small : al.generation ≤ Pool.maxGeneration) (numbered : al.owner < pool.capacity)
    (word : s.word al.cls al.slot = (Pool.Auth.owned al.generation al.owner).word) : (Pool.release pool a al).Leads s
      (((s.setWord al.cls al.slot (.free al.generation)).dropAllocation a).logFree al.cls al.slot al.generation) () := by
  unfold Pool.release
  rw [Pool.State.local_eq pool.capacity_small small numbered]
  exact .bind (compareExchange_won word) .done

theorem exists_of_map_eq {held held' : Held}
    (same : (held.map fun x => (x.2.cls, x.2.slot, x.2.generation)) = held'.map fun x => (x.2.cls, x.2.slot, x.2.generation))
    (live : held = some (a, al)) :
    ∃ a' al', held' = some (a', al') ∧ al'.cls = al.cls ∧ al'.slot = al.slot ∧ al'.generation = al.generation := by
  subst live
  obtain ⟨⟨a', al'⟩, is_some, eq⟩ := map_eq_some_iff.mp same.symm
  simp only [Prod.mk.injEq] at eq
  exact ⟨a', al', is_some, eq⟩

theorem Block.Valid.held (valid : block.Valid P s) (peer : Q.geometry = P.geometry) {held : Held}
    (same : (held.map fun x => (x.2.cls, x.2.slot, x.2.generation)) =
      block.allocation.map fun x => (x.2.cls, x.2.slot, x.2.generation)) (live : held = some (a, al)) :
    al.generation ≠ 0 ∧ al.generation ≤ Pool.maxGeneration ∧ ∃ cls, ClassOf Q al cls := by
  obtain ⟨a', al', live', is_cls, is_slot, is_generation⟩ := exists_of_map_eq same live
  obtain ⟨-, some_, small, ⟨cls, there⟩, -⟩ := valid.owned a' al' live'
  rw [is_generation] at some_ small
  refine ⟨some_, small, cls, ?_⟩
  rwa [ClassOf, is_cls, is_slot, ← peer] at there

section Claimed

variable {X : Type} {block : Block B} {s : Pool.Shared} {s' : Shared R X} {received : Received R} {id : BitVec 64} {header : X}

theorem Block.Valid.adopted (valid : block.Valid P s) (peer : Q.id = P.id ∧ Q.geometry = P.geometry) (k : Nat)
    (claimed : received.item? s' = some ⟨block.token P id, header⟩)
    (detached : ∀ a al, block.allocation = some (a, al) → s'.pool.word al.cls al.slot = .detached al.generation) :
    ∃ s'' block', (admitWith received fun token => adoptId Q k B token id).Leads s' s'' (.ok (header, block')) ∧
      SameBlock P Q block block' ∧ block'.Valid Q s''.pool := by
  obtain ⟨pool, held, taken, same, owned, -⟩ := valid.takeover peer.1 peer.2 id k detached
  obtain ⟨size, align, layout, placed⟩ := valid.placed
  obtain ⟨address, adopted, at_slot⟩ := adoptId_taken (valid.expected peer.2 id layout) taken
  have placed' (some_ : size ≠ 0) : ∃ a al cls, held = some (a, al) ∧ ClassOf Q al cls ∧ size ≤ cls.bytes ∧ align ≤ cls.bytes ∧
      address = cls.address Q.base al.slot ∧ block.address = cls.address P.base al.slot := by
    obtain ⟨a, al, cls, live, there, room, aligned, here⟩ := placed some_
    obtain ⟨a', al', live', is_cls, is_slot, -⟩ := exists_of_map_eq same.symm live
    rw [ClassOf, ← is_cls, ← is_slot, ← peer.2] at there
    rw [block.token_live _ live, ← is_cls, ← is_slot] at at_slot
    rw [← is_slot] at here
    exact ⟨a', al', cls, live', there, room, aligned, at_slot cls some_ there.1, here⟩
  refine ⟨_, _, admitWith_ok claimed adopted, ⟨rfl, same, fun size' align' layout' some_ => ?_⟩, ?_, size, align, layout,
    fun some_ => ?_⟩
  · rw [layout] at layout'
    cases layout'
    obtain ⟨a, al, cls, -, -, -, -, here, there⟩ := placed' some_
    show address + P.base = block.address + Q.base
    rw [here, there]
    unfold Pool.Extent.Class.address
    omega
  · intro a al live
    obtain ⟨owner, word⟩ := owned a al live
    obtain ⟨generation, small, there⟩ := valid.held peer.2 same live
    exact ⟨owner, generation, small, there, word⟩
  · obtain ⟨a, al, cls, live, there, room, aligned, here, -⟩ := placed' some_
    exact ⟨a, al, cls, live, there, room, aligned, here⟩

theorem Block.Valid.discarded (valid : block.Valid P s) (peer : Q.id = P.id ∧ Q.geometry = P.geometry) (k : Nat)
    (claimed : received.item? s' = some ⟨block.token P id, header⟩)
    (detached : ∀ a al, block.allocation = some (a, al) → s'.pool.word al.cls al.slot = .detached al.generation) :
    ∃ s'', (discard Q k received).Leads s' s'' (.ok header) ∧ Freed block s'.pool s''.pool := by
  obtain ⟨pool, held, taken, same, owned, others⟩ := valid.takeover peer.1 peer.2 id k detached
  have admitted := admitWith_ok claimed taken
  match held with
  | none =>
    have empty : block.allocation = none := map_eq_none_iff.mp same.symm
    refine ⟨_, .bind admitted (.bind (.focus poolLens _ .done) .done), ?_, others⟩
    intro a al live
    rw [empty] at live
    cases live
  | some (a, al) =>
    obtain ⟨-, small, -⟩ := valid.held peer.2 same rfl
    obtain ⟨owner, word⟩ := owned a al rfl
    obtain ⟨a', al', live', is_cls, is_slot, is_generation⟩ := exists_of_map_eq same rfl
    have freed : (Pool.release Q.storage a al).Leads pool _ () := release_freed small (owner ▸ Q.numbered) (owner ▸ word)
    refine ⟨_, .bind admitted (.bind (.focus poolLens _ freed) .done), ?_, fun cls slot elsewhere => ?_⟩
    · intro a'' al'' live''
      rw [live'] at live''
      cases live''
      rw [is_cls, is_slot, is_generation]
      exact Pool.word_setWord_self ..
    · refine (Pool.word_setWord_of_ne fun here => elsewhere a' al' live' ?_).trans (others cls slot elsewhere)
      rw [here.1, here.2, is_cls, is_slot]

end Claimed

theorem adoptId_type {token : Pool.Token} {expected : BitVec 64} (other : token.id ≠ expected.toNat) (k : Nat) (s : Pool.Shared) :
    (adoptId P k B token expected).Leads s s (.error .type) := by
  have refused : (Pool.adoptId P.storage P.owner k token expected.toNat (B.layout target)).Leads s s (.error .type) := by
    unfold Pool.adoptId
    rw [if_pos other]
    exact .done
  exact .bind refused .done

theorem Block.Valid.refused {s' : Shared R T.Value} {received : Received R} {header : T.Value} (valid : block.Valid P s)
    (claimed : received.item? s' = some ⟨block.token P (typeId H B), header⟩) (other : typeId T B ≠ typeId H B) (k : Nat) :
    (adopt Q k T B received).Leads s' s' (.error (.type, received)) := by
  obtain ⟨size, align, layout, -⟩ := valid.placed
  have id : (block.token P (typeId H B)).id = (typeId H B).toNat := (valid.expected rfl (typeId H B) layout).id
  refine admitWith_failed claimed (adoptId_type ?_ k s'.pool)
  rw [id]
  exact fun same => other (BitVec.eq_of_toNat_eq same.symm)

/-- **The round trip.** A valid block is published under the final header and is detached. As long as its slot stays so, the peer
that has claimed the token adopts the same block with that header if and only if the header has the identity of the first one;
discarding frees exactly the slot in any case. -/
theorem transfer_round_trip (chain : Chain H T) (peer : Q.id = P.id ∧ Q.geometry = P.geometry) {block : Block B}
    {s : Shared R T.Value} (valid : block.Valid P s.pool) (header : H.Value) (k index : Nat) :
    ∃ s₁, (publish P k index (chain.apply (block.transfer P H header))).Leads s s₁ true ∧
      Sent block (chain.apply (block.transfer P H header)).token index s s₁ ∧
      ∀ (received : Received R) (s₂ : Shared R T.Value),
        received.item? s₂ = some (chain.apply (block.transfer P H header)).token →
        (∀ a al, block.allocation = some (a, al) → s₂.pool.word al.cls al.slot = s₁.pool.word al.cls al.slot) →
        ((∃ s₃ block', (adopt Q k T B received).Leads s₂ s₃ (.ok (chain.value header, block')) ∧
          SameBlock P Q block block' ∧ block'.Valid Q s₃.pool) ↔ typeId T B = typeId H B) ∧
        ∃ s₃, (discard Q k received).Leads s₂ s₃ (.ok (chain.value header)) ∧ Freed block s₂.pool s₃.pool := by
  obtain ⟨s₁, published, sent⟩ := publish_sent valid (chain_allocation (P := P) chain block header) k index
  refine ⟨s₁, published, sent, fun received s₂ claimed still => ?_⟩
  have detached : ∀ a al, block.allocation = some (a, al) → s₂.pool.word al.cls al.slot = .detached al.generation :=
    fun a al live => (still a al live).trans (sent.detached a al live)
  rw [chain_token] at claimed
  refine ⟨⟨?_, fun identity => ?_⟩, valid.discarded peer k claimed detached⟩
  · rintro ⟨s₃, block', adopted, -⟩
    by_contra other
    have refused : (adopt Q k T B received).Leads s₂ s₂ (.error (.type, received)) := valid.refused claimed other k
    have same := (adopted.solo (fun _ => 0) 0).symm.trans (refused.solo (fun _ => 0) 0)
    cases same
  · rw [← identity] at claimed
    exact valid.adopted peer k claimed detached

end Transfers

/-! ### A word with a header -/

/-- `u8` as a header -/
def byteHeader : HeaderType := ⟨BitVec 8, ⟨Schema.schemaId "core.u8", 1⟩⟩

def wordBlock : Block wordBody := ⟨some (0, ⟨0, 0, 0, 1⟩), 4544, .sized⟩

/-- The first participant has all slots of the Pool, and the queue is empty. -/
def wordStart (H : HeaderType) : Shared Queue.pairRoute H.Value :=
  ⟨.init _ _, { Pool.Shared.init with word := fun _ _ => (Pool.Auth.owned 1 0).word }⟩

theorem wordBlock_valid (H : HeaderType) : wordBlock.Valid senderRef (wordStart H).pool := by
  have there : ClassOf senderRef ⟨0, 0, 0, 1⟩ ⟨64, 64, 160, 448⟩ := ⟨rfl, by decide⟩
  refine ⟨?_, 4, 4, rfl, fun _ => ⟨0, ⟨0, 0, 0, 1⟩, _, rfl, there, by decide, by decide, rfl⟩⟩
  rintro _ _ ⟨⟩
  exact ⟨rfl, by decide, by decide, ⟨_, there⟩, rfl⟩

/-- A word is sent with an empty header, adopted with it, or freed. -/
theorem transfer_round_trip_word : ∃ s₁, (publish senderRef 0 0 (wordBlock.transfer senderRef unitHeader ())).Leads
      (wordStart unitHeader) s₁ true ∧
    (∃ s₃ block', (adopt receiverRef 0 unitHeader wordBody wordReceived).Leads s₁ s₃ (.ok ((), block')) ∧
      SameBlock senderRef receiverRef wordBlock block' ∧ block'.Valid receiverRef s₃.pool) ∧
    ∃ s₃, (discard receiverRef 0 wordReceived).Leads s₁ s₃ (.ok ()) ∧ Freed wordBlock s₁.pool s₃.pool := by
  obtain ⟨s₁, published, sent, after⟩ := transfer_round_trip (P := senderRef) (Q := receiverRef) (.done unitHeader) ⟨rfl, rfl⟩
    (wordBlock_valid unitHeader) () 0 0
  have ⟨adopted, discarded⟩ := after wordReceived s₁ sent.item fun _ _ _ => rfl
  exact ⟨s₁, published, adopted.mpr rfl, discarded⟩

/-- The header of a transfer is mapped from `()` to `u8`. -/
def mappedWord : Transfer byteHeader.Value := (wordBlock.transfer senderRef unitHeader ()).map fun _ => (0 : BitVec 8)

/-- Its token still has the identity for `()`, and is refused on a channel with headers of type `u8`. -/
theorem mapped_header_refused : ∃ s₁,
    (publish senderRef 0 0 mappedWord).Leads (wordStart byteHeader) s₁ true ∧ wordReceived.item? s₁ = some mappedWord.token ∧
    s₁.pool.word 0 0 = .detached 1 ∧
    (adopt receiverRef 0 byteHeader wordBody wordReceived).Leads s₁ s₁ (.error (.type, wordReceived)) := by
  have allocation : mappedWord.allocation = wordBlock.allocation := rfl
  obtain ⟨s₁, published, sent⟩ := publish_sent (wordBlock_valid byteHeader) allocation 0 0
  have other : mappedWord.token.token.id ≠ (typeId byteHeader wordBody).toNat := by decide +kernel
  have present : wordReceived.item? s₁ = some mappedWord.token := sent.item
  exact ⟨s₁, published, present, sent.detached 0 _ rfl, admitWith_failed present (adoptId_type other 0 s₁.pool)⟩

end Evering.Typed
