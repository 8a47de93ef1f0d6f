import Evering.Typed.Model

/-!
# Admission of a received token

The token in a queue slot is whatever bytes are there. An admission checks all of it before the compare-and-swap on the slot
of the Pool, which is its last step that can fail: so an admission that fails has changed nothing, and one that succeeds has
moved the one slot that the token names and has a pointer into it.
-/

namespace Evering.Typed

open Interleave List Option

/-! ### Takeover -/

section Takeover

variable {pool : Pool.Storage} {q k : Nat} {token : Pool.Token} {s : Pool.Shared}

/-- The token names a slot that is detached in its generation. -/
structure Takeable (pool : Pool.Storage) (token : Pool.Token) (s : Pool.Shared) : Prop where
  live : token.generation ≠ 0
  small : token.generation ≤ Pool.maxGeneration
  same : token.pool = pool.id
  there : ∃ cls, pool.classes[token.cls]? = some cls ∧ token.slot < cls.slots
  detached : s.word token.cls token.slot = .detached token.generation

/-- The allocation that a takeover makes -/
def allocationOf (q : Nat) (token : Pool.Token) : Pool.Allocation := ⟨q, token.cls, token.slot, token.generation⟩

def takenOver (q k : Nat) (token : Pool.Token) (s : Pool.Shared) : Pool.Shared :=
  ((s.setWord token.cls token.slot (Pool.Auth.owned token.generation q).word).addAllocation (allocationOf q token) true).arm
    k false

inductive TookOver (pool : Pool.Storage) (q k : Nat) (token : Pool.Token) (s : Pool.Shared) :
    Pool.Shared → Except Pool.AdoptError Held → Prop
  | failed (error : Pool.AdoptError) : TookOver pool q k token s s (.error error)
  | empty (zero : token.generation = 0) : TookOver pool q k token s s (.ok none)
  | taken (takeable : Takeable pool token s) :
    TookOver pool q k token s (takenOver q k token s) (.ok (some (s.nextAllocation, allocationOf q token)))

variable {α : Type} {cls slot : Nat} {expected new : Pool.State} {effect : Pool.Shared → Pool.Shared × α}

theorem compareExchange_won (same : s.word cls slot = expected) : (Pool.compareExchange cls slot expected new effect).Leads s
      (effect (s.setWord cls slot new)).1 (some (effect (s.setWord cls slot new)).2) := by
  have leads : (Pool.compareExchange cls slot expected new effect).Leads s _ _ := .action
  rwa [if_pos same] at leads

theorem compareExchange_lost
    (other : s.word cls slot ≠ expected) : (Pool.compareExchange cls slot expected new effect).Leads s s none := by
  have leads : (Pool.compareExchange cls slot expected new effect).Leads s _ _ := .action
  rwa [if_neg other] at leads

theorem takeover_taken (takeable : Takeable pool token s) (numbered : q < pool.capacity) :
    (Pool.takeover pool q k token).Leads s (takenOver q k token s) (.ok (some (s.nextAllocation, allocationOf q token))) := by
  obtain ⟨cls, there, inside⟩ := takeable.there
  unfold Pool.takeover
  rw [if_neg takeable.live, if_neg (Nat.not_lt.mpr takeable.small), if_neg (not_not_intro takeable.same), there]
  dsimp only
  rw [if_neg (Nat.not_le.mpr inside), Pool.State.local_eq pool.capacity_small takeable.small numbered]
  exact .bind (compareExchange_won takeable.detached) .done

theorem takeover_empty (zero : token.generation = 0) (same : token.pool = pool.id) :
    (Pool.takeover pool q k token).Leads s s (.ok none) := by
  unfold Pool.takeover
  rw [if_pos zero, if_neg (not_not_intro same)]
  exact .done

theorem takeover_leads (pool : Pool.Storage) (k : Nat) (token : Pool.Token) (s : Pool.Shared) (numbered : q < pool.capacity) :
    ∃ s' r, (Pool.takeover pool q k token).Leads s s' r ∧ TookOver pool q k token s s' r := by
  by_cases takeable : Takeable pool token s
  · exact ⟨_, _, takeover_taken takeable numbered, .taken takeable⟩
  by_cases empty : token.generation = 0 ∧ token.pool = pool.id
  · exact ⟨_, _, takeover_empty empty.1 empty.2, .empty empty.1⟩
  unfold Pool.takeover
  split
  · rename_i zero
    rw [if_pos fun same => empty ⟨zero, same⟩]
    exact ⟨_, _, .done, .failed _⟩
  rename_i live
  split
  · exact ⟨_, _, .done, .failed _⟩
  rename_i small
  split
  · exact ⟨_, _, .done, .failed _⟩
  rename_i same
  split
  · exact ⟨_, _, .done, .failed _⟩
  rename_i cls there
  split
  · exact ⟨_, _, .done, .failed _⟩
  rename_i inside
  -- only the word is left to fail
  have other : s.word token.cls token.slot ≠ .detached token.generation := fun detached =>
    takeable ⟨live, Nat.le_of_not_lt small, not_not.mp same, ⟨cls, there, Nat.lt_of_not_le inside⟩, detached⟩
  rw [Pool.State.local_eq pool.capacity_small (Nat.le_of_not_lt small) numbered]
  exact ⟨_, _, .bind (compareExchange_lost other) .done, .failed _⟩

end Takeover

/-! ### Adoption -/

section Adopt

variable {target : Target} {P : PoolRef target} {B : Body} {token : Pool.Token} {k : Nat} {s s' : Pool.Shared}
  {size align : Nat}

theorem PoolRef.storage_class {i : Nat} {cls : Pool.Class} (there : P.storage.classes[i]? = some cls) :
    ∃ cls', P.geometry.classes[i]? = some cls' ∧ cls = ⟨cls'.bytes, cls'.slots⟩ := by
  obtain ⟨cls', there', rfl⟩ := map_eq_some_iff.mp ((List.getElem?_map ..).symm.trans there)
  exact ⟨cls', there', rfl⟩

/-- The class of a slot has room for the value. -/
structure Roomy (P : PoolRef target) (token : Pool.Token) (size align : Nat) (cls : Pool.Extent.Class) : Prop where
  there : P.geometry.classes[token.cls]? = some cls
  inside : token.slot < cls.slots
  size : size ≤ cls.bytes
  align : align ≤ cls.bytes

/-- The parts of a token that are compared before the slot is looked at -/
structure Expected (P : PoolRef target) (B : Body) (token : Pool.Token) (expected : BitVec 64) (metadata : Pool.Metadata)
    (size align : Nat) : Prop where
  id : token.id = expected.toNat
  kind : token.metadata = some metadata
  layout : B.layout target metadata = some (size, align)
  room : size ≠ 0 → token.generation ≠ 0 ∧ ∃ cls, Roomy P token size align cls

variable {metadata : Pool.Metadata}

theorem adoptId_eq {expected : BitVec 64} (h : Expected P B token expected metadata size align) :
    Pool.adoptId P.storage P.owner k token expected.toNat (B.layout target) = Pool.takeover P.storage P.owner k token := by
  unfold Pool.adoptId
  rw [if_neg (not_not_intro h.id), h.kind, bind_some, h.layout]
  dsimp only
  split
  · rfl
  · rename_i some_
    obtain ⟨live, cls, room⟩ := h.room some_
    have there : P.storage.classes[token.cls]? = some ⟨cls.bytes, cls.slots⟩ :=
      (List.getElem?_map ..).trans (congrArg (Option.map _) room.there)
    have inside := room.inside
    have fits := room.size
    have aligned := room.align
    rw [there]
    dsimp only
    rw [if_neg (by omega)]

theorem adoptId_refused (expected : BitVec 64) (h : ∀ metadata size align, ¬Expected P B token expected metadata size align) :
    ∃ error, (Pool.adoptId P.storage P.owner k token expected.toNat (B.layout target)).Leads s s (.error error) := by
  unfold Pool.adoptId
  split
  · exact ⟨_, .done⟩
  rename_i id
  split
  · exact ⟨_, .done⟩
  rename_i size align layout
  obtain ⟨metadata, is_metadata, layout⟩ := bind_eq_some_iff.mp layout
  split
  · rename_i zero
    exact absurd ⟨not_not.mp id, is_metadata, layout, fun some_ => absurd zero some_⟩ (h metadata size align)
  split
  · exact ⟨_, .done⟩
  rename_i cls there
  obtain ⟨cls', there', rfl⟩ := P.storage_class there
  split
  · exact ⟨_, .done⟩
  · rename_i checks
    dsimp only at checks
    refine absurd ⟨not_not.mp id, is_metadata, layout, fun _ => ⟨by omega, cls', there', ?_, ?_, ?_⟩⟩ (h metadata size align) <;>
      omega

theorem Body.align_power (h : B.layout target metadata = some (size, align)) : Header.isPowerOfTwo align = true := by
  unfold Body.layout at h
  split at h
  · cases h
    exact ReprType.power _
  · split at h
    · cases h
    · cases h
      exact ReprType.power _
  · cases h
  · cases h

theorem pointer_eq {expected : BitVec 64} (h : Expected P B token expected metadata size align) :
    ∃ address, pointer P B token = some (address, metadata) ∧
      ∀ cls, size ≠ 0 → P.geometry.classes[token.cls]? = some cls → address = cls.address P.base token.slot := by
  unfold pointer
  rw [h.kind, bind_eq_bind, bind_some, h.layout]
  by_cases zero : size = 0
  · have align_pos := Pool.Extent.pos_of_isPowerOfTwo (Body.align_power h.layout)
    refine ⟨align, ?_, fun _ some_ => absurd zero some_⟩
    simp [zero, Nat.ne_of_gt align_pos]
  · obtain ⟨-, cls, room⟩ := h.room zero
    have address_pos : cls.address P.base token.slot ≠ 0 := by
      have := P.mapped
      unfold Pool.Extent.Class.address
      omega
    refine ⟨cls.address P.base token.slot, ?_, fun cls' _ there => ?_⟩
    · simp [zero, room.there, address_pos]
    · rw [room.there] at there
      cases there
      rfl

/-- The slot of the token went from detached to the receiver, and no other slot has changed. -/
structure Moved (P : PoolRef target) (token : Pool.Token) (s s' : Pool.Shared) : Prop where
  before : s.word token.cls token.slot = .detached token.generation
  after : Pool.State.local target.participantCapacity token.generation P.owner = some (s'.word token.cls token.slot)
  others : ∀ cls slot, (cls, slot) ≠ (token.cls, token.slot) → s'.word cls slot = s.word cls slot

/-- The value is in the payload of the slot, and the slot in the mapping. -/
structure InBounds (P : PoolRef target) (token : Pool.Token) (address size align : Nat) : Prop where
  slot : ∃ cls, P.geometry.classes[token.cls]? = some cls ∧ token.slot < cls.slots ∧
    cls.address P.base token.slot ≤ address ∧ address + size ≤ cls.address P.base token.slot + cls.bytes ∧
    cls.address P.base token.slot + cls.bytes ≤ P.base + P.geometry.layout.size
  aligned : align ∣ address

/-- What an adoption that succeeds has done -/
structure Adopted (P : PoolRef target) (B : Body) (token : Pool.Token) (s s' : Pool.Shared) (block : Block B) : Prop where
  metadata : token.metadata = some block.metadata
  /-- a block with an allocation has moved the slot -/
  moved : block.allocation.isSome = true → Moved P token s s'
  still : block.allocation = none → s' = s
  /-- a block with bytes has an allocation, and the bytes are in it -/
  placed : ∃ size align, B.layout target block.metadata = some (size, align) ∧
    (0 < size → block.allocation.isSome = true ∧ InBounds P token block.address size align)

theorem takenOver_moved (takeable : Takeable P.storage token s) : Moved P token s (takenOver P.owner k token s) := by
  refine ⟨takeable.detached, ?_, fun cls slot ne => ?_⟩
  · rw [Pool.State.local_eq target.participantCapacity_le takeable.small P.numbered]
    exact congrArg some (by simp [takenOver, Pool.Shared.setWord, Pool.Shared.addAllocation, Pool.Shared.arm])
  · exact Pool.word_setWord_of_ne fun same => ne (by rw [same.1, same.2])

theorem Roomy.inBounds {cls : Pool.Extent.Class} (room : Roomy P token size align cls)
    (power : Header.isPowerOfTwo align = true) :
    InBounds P token (cls.address P.base token.slot) size align := by
  obtain ⟨header, min, count, slots, pos, built⟩ := P.built
  obtain ⟨-, -, laid⟩ := Pool.Extent.build_laid pos built
  have mem := mem_of_getElem? room.there
  obtain ⟨bytes_power, blocks⟩ := laid.aligned cls mem
  have array : (cls.payload, cls.bytes * cls.slots) ∈ Pool.Extent.arrays P.geometry.classes :=
    mem_flatMap.mpr ⟨cls, mem, mem_cons_of_mem _ (mem_singleton.mpr rfl)⟩
  have within : cls.payload + cls.bytes * cls.slots ≤ P.geometry.layout.size := (laid.inside _ array).2
  have last : token.slot * cls.bytes + cls.bytes ≤ cls.bytes * cls.slots := by
    rw [← Nat.succ_mul, Nat.mul_comm]
    exact Nat.mul_le_mul_left _ room.inside
  refine ⟨⟨cls, room.there, room.inside, Nat.le_refl _, Nat.add_le_add_left room.size _, ?_⟩, ?_⟩
  · unfold Pool.Extent.Class.address
    omega
  · have divides : align ∣ cls.bytes := by
      have le := room.align
      rw [beq_iff_eq.mp power, beq_iff_eq.mp bytes_power] at le ⊢
      exact Nat.pow_dvd_pow 2 ((Nat.pow_le_pow_iff_right (by decide)).mp le)
    exact Nat.dvd_trans divides (Nat.dvd_add (Nat.dvd_trans (Pool.Extent.bytes_dvd_align pos built mem) P.aligned) (blocks _))

theorem adoptId_taken {expected : BitVec 64} {held : Held} (h : Expected P B token expected metadata size align)
    (leads : (Pool.takeover P.storage P.owner k token).Leads s s' (.ok held)) :
    ∃ address, (adoptId P k B token expected).Leads s s' (.ok ⟨held, address, metadata⟩) ∧
      ∀ cls, size ≠ 0 → P.geometry.classes[token.cls]? = some cls → address = cls.address P.base token.slot := by
  obtain ⟨address, is_pointer, at_slot⟩ := pointer_eq h
  refine ⟨address, ?_, at_slot⟩
  rw [← adoptId_eq h] at leads
  refine .bind leads ?_
  rw [is_pointer]
  exact .done

theorem adoptId_leads (P : PoolRef target) (k : Nat) (B : Body) (token : Pool.Token) (expected : BitVec 64) (s : Pool.Shared) :
    (∃ error, (adoptId P k B token expected).Leads s s (.error error)) ∨
      ∃ s' block, (adoptId P k B token expected).Leads s s' (.ok block) ∧ Adopted P B token s s' block := by
  by_cases checks : ∃ metadata size align, Expected P B token expected metadata size align
  swap
  · obtain ⟨error, leads⟩ := adoptId_refused (k := k) (s := s) expected fun metadata size align h =>
      checks ⟨metadata, size, align, h⟩
    exact .inl ⟨error, .bind leads .done⟩
  obtain ⟨metadata, size, align, h⟩ := checks
  obtain ⟨s', r, leads, tookOver⟩ := takeover_leads (q := P.owner) P.storage k token s P.numbered
  cases tookOver with
  | failed error =>
    rw [← adoptId_eq h] at leads
    exact .inl ⟨error, .bind leads .done⟩
  | empty zero =>
    obtain ⟨address, adopted, -⟩ := adoptId_taken h leads
    refine .inr ⟨_, _, adopted, h.kind, nofun, fun _ => rfl, size, align, h.layout, fun some_ => ?_⟩
    exact absurd zero (h.room (Nat.ne_of_gt some_)).1
  | taken takeable =>
    obtain ⟨address, adopted, at_slot⟩ := adoptId_taken h leads
    refine .inr ⟨_, _, adopted, h.kind, fun _ => takenOver_moved takeable, nofun, size, align, h.layout, fun some_ => ⟨rfl, ?_⟩⟩
    obtain ⟨-, cls, room⟩ := h.room (Nat.ne_of_gt some_)
    rw [at_slot cls (Nat.ne_of_gt some_) room.there]
    exact room.inBounds (Body.align_power h.layout)

end Adopt

/-! ### Failure and success of an admission -/

section Admission

variable {R : Queue.Route} {H α : Type} {target : Target} {s : Shared R H} {received : Received R} {item : Token H}
  {admission : Pool.Token → Pool.PoolProg (Except Pool.AdoptError α)}

/-- The item of a claim, in its slot -/
def Received.item? (received : Received R) (s : Shared R H) : Option (Token H) := (s.queue.slot received.claim.index).value

theorem admitWith_absent (absent : received.item? s = none) :
    (admitWith received admission : TransferProg R H _).Leads s s (.error (.type, received)) := by
  refine .bind (.focus queueLens _ .read) ?_
  rw [show ((queueLens.get s).slot received.claim.index).value = none from absent]
  exact .done

variable {error : Pool.AdoptError} {value : α} {prog : TransferProg R H (Except (Pool.AdoptError × Received R) α)}

theorem admitWith_failed (present : received.item? s = some item)
    (failed : (admission item.token).Leads s.pool s.pool (.error error)) :
    (admitWith received admission : TransferProg R H _).Leads s s (.error (error, received)) := by
  refine .bind (.focus queueLens _ .read) ?_
  rw [show ((queueLens.get s).slot received.claim.index).value = some item from present]
  exact .bind (.focus poolLens _ failed) .done

/-- The queue after the item of a claim was taken -/
def Shared.afterTake (s : Shared R H) (received : Received R) : Queue.Shared R.toGeometry (Token H) :=
  ((Queue.take received.claim : Queue.QueueProg R.toGeometry (Token H) _).solo (fun _ => 0) 0 s.queue).1

theorem take_leads (present : received.item? s = some item) :
    (Queue.take received.claim : Queue.QueueProg R.toGeometry (Token H) _).Leads s.queue (s.afterTake received) (some item) :=
  ⟨rfl, present⟩

theorem admitWith_ok (present : received.item? s = some item) {pool : Pool.Shared}
    (ok : (admission item.token).Leads s.pool pool (.ok value)) :
    (admitWith received admission : TransferProg R H _).Leads s ⟨s.afterTake received, pool⟩ (.ok (item.header, value)) := by
  refine .bind (.focus queueLens _ .read) ?_
  rw [show ((queueLens.get s).slot received.claim.index).value = some item from present]
  refine .bind (.focus poolLens _ ok) ?_
  have taken := Prog.Leads.focus (s := { s with pool }) queueLens (fun _ => ()) (take_leads present)
  exact .bind taken .done

/-- A failure changes nothing and hands the claim back; whatever is tried with it next runs as if it were the first. -/
def FailsClean (prog : TransferProg R H (Except (Pool.AdoptError × Received R) α)) (received : Received R) (s : Shared R H) :
    Prop :=
  ∀ oracle n error received', (prog.solo oracle n s).2 = .error (error, received') →
    (prog.solo oracle n s).1 = s ∧ received' = received ∧
      ∀ {β : Type} (retry : Received R → TransferProg R H β) (next : α → TransferProg R H β),
        (prog.bind fun | .error failure => retry failure.2 | .ok value => next value).solo oracle n s =
          (retry received).solo oracle n s

/-- A success is of the item in the slot, and has done what an adoption does. -/
def Admits (P : PoolRef target) (B : Body) (prog : TransferProg R H (Except (Pool.AdoptError × Received R) (H × Block B)))
    (received : Received R) (s : Shared R H) : Prop :=
  ∀ oracle n header block, (prog.solo oracle n s).2 = .ok (header, block) →
    ∃ token, received.item? s = some ⟨token, header⟩ ∧ Adopted P B token s.pool (prog.solo oracle n s).1.pool block

theorem FailsClean.of_failed (leads : prog.Leads s s (.error (error, received))) : FailsClean prog received s := by
  intro oracle n error' received' failed
  rw [leads.solo] at failed ⊢
  cases failed
  exact ⟨rfl, rfl, fun retry next => leads.run _ oracle n⟩

theorem FailsClean.of_ok {s' : Shared R H} (leads : prog.Leads s s' (.ok value)) : FailsClean prog received s := by
  intro oracle n error received' failed
  rw [leads.solo] at failed
  cases failed

theorem admitWith_adoptId (P : PoolRef target) (k : Nat) (B : Body) (expected : BitVec 64) (received : Received R)
    (s : Shared R H) :
    FailsClean (admitWith received fun token => adoptId P k B token expected) received s ∧
      Admits P B (admitWith received fun token => adoptId P k B token expected) received s := by
  have none_ok {error : Pool.AdoptError}
      (leads : (admitWith received fun token => adoptId P k B token expected).Leads s s (.error (error, received))) :
      Admits P B (admitWith received fun token => adoptId P k B token expected) received s := by
    intro oracle n header block ok
    rw [leads.solo] at ok
    cases ok
  match present : received.item? s with
  | none => exact ⟨.of_failed (admitWith_absent present), none_ok (admitWith_absent present)⟩
  | some item =>
    rcases adoptId_leads P k B item.token expected s.pool with ⟨error, failed⟩ | ⟨pool, block, ok, adopted⟩
    · have leads : (admitWith received fun token => adoptId P k B token expected).Leads s _ _ := admitWith_failed present failed
      exact ⟨.of_failed leads, none_ok leads⟩
    · have leads : (admitWith received fun token => adoptId P k B token expected).Leads s _ _ := admitWith_ok present ok
      refine ⟨.of_ok leads, fun oracle n header block' returned => ?_⟩
      rw [leads.solo] at returned ⊢
      cases returned
      exact ⟨item.token, present, adopted⟩

theorem release_leads (pool : Pool.Storage) (a : Nat) (al : Pool.Allocation) (s : Pool.Shared) :
    ∃ s', (Pool.release pool a al).Leads s s' () := by
  unfold Pool.release
  split
  · exact ⟨_, .done⟩
  · rename_i loc _
    by_cases same : s.word al.cls al.slot = loc
    · exact ⟨_, .bind (compareExchange_won same) .done⟩
    · exact ⟨s.dropAllocation a, .bind (compareExchange_lost same) ⟨rfl, rfl⟩⟩

theorem dropHeld_leads (P : PoolRef target) (held : Held) (s : Pool.Shared) : ∃ s', (dropHeld P held).Leads s s' () := by
  match held with
  | none => exact ⟨_, .done⟩
  | some (a, al) => exact release_leads P.storage a al s

theorem discard_failsClean (P : PoolRef target) (k : Nat) (received : Received R) (s : Shared R H) :
    FailsClean (discard P k received) received s := by
  match present : received.item? s with
  | none => exact .of_failed (.bind (admitWith_absent present) .done)
  | some item =>
    obtain ⟨pool, r, leads, tookOver⟩ := takeover_leads P.storage k item.token s.pool P.numbered
    match r with
    | .error error =>
      cases tookOver
      exact .of_failed (.bind (admitWith_failed present leads) .done)
    | .ok held =>
      obtain ⟨pool', dropped⟩ := dropHeld_leads P held pool
      exact .of_ok (.bind (admitWith_ok present leads) (.bind (.focus poolLens _ dropped) .done))

/-- **Admission is all or nothing**, for any bytes in the token and any words in the Pool. -/
theorem admission_all_or_nothing (P : PoolRef target) (k : Nat) (B : Body) (received : Received R) :
    (∀ (H : HeaderType) (s : Shared R H.Value),
      FailsClean (adopt P k H B received) received s ∧ Admits P B (adopt P k H B received) received s) ∧
    (∀ (expected : Schema.SchemaKey) (s : Shared R encoded.Value),
      FailsClean (admitEncoded P k B expected received) received s ∧
        Admits P B (admitEncoded P k B expected received) received s) ∧
    ∀ (H : Type) (s : Shared R H), FailsClean (discard P k received) received s :=
  ⟨fun H => admitWith_adoptId P k B (typeId H B) received,
    fun expected => admitWith_adoptId P k B (encodedId expected B) received,
    fun _ => discard_failsClean P k received⟩

end Admission

/-! ### A word with a header -/

/-- `()` as a header -/
def unitHeader : HeaderType := ⟨Unit, ⟨Schema.schemaId "core.unit", 1⟩⟩

/-- `u32` -/
def wordBody : Body := .sized ⟨⟨Schema.schemaId "core.u32", 1⟩, 4, 4, by decide⟩

/-- A Pool of one class in the mapping of its first participant, and in the mapping of the second -/
def senderRef : PoolRef ⟨64, Target.supported_64⟩ where
  id := 7
  geometry := Pool.Extent.oneClass
  base := 4096
  owner := 0
  mapped := by decide
  aligned := by decide
  numbered := by decide
  built := ⟨Pool.Extent.headerLayout, 64, 1, 64, by decide, by decide⟩

def receiverRef : PoolRef ⟨64, Target.supported_64⟩ :=
  { senderRef with base := 8192, owner := 1, mapped := by decide, aligned := by decide, numbered := by decide }

/-- The claim of the first queue slot -/
def wordReceived : Received Queue.pairRoute := ⟨⟨0, 0, true⟩⟩

/-- The token of a word in the first slot, in the first slot of the queue; the slots of the Pool have one state. -/
def wordToken : Pool.Token := poolToken senderRef.id 0 0 1 .sized (typeId unitHeader wordBody)

def wordSent (state : Pool.State) : Shared Queue.pairRoute unitHeader.Value where
  queue :=
    let empty := Queue.Shared.init _ _
    empty.setSlot 0 { empty.slot 0 with value := some ⟨wordToken, ()⟩ }
  pool := { Pool.Shared.init with word := fun _ _ => state }

/-- The word is adopted from a detached slot; from a free one it is not, and nothing changes. -/
theorem admission_all_or_nothing_word :
    (∃ s' block, (adopt receiverRef 0 unitHeader wordBody wordReceived).solo (fun _ => 0) 0 (wordSent (.detached 1)) =
        (s', .ok ((), block)) ∧ Adopted receiverRef wordBody wordToken (wordSent (.detached 1)).pool s'.pool block) ∧
    ∃ error, (adopt receiverRef 0 unitHeader wordBody wordReceived).solo (fun _ => 0) 0 (wordSent (.free 1)) =
      (wordSent (.free 1), .error (error, wordReceived)) := by
  have admission := (admission_all_or_nothing receiverRef 0 wordBody wordReceived).1 unitHeader
  have there : receiverRef.geometry.classes[wordToken.cls]? = some ⟨64, 64, 160, 448⟩ := rfl
  have expected : Expected receiverRef wordBody wordToken (typeId unitHeader wordBody) .sized 4 4 :=
    ⟨rfl, rfl, rfl, fun _ => ⟨by decide, _, there, by decide, by decide, by decide⟩⟩
  constructor
  · have takeable : Takeable receiverRef.storage wordToken (wordSent (.detached 1)).pool :=
      ⟨by decide, by decide, rfl, ⟨_, rfl, by decide⟩, rfl⟩
    obtain ⟨address, adopted, -⟩ := adoptId_taken expected (takeover_taken (k := 0) takeable receiverRef.numbered)
    have leads : (adopt receiverRef 0 unitHeader wordBody wordReceived).Leads (wordSent (.detached 1)) _ _ :=
      admitWith_ok (show wordReceived.item? _ = some ⟨wordToken, ()⟩ from rfl) adopted
    have run := leads.solo (fun _ => 0) 0
    obtain ⟨token, sent, took⟩ := (admission (wordSent (.detached 1))).2 (fun _ => 0) 0 _ _ (congrArg Prod.snd run)
    cases sent
    rw [run] at took
    exact ⟨_, _, run, took⟩
  · rcases adoptId_leads receiverRef 0 wordBody wordToken (typeId unitHeader wordBody) (wordSent (.free 1)).pool with
      failure | success
    · obtain ⟨error, failed⟩ := failure
      have leads : (adopt receiverRef 0 unitHeader wordBody wordReceived).Leads (wordSent (.free 1)) _ _ :=
        admitWith_failed (show wordReceived.item? _ = some ⟨wordToken, ()⟩ from rfl) failed
      have run := leads.solo (fun _ => 0) 0
      obtain ⟨kept, -⟩ := (admission (wordSent (.free 1))).1 (fun _ => 0) 0 _ _ (congrArg Prod.snd run)
      exact ⟨error, Prod.ext kept (congrArg Prod.snd run)⟩
    · obtain ⟨_, block, -, adopted⟩ := success
      obtain ⟨size, align, layout, placed⟩ := adopted.placed
      rw [← Option.some.inj adopted.metadata] at layout
      cases layout
      exact absurd (adopted.moved (placed (by decide)).1).before (by decide)

end Evering.Typed
