import Evering.Interleave.Machine
import Evering.Pool.State

/-!
# Pool operations as atomic steps

The shared part is one state word per slot of each size class. Beside the words the model keeps the Rust
values that give a participant the right to act on a word:

- live `Allocation`s, each owned by one participant, `busy` while an operation has it by value;
- the tokens that sit in queue slots, each staged by a producer, queued, or claimed by a consumer. A
  token is `armed` from the detach of its allocation until its takeover or release.

`frees` and `claims` record which generation of which slot was freed and claimed, in order. Every
operation is a program whose atomic actions are the single loads and compare-and-swaps of the source; a
compare-and-swap also moves the Rust values that its success creates or consumes.
-/

namespace Evering.Pool

open Interleave Function

structure Class where
  bytes : Nat
  slots : Nat

/-- The mapped Pool: its identity and recorded geometry. -/
structure Storage where
  target : Target
  id : Nat
  classes : List Class

def Storage.capacity (pool : Storage) : Nat :=
  pool.target.participantCapacity

structure Allocation where
  owner : Nat
  cls : Nat
  slot : Nat
  generation : Nat
  deriving DecidableEq

inductive Metadata
  | sized
  | slice (len : Nat)
  deriving DecidableEq

structure Token where
  pool : Nat
  id : Nat
  cls : Nat
  slot : Nat
  generation : Nat
  metadataKind : Nat
  metadataLen : Nat
  deriving DecidableEq

def Token.metadata (token : Token) : Option Metadata :=
  if token.metadataKind = 0 ∧ token.metadataLen = 0 then some .sized
  else if token.metadataKind = 1 then some (.slice token.metadataLen)
  else none

/-- Where a token is while its bytes are in a queue slot. -/
inductive Place
  | staged (p : Nat)
  | queued
  | claimed (p : Nat) (busy : Bool)
  deriving DecidableEq

structure Shared where
  word : Nat → Nat → State
  allocation : Nat → Option Allocation
  /-- allocations that an operation has by value -/
  busy : Nat → Bool
  nextAllocation : Nat
  token : Nat → Option Token
  place : Nat → Place
  armed : Nat → Bool
  nextToken : Nat
  frees : List (Nat × Nat × Nat)
  claims : List (Nat × Nat × Nat)

/-- After `Storage::init`: every slot free at generation zero. -/
def Shared.init : Shared where
  word := fun _ _ => State.free 0
  allocation := fun _ => none
  busy := fun _ => false
  nextAllocation := 0
  token := fun _ => none
  place := fun _ => .queued
  armed := fun _ => false
  nextToken := 0
  frees := []
  claims := []

namespace Shared

def setWord (s : Shared) (cls slot : Nat) (state : State) : Shared :=
  { s with word := update s.word cls (update (s.word cls) slot state) }

def setBusy (s : Shared) (a : Nat) (busy : Bool) : Shared :=
  { s with busy := update s.busy a busy }

def setPlace (s : Shared) (k : Nat) (place : Place) : Shared :=
  { s with place := update s.place k place }

def addAllocation (s : Shared) (al : Allocation) (busy : Bool) : Shared :=
  { s with
    allocation := update s.allocation s.nextAllocation (some al)
    busy := update s.busy s.nextAllocation busy
    nextAllocation := s.nextAllocation + 1 }

def dropAllocation (s : Shared) (a : Nat) : Shared :=
  { s with allocation := update s.allocation a none }

def addToken (s : Shared) (token : Token) (place : Place) : Shared :=
  { s with
    token := update s.token s.nextToken (some token)
    place := update s.place s.nextToken place
    armed := update s.armed s.nextToken false
    nextToken := s.nextToken + 1 }

def removeToken (s : Shared) (k : Nat) : Shared :=
  { s with token := update s.token k none }

def arm (s : Shared) (k : Nat) (armed : Bool) : Shared :=
  { s with armed := update s.armed k armed }

def logFree (s : Shared) (cls slot generation : Nat) : Shared :=
  { s with frees := s.frees ++ [(cls, slot, generation)] }

def logClaim (s : Shared) (cls slot generation : Nat) : Shared :=
  { s with claims := s.claims ++ [(cls, slot, generation)] }

/-- The allocations of a dead participant for one generation of a slot are void. -/
def voidAllocations (s : Shared) (dead cls slot generation : Nat) : Shared :=
  { s with
    allocation := fun a => (s.allocation a).filter fun al => al ≠ ⟨dead, cls, slot, generation⟩ }

end Shared

abbrev PoolProg := Prog Shared Unit

/-! ### Atomic actions -/

def load (cls slot : Nat) : PoolProg State :=
  .read () fun s => s.word cls slot

/-- `compare_exchange`; on success `effect` moves the Rust values concerned. -/
def compareExchange {α : Type} (cls slot : Nat) (expected new : State)
    (effect : Shared → Shared × α) : PoolProg (Option α) :=
  .action () fun s =>
    if s.word cls slot = expected then
      ((effect (s.setWord cls slot new)).1, some (effect (s.setWord cls slot new)).2)
    else (s, none)

/-- `compare_exchange_weak`: may fail although the word is the expected one. `none` is success,
`some` the observed word. -/
def compareExchangeWeak (cls slot : Nat) (expected new : State) (effect : Shared → Shared) :
    PoolProg (Option State) := do
  let spurious ← Prog.pick
  .action () fun s =>
    if s.word cls slot = expected ∧ spurious = 0 then (effect (s.setWord cls slot new), none)
    else (s, some (s.word cls slot))

/-- An operation takes an allocation of its participant by value. -/
def moveAllocation (p a : Nat) : PoolProg (Option Allocation) :=
  .action () fun s =>
    match s.allocation a with
    | some al => if al.owner = p ∧ s.busy a = false then (s.setBusy a true, some al) else (s, none)
    | none => (s, none)

/-- An operation returns an allocation to its participant. -/
def returnAllocation (a : Nat) : PoolProg Unit :=
  .write () fun s => s.setBusy a false

def dropAllocation (a : Nat) : PoolProg Unit :=
  .write () fun s => s.dropAllocation a

/-- An operation takes a received token of its participant by value. -/
def moveToken (q k : Nat) : PoolProg (Option Token) :=
  .action () fun s =>
    match s.token k with
    | some token =>
      if s.place k = .claimed q false then (s.setPlace k (.claimed q true), some token)
      else (s, none)
    | none => (s, none)

/-- An operation hands a received token back. -/
def returnToken (q k : Nat) : PoolProg Unit :=
  .write () fun s => s.setPlace k (.claimed q false)

def removeToken (k : Nat) : PoolProg Unit :=
  .write () fun s => s.removeToken k

/-! ### `PoolRef::claim` -/

inductive ReserveError
  | blockTooLarge
  | unavailable

/-- One probe of `claim`: the new allocation, if the slot was won. -/
def probe (pool : Storage) (p cls slot : Nat) : PoolProg (Option Nat) := do
  let free ← load cls slot
  let generation := min (free.generation + 1) (2 ^ 32 - 1)
  match State.local pool.capacity generation p with
  | none => pure none
  | some loc =>
    if free.canonical && !free.allocated && decide (free.generation < maxGeneration) then
      compareExchange cls slot free loc fun s =>
        ((s.addAllocation ⟨p, cls, slot, generation⟩ false).logClaim cls slot generation,
          s.nextAllocation)
    else pure none

def probeAll (pool : Storage) (p : Nat) : List (Nat × Nat) → PoolProg (Except ReserveError Nat)
  | [] => pure (.error .unavailable)
  | (cls, slot) :: rest => do
    match ← probe pool p cls slot with
    | some a => pure (.ok a)
    | none => probeAll pool p rest

/-- The slots `claim` probes, in order, from the preferred class up. -/
def probes (pool : Storage) (preferred : Nat) : List (Nat × Nat) :=
  (pool.classes.zipIdx.drop preferred).flatMap fun (cls, index) =>
    let start := index * 0x9e37 % 2 ^ pool.target.bits % cls.slots
    (List.range cls.slots).map fun probe => (index, (start + probe) % cls.slots)

/-- `none` is the empty allocation of a zero-sized layout. -/
def claim (pool : Storage) (p size align : Nat) : PoolProg (Except ReserveError (Option Nat)) :=
  if size = 0 then pure (.ok none)
  else
    match pool.target.checkedNextPowerOfTwo (max size align), pool.classes with
    | some needed, first :: _ =>
      let preferred := (max needed first.bytes).log2 - first.bytes.log2
      if preferred ≥ pool.classes.length then pure (.error .blockTooLarge)
      else do
        let claimed ← probeAll pool p (probes pool preferred)
        pure (claimed.map some)
    | _, _ => pure (.error .blockTooLarge)

/-! ### Release, detach and takeover -/

/-- `PoolRef::release`, run by the drop of a live allocation. -/
def release (pool : Storage) (a : Nat) (al : Allocation) : PoolProg Unit :=
  match State.local pool.capacity al.generation al.owner with
  | none => pure ()
  | some loc => do
    let released ← compareExchange al.cls al.slot loc (State.free al.generation) fun s =>
      ((s.dropAllocation a).logFree al.cls al.slot al.generation, ())
    -- only a debug assertion looks at the result; the value is gone either way
    if released.isNone then dropAllocation a

/-- `Allocation::detach` of a live allocation whose token is staged as `k`. -/
def detach (pool : Storage) (a : Nat) (al : Allocation) (k : Nat) : PoolProg Bool :=
  match State.local pool.capacity al.generation al.owner with
  | none => pure false
  | some loc => do
    let detached ← compareExchange al.cls al.slot loc (State.detached al.generation) fun s =>
      ((s.dropAllocation a).arm k true, ())
    pure detached.isSome

inductive AdoptError
  | pool
  | span
  | type
  | owned

/-- `PoolRef::takeover` of the token `k`; `none` is the empty allocation. -/
def takeover (pool : Storage) (q k : Nat) (token : Token) :
    PoolProg (Except AdoptError (Option (Nat × Allocation))) :=
  if token.generation = 0 then
    if token.pool ≠ pool.id then pure (.error .pool) else pure (.ok none)
  else if token.generation > maxGeneration then pure (.error .owned)
  else if token.pool ≠ pool.id then pure (.error .pool)
  else
    match pool.classes[token.cls]? with
    | none => pure (.error .span)
    | some cls =>
      if token.slot ≥ cls.slots then pure (.error .span)
      else
        match State.local pool.capacity token.generation q with
        | none => pure (.error .owned)
        | some loc => do
          let al : Allocation := ⟨q, token.cls, token.slot, token.generation⟩
          let taken ← compareExchange token.cls token.slot (State.detached token.generation) loc
            fun s => ((s.addAllocation al true).arm k false, s.nextAllocation)
          match taken with
          | some a => pure (.ok (some (a, al)))
          | none => pure (.error .owned)

/-- `PoolRef::adopt_id`; `layout` is the size and alignment `T::layout` gives for the metadata. -/
def adoptId (pool : Storage) (q k : Nat) (token : Token) (expected : Nat)
    (layout : Metadata → Option (Nat × Nat)) :
    PoolProg (Except AdoptError (Option (Nat × Allocation))) :=
  if token.id ≠ expected then pure (.error .type)
  else
    match token.metadata.bind layout with
    | none => pure (.error .type)
    | some (size, align) =>
      if size = 0 then takeover pool q k token
      else
        match pool.classes[token.cls]? with
        | none => pure (.error .span)
        | some cls =>
          if token.generation = 0 ∨ token.slot ≥ cls.slots ∨ size > cls.bytes ∨ align > cls.bytes then
            pure (.error .span)
          else takeover pool q k token

/-! ### `release_token` and `Storage::recover`

The retry loops of the source run until a compare-and-swap succeeds or the observed word ends them. The
model bounds the number of rounds by `fuel`, which the operation that runs the loop is free to choose. -/

def releaseLoop (cls slot generation : Nat) (owner : Option Nat) (effect : Shared → Shared) :
    Nat → State → PoolProg Bool
  | 0, _ => pure false
  | fuel + 1, raw =>
    if !raw.canonical || decide (raw.generation < generation) then pure false
    else if decide (raw.generation > generation) || !raw.allocated then pure true
    else if raw.owner.any fun actual => decide (some actual ≠ owner) then pure false
    else do
      match ← compareExchangeWeak cls slot raw (State.free generation) effect with
      | none => pure true
      | some observed => releaseLoop cls slot generation owner effect fuel observed

/-- What a successful release takes away: the token `k`, and the allocation of the dead owner it was
called for. -/
def releaseEffect (k : Nat) (token : Token) (owner : Option Nat) (s : Shared) : Shared :=
  match owner with
  | some dead => ((s.arm k false).voidAllocations dead token.cls token.slot token.generation).logFree
      token.cls token.slot token.generation
  | none => (s.arm k false).logFree token.cls token.slot token.generation

/-- `release_token` of the token `k`. Whether the Directory still finds the Pool under the
token's identity is left open. -/
def releaseToken (pool : Storage) (k : Nat) (token : Token) (owner : Option Nat) (fuel : Nat) :
    PoolProg Bool :=
  if token.generation = 0 then do
    let found ← Prog.pick
    pure (found != 0)
  else if token.generation > maxGeneration ∨ token.metadata = none then pure false
  else do
    let found ← Prog.pick
    if found = 0 then pure false
    else
      match pool.classes[token.cls]? with
      | none => pure false
      | some cls =>
        if token.slot ≥ cls.slots then pure false
        else do
          let raw ← load token.cls token.slot
          releaseLoop token.cls token.slot token.generation owner (releaseEffect k token owner) fuel raw

def recoverLoop (dead cls slot : Nat) : Nat → State → PoolProg Bool
  | 0, _ => pure false
  | fuel + 1, raw =>
    if !raw.canonical then pure false
    else if !raw.allocated || decide (raw.owner ≠ some dead) then pure true
    else do
      match ← compareExchangeWeak cls slot raw (State.free raw.generation) fun s =>
          (s.voidAllocations dead cls slot raw.generation).logFree cls slot raw.generation with
      | none => pure true
      | some observed => recoverLoop dead cls slot fuel observed

def recoverAll (dead fuel : Nat) : List (Nat × Nat) → PoolProg Bool
  | [] => pure true
  | (cls, slot) :: rest => do
    let raw ← load cls slot
    if ← recoverLoop dead cls slot fuel raw then recoverAll dead fuel rest else pure false

def Storage.slots (pool : Storage) : List (Nat × Nat) :=
  pool.classes.zipIdx.flatMap fun (cls, index) => (List.range cls.slots).map fun slot => (index, slot)

def recover (pool : Storage) (dead fuel : Nat) : PoolProg Bool :=
  recoverAll dead fuel pool.slots

/-! ### Operations of participants -/

/-- What a sender does with a staged transfer. -/
inductive Outcome
  | publish
  | cancel
  | drop

inductive Op
  /-- `reserve` of a layout -/
  | reserve (p size align : Nat)
  /-- drop of a `Vacant`, `Block` or `Transfer` -/
  | drop (p a : Nat)
  /-- stage of a transfer (of the empty allocation for `none`), then its outcome -/
  | send (p : Nat) (a : Option Nat) (id metadataKind metadataLen : Nat) (outcome : Outcome)
  /-- claim of a queued token -/
  | receive (q k : Nat)
  /-- `adopt` and `admit` of a received token -/
  | adopt (q k expected : Nat) (layout : Metadata → Option (Nat × Nat))
  | discard (q k : Nat)
  /-- `release_token` of a token that the removal of its channel has claimed -/
  | remove (q k fuel : Nat)
  /-- `Storage::recover` for a dead participant -/
  | recover (r dead fuel : Nat)
  /-- `release_token` for a token that a dead participant had staged or claimed, by the repair of
  its queue slot -/
  | repair (r dead k fuel : Nat)

namespace Op

def owner : Op → Nat
  | reserve p _ _ => p
  | drop p _ => p
  | send p _ _ _ _ _ => p
  | receive q _ => q
  | adopt q _ _ _ => q
  | discard q _ => q
  | remove q _ _ => q
  | recover r _ _ => r
  | repair r _ _ _ => r

def reaps : Op → Option Nat
  | recover _ dead _ => some dead
  | repair _ dead _ _ => some dead
  | _ => none

end Op

def stage (p : Nat) (token : Token) : PoolProg Nat :=
  .action () fun s => (s.addToken token (.staged p), s.nextToken)

/-- The publication store of the queue slot. -/
def publishToken (k : Nat) : PoolProg Unit :=
  .write () fun s => s.setPlace k .queued

def sendEmpty (pool : Storage) (p id metadataKind metadataLen : Nat) (outcome : Outcome) :
    PoolProg Unit := do
  let k ← stage p ⟨pool.id, id, 0, 0, 0, metadataKind, metadataLen⟩
  match outcome with
  | .publish => publishToken k
  | .cancel => removeToken k
  | .drop => removeToken k

def sendLive (pool : Storage) (p a : Nat) (al : Allocation) (id metadataKind metadataLen : Nat)
    (outcome : Outcome) : PoolProg Unit := do
  let k ← stage p ⟨pool.id, id, al.cls, al.slot, al.generation, metadataKind, metadataLen⟩
  match outcome with
  | .publish =>
    if ← detach pool a al k then publishToken k
    else
      -- the assertion unwinds through the drop of the staged transfer
      removeToken k
      release pool a al
  | .cancel =>
    removeToken k
    returnAllocation a
  | .drop =>
    removeToken k
    release pool a al

def receive (q k : Nat) : PoolProg Unit :=
  .write () fun s =>
    if (s.token k).isSome ∧ s.place k = .queued then s.setPlace k (.claimed q false) else s

def Place.owner : Place → Option Nat
  | staged p => some p
  | queued => none
  | claimed p _ => some p

/-- The token `k`, if a repair for `dead` finds it staged or claimed by that participant. -/
def inspectToken (dead k : Nat) : PoolProg (Option Token) :=
  .read () fun s => if (s.place k).owner = some dead then s.token k else none

def Op.code (pool : Storage) : Op → PoolProg Unit
  | reserve p size align => do
    let _ ← claim pool p size align
  | drop p a => do
    match ← moveAllocation p a with
    | none => pure ()
    | some al => release pool a al
  | send p none id metadataKind metadataLen outcome =>
    sendEmpty pool p id metadataKind metadataLen outcome
  | send p (some a) id metadataKind metadataLen outcome => do
    match ← moveAllocation p a with
    | none => pure ()
    | some al => sendLive pool p a al id metadataKind metadataLen outcome
  | receive q k => Pool.receive q k
  | adopt q k expected layout => do
    match ← moveToken q k with
    | none => pure ()
    | some token =>
      match ← adoptId pool q k token expected layout with
      | .error _ => returnToken q k
      | .ok none => removeToken k
      | .ok (some (a, _)) =>
        removeToken k
        returnAllocation a
  | discard q k => do
    match ← moveToken q k with
    | none => pure ()
    | some token =>
      match ← takeover pool q k token with
      | .error _ => returnToken q k
      | .ok none => removeToken k
      | .ok (some (a, al)) =>
        removeToken k
        release pool a al
  | remove q k fuel => do
    match ← moveToken q k with
    | none => pure ()
    | some token =>
      -- a token that cannot be released stays claimed for ever
      if ← releaseToken pool k token none fuel then removeToken k
  | recover _ dead fuel => do
    let _ ← Pool.recover pool dead fuel
  | repair _ dead k fuel => do
    match ← inspectToken dead k with
    | none => pure ()
    | some token =>
      if ← releaseToken pool k token (some dead) fuel then removeToken k

/-- No word or token names the participant any more and, with `settled`, no recovery of it is running. -/
def forgotten (pool : Storage) (settled : Bool) (s : Shared) (ops : List Op) (p : Nat) : Bool :=
  pool.slots.all (fun (cls, slot) => decide ((s.word cls slot).owner ≠ some p)) &&
  (List.range s.nextToken).all (fun k => (s.token k).isNone || decide ((s.place k).owner ≠ some p)) &&
  (!settled || ops.all fun op => decide (op.reaps ≠ some p))

/-- Participants that run Pool operations, die and are recovered. Recovery is run for dead participants only, and a participant
number is used again when it is forgotten. Nothing in the code waits for the recoveries of a number, as `settled` does. -/
def machine (pool : Storage) (settled : Bool) : Machine Shared Unit Op where
  owner := Op.owner
  code := Op.code pool
  ready := fun _ dead _ op => op.reaps.all dead && decide (op.owner < pool.capacity)
  readmits := forgotten pool settled

end Evering.Pool
