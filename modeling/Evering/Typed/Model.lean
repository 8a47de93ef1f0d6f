import Evering.Interleave.Straight
import Evering.Pool.Reserve
import Evering.Queue.Model
import Evering.Schema

/-!
# Typed blocks and their transfer

A block is a value of some type in a slot of a Pool. It is sent as a token beside a header: the token names the Pool, the slot and
its generation, the length of a slice, and an identity that is mixed from the schemas of header and body. The receiver has the
token in place in its queue slot, and takes it from there only once the slot of the Pool is its own.

The state is the queue of one direction and the words of one Pool.
-/

namespace Evering.Typed

open Interleave Schema Header

/-! ### Types -/

/-- A sized type, as `Repr` and the compiler describe it -/
structure ReprType where
  schema : SchemaKey
  size : Nat
  align : Nat
  power : isPowerOfTwo align = true

/-- A type with a `Shape` -/
inductive Body
  | sized (T : ReprType)
  | slice (T : ReprType)

/-- A header of values that are passed on -/
structure HeaderType where
  Value : Type
  schema : SchemaKey

namespace Body

def schema : Body → SchemaKey
  | sized T => T.schema
  | slice T => sliceSchema T.schema

/-- `Shape::layout`: size and alignment. The size of an array is checked against what a layout may have. -/
def layout (target : Target) : Body → Pool.Metadata → Option (Nat × Nat)
  | sized T, .sized => some (T.size, T.align)
  | slice T, .slice len =>
    if T.size ≠ 0 ∧ (2 ^ (target.bits - 1) - T.align) / T.size < len then none else some (T.size * len, T.align)
  | sized _, .slice _ => none
  | slice _, .sized => none

end Body

def typeId (H : HeaderType) (B : Body) : BitVec 64 := typeIdFor H.schema B.schema

def encoded : HeaderType := ⟨Unit, ⟨schemaId "evering.encoded", 2⟩⟩

/-- `Encoded::id` -/
def encodedId (schema : SchemaKey) (B : Body) : BitVec 64 := typeIdFor (composeSchema encoded.schema schema) B.schema

/-! ### Blocks and transfers -/

/-- A Pool in the mapping of one participant; its geometry is built by the one who creates the Pool and by each who opens it. -/
structure PoolRef (target : Target) where
  id : Nat
  geometry : Pool.Extent.Geometry
  base : Nat
  owner : Nat
  mapped : base ≠ 0
  aligned : geometry.layout.align ∣ base
  numbered : owner < target.participantCapacity
  built : ∃ header min count slots, 0 < count ∧ Pool.Extent.build target header min count slots = some geometry

def PoolRef.storage {target : Target} (P : PoolRef target) : Pool.Storage := P.geometry.storage target P.id

/-- `none` is the empty allocation -/
abbrev Held : Type := Option (Nat × Pool.Allocation)

/-- A block with its pointer, which has the length of a slice beside the address -/
structure Block (B : Body) where
  allocation : Held
  address : Nat
  metadata : Pool.Metadata

structure Token (H : Type) where
  token : Pool.Token
  header : H

structure Transfer (H : Type) where
  allocation : Held
  token : Token H

section Combinators

variable {target : Target} {B : Body} {H T : Type}

/-- Kind and length of the metadata in a token -/
def metadataWords : Pool.Metadata → Nat × Nat
  | .sized => (0, 0)
  | .slice len => (1, len)

/-- `PoolToken::new` -/
def poolToken (pool cls slot generation : Nat) (metadata : Pool.Metadata) (id : BitVec 64) : Pool.Token :=
  ⟨pool, id.toNat, cls, slot, generation, (metadataWords metadata).1, (metadataWords metadata).2⟩

def Block.transferWith (P : PoolRef target) (block : Block B) (header : H) (id : BitVec 64) : Transfer H where
  allocation := block.allocation
  token :=
    { token := match block.allocation with
        | some (_, al) => poolToken P.id al.cls al.slot al.generation block.metadata id
        | none => poolToken P.id 0 0 0 block.metadata id
      header }

def Block.transfer (P : PoolRef target) (block : Block B) (H : HeaderType) (header : H.Value) : Transfer H.Value :=
  block.transferWith P header (typeId H B)

def Block.encode (P : PoolRef target) (block : Block B) (schema : SchemaKey) : Transfer encoded.Value :=
  block.transferWith P () (encodedId schema B)

def Token.map (f : H → T) (token : Token H) : Token T := ⟨token.token, f token.header⟩

def Token.update (f : H → H) (token : Token H) : Token H := { token with header := f token.header }

def Transfer.map (f : H → T) (transfer : Transfer H) : Transfer T := ⟨transfer.allocation, transfer.token.map f⟩

def Transfer.update (f : H → H) (transfer : Transfer H) : Transfer H := { transfer with token := transfer.token.update f }

end Combinators

/-! ### Channels -/

structure Shared (R : Queue.Route) (H : Type) where
  queue : Queue.Shared R.toGeometry (Token H)
  pool : Pool.Shared

abbrev TransferProg (R : Queue.Route) (H β : Type) : Type := Prog (Shared R H) Unit β

/-- A claim of an initialised slot -/
structure Received (R : Queue.Route) where
  claim : Queue.Claim R.toGeometry

section Channels

variable {R : Queue.Route} {H α β : Type} {target : Target} {B : Body}

def queueLens : Lens (Shared R H) (Queue.Shared R.toGeometry (Token H)) where
  get := fun s => s.queue
  put := fun queue s => { s with queue }
  get_put := fun _ _ => rfl
  put_get := fun _ => rfl
  put_put := fun _ _ _ => rfl

def poolLens : Lens (Shared R H) Pool.Shared where
  get := fun s => s.pool
  put := fun pool s => { s with pool }
  get_put := fun _ _ => rfl
  put_get := fun _ => rfl
  put_put := fun _ _ _ => rfl

def onQueue (prog : Queue.QueueProg R.toGeometry (Token H) β) : TransferProg R H β := prog.focus queueLens fun _ => ()

def onPool (prog : Pool.PoolProg β) : TransferProg R H β := prog.focus poolLens id

/-- `PoolRef::reserve`, `reserve_slice` and `reserve_bytes`; what is then written into the block is left open. -/
def reserve (P : PoolRef target) (B : Body) (metadata : Pool.Metadata) : Pool.PoolProg (Except Pool.ReserveError (Block B)) :=
  match B.layout target metadata with
  | none => pure (.error .blockTooLarge)
  | some (size, align) => do
    match ← Pool.claim P.storage P.owner size align with
    | .error error => return .error error
    | .ok none => return .ok ⟨none, align, metadata⟩
    | .ok (some a) =>
      match ← (.read () fun s => s.allocation a : Pool.PoolProg (Option Pool.Allocation)) with
      | none => return .error .unavailable
      | some al =>
        let address := (P.geometry.classes[al.cls]?).elim 0 fun cls => cls.address P.base al.slot
        return .ok ⟨some (a, al), address, metadata⟩

/-- `Vacant::assume_init`: the block is shortened to what was written. -/
def Block.assumeInit {T : ReprType} (block : Block (.slice T)) (written : Nat) : Option (Block (.slice T)) :=
  match block.metadata with
  | .slice len => if written > len then none else some { block with metadata := .slice written }
  | .sized => none

def dropHeld (P : PoolRef target) : Held → Pool.PoolProg Unit
  | none => pure ()
  | some (a, al) => Pool.release P.storage a al

/-- `Allocation::detach` -/
def detachHeld (P : PoolRef target) (k : Nat) : Held → Pool.PoolProg Bool
  | none => pure true
  | some (a, al) => Pool.detach P.storage a al k

/-- The pointer of an adopted block, with `NonNull::new`; a value without bytes is nowhere in particular. -/
def pointer (P : PoolRef target) (B : Body) (token : Pool.Token) : Option (Nat × Pool.Metadata) := do
  let metadata ← token.metadata
  let (size, align) ← B.layout target metadata
  let address ← if size = 0 then some align
    else (P.geometry.classes[token.cls]?).map fun cls => cls.address P.base token.slot
  if address = 0 then none else some (address, metadata)

/-- `PoolRef::adopt_id`; the token has the number `k` in the ledger of the Pool. -/
def adoptId (P : PoolRef target) (k : Nat) (B : Body) (token : Pool.Token) (expected : BitVec 64) :
    Pool.PoolProg (Except Pool.AdoptError (Block B)) := do
  match ← Pool.adoptId P.storage P.owner k token expected.toNat (B.layout target) with
  | .error error => return .error error
  | .ok allocation =>
    match pointer P B token with
    | some (address, metadata) => return .ok ⟨allocation, address, metadata⟩
    | none =>
      dropHeld P allocation
      return .error .span

/-- What `adopt`, `admit` and `discard` share: the item is looked at in place, and taken from its slot once `admission` has
succeeded. A claim that was received has an item. -/
def admitWith (received : Received R) (admission : Pool.Token → Pool.PoolProg (Except Pool.AdoptError α)) :
    TransferProg R H (Except (Pool.AdoptError × Received R) (H × α)) := do
  match ← onQueue (Queue.readValue received.claim.index) with
  | none => return .error (.type, received)
  | some item =>
    match ← onPool (admission item.token) with
    | .error error => return .error (error, received)
    | .ok value =>
      let taken ← onQueue (Queue.take received.claim)
      return .ok ((taken.getD item).header, value)

/-- `Received::adopt` -/
def adopt (P : PoolRef target) (k : Nat) (H : HeaderType) (B : Body) (received : Received R) :
    TransferProg R H.Value (Except (Pool.AdoptError × Received R) (H.Value × Block B)) :=
  admitWith received fun token => adoptId P k B token (typeId H B)

/-- `Received::admit` -/
def admitEncoded (P : PoolRef target) (k : Nat) (B : Body) (expected : SchemaKey) (received : Received R) :
    TransferProg R encoded.Value (Except (Pool.AdoptError × Received R) (encoded.Value × Block B)) :=
  admitWith received fun token => adoptId P k B token (encodedId expected B)

/-- `Received::discard` -/
def discard (P : PoolRef target) (k : Nat) (received : Received R) :
    TransferProg R H (Except (Pool.AdoptError × Received R) H) := do
  match ← admitWith received fun token => Pool.takeover P.storage P.owner k token with
  | .error failure => return .error failure
  | .ok (header, allocation) =>
    onPool (dropHeld P allocation)
    return .ok header

/-- `TransferReserved::stage` and `TransferStaged::publish`, in the slot that is reserved; `false` is the failed assertion. -/
def publish (P : PoolRef target) (k index : Nat) (transfer : Transfer H) : TransferProg R H Bool := do
  onQueue (Queue.stage index transfer.token)
  if !(← onPool (detachHeld P k transfer.allocation)) then return false
  onQueue (Queue.publish index transfer.token)
  return true

end Channels

end Evering.Typed
