import Evering.Interleave.Focus
import Evering.Channel.Role
import Evering.Directory.Open
import Evering.Directory.Scan
import Evering.Pool.Model
import Evering.Queue.Model

/-!
# A channel and the layouts around it as atomic steps

A session has a directory, whose layouts are Pools and channels, and the heap that their storage is from. The state has
the directory with the membership words of the layouts, the role words and the two queues of one channel, and the words
of the Pools, which are known by their offsets. What a token names is looked up in the directory.

The lifecycle byte of the channel is kept in two parts, one for each direction: no operation loads or sets bits of both
directions at once. The model also keeps the positions whose tokens were adopted, discarded or released.
-/

namespace Evering.Session

open Interleave Function

/-- One channel of a session. -/
structure Setup where
  dir : Directory.Setup
  geometry : Queue.Geometry
  same : geometry.target = dir.target
  /-- identifier and offset of the channel's layout -/
  id : Directory.Id
  offset : Nat
  /-- what the record at an offset says of the layout there, of which the one of a Pool is looked at further -/
  record : Nat → Option (Option Pool.Storage)

namespace Setup

variable (U : Setup)

def target : Target := U.geometry.target

/-- The two directions of `Duplex`, with their fields of the lifecycle byte. -/
abbrev route (d : Fin 2) : Queue.Route where
  toGeometry := U.geometry
  sendField := if d = 0 then 0 else 4
  recvField := if d = 0 then 6 else 2
  apart := by
    by_cases h : d = 0
    · exact .inl (by simp [h])
    · exact .inr (by simp [h])

end Setup

structure Shared (U : Setup) where
  dir : Directory.Shared × Directory.Register
  roles : Channel.Shared U.target
  queue : Fin 2 → Queue.Shared U.geometry Pool.Token
  pool : Nat → Pool.Shared
  /-- positions whose token was adopted, discarded or released -/
  resolved : List (Fin 2 × Nat)

abbrev SessionProg (U : Setup) (β : Type) : Type := Prog (Shared U) Queue.Site β

def Shared.setQueue {U : Setup} (s : Shared U) (d : Fin 2) (queue : Queue.Shared U.geometry Pool.Token) : Shared U :=
  { s with queue := update s.queue d queue }

section SetQueue

variable {U : Setup} {s : Shared U} {d d' : Fin 2} {q q' : Queue.Shared U.geometry Pool.Token}

@[simp] theorem setQueue_here : (s.setQueue d q).queue d = q := update_self ..

theorem setQueue_there (ne : d' ≠ d) : (s.setQueue d q).queue d' = s.queue d' := update_of_ne ne ..

@[simp] theorem setQueue_self : s.setQueue d (s.queue d) = s := by
  simp [Shared.setQueue, update_eq_self]

@[simp] theorem setQueue_idem : (s.setQueue d q').setQueue d q = s.setQueue d q := by
  simp [Shared.setQueue, update_idem]

end SetQueue

/-! ### Parts of the state -/

section Parts

variable {U : Setup} {β : Type}

def dirLens : Lens (Shared U) (Directory.Shared × Directory.Register) where
  get := fun s => s.dir
  put := fun dir s => { s with dir }
  get_put := fun _ _ => rfl
  put_get := fun _ => rfl
  put_put := fun _ _ _ => rfl

def roleLens : Lens (Shared U) (Channel.Shared U.target) where
  get := fun s => s.roles
  put := fun roles s => { s with roles }
  get_put := fun _ _ => rfl
  put_get := fun _ => rfl
  put_put := fun _ _ _ => rfl

def queueLens (d : Fin 2) : Lens (Shared U) (Queue.Shared U.geometry Pool.Token) where
  get := fun s => s.queue d
  put := fun q s => s.setQueue d q
  get_put := fun _ _ => setQueue_here
  put_get := fun _ => setQueue_self
  put_put := fun _ _ _ => setQueue_idem

def poolLens (offset : Nat) : Lens (Shared U) Pool.Shared where
  get := fun s => s.pool offset
  put := fun p s => { s with pool := update s.pool offset p }
  get_put := fun _ _ => update_self ..
  put_get := fun s => by simp [update_eq_self]
  put_put := fun _ _ _ => by simp [update_idem]

def onOpen (prog : Directory.OpenProg β) : SessionProg U β := prog.focus dirLens fun _ => .plain

def onDir (prog : Directory.DirProg β) : SessionProg U β := onOpen (Directory.tracked U.dir prog)

def onRole (prog : Channel.RoleProg U.target β) : SessionProg U β := prog.focus roleLens fun _ => .plain

def onQueue (d : Fin 2) (prog : Queue.QueueProg U.geometry Pool.Token β) : SessionProg U β :=
  prog.focus (queueLens d) id

def onPool (offset : Nat) (prog : Pool.PoolProg β) : SessionProg U β := prog.focus (poolLens offset) fun _ => .plain

end Parts

/-! ### Releasing a token -/

section Tokens

variable (U : Setup)

/-- `inspect_layout::<Storage>` -/
def inspectPool (offset : Nat) : SessionProg U (Option Pool.Storage) := do
  return (← onDir (Directory.inspectLayout U.dir U.record Option.isSome offset)).join

/-- What a release that frees the slot records: an allocation of the dead owner it is called for is void. -/
def releaseEffect (owner : Option Nat) (token : Pool.Token) (t : Pool.Shared) : Pool.Shared :=
  match owner with
  | some dead => (t.voidAllocations dead token.cls token.slot token.generation).logFree token.cls token.slot token.generation
  | none => t.logFree token.cls token.slot token.generation

/-- `release_token`; `rounds` bounds the tries of its compare-and-swap. -/
def releaseToken (owner : Option Nat) (token : Pool.Token) (rounds : Nat) : SessionProg U Bool := do
  if token.generation = 0 then return (← inspectPool U token.pool).isSome
  else if token.generation > Pool.maxGeneration ∨ token.metadata = none then return false
  else
    match ← inspectPool U token.pool with
    | none => return false
    | some storage =>
      match storage.classes[token.cls]? with
      | none => return false
      | some cls =>
        if token.slot ≥ cls.slots then return false
        else do
          let raw ← onPool token.pool (Pool.load token.cls token.slot)
          onPool token.pool (Pool.releaseLoop token.cls token.slot token.generation owner (releaseEffect owner token)
            rounds raw)

/-- The position of a claim is resolved. -/
def resolve (d : Fin 2) (index : Nat) : SessionProg U Unit :=
  .write .plain fun s => { s with resolved := (d, (s.queue d).trail.turnPos index) :: s.resolved }

end Tokens

/-! ### Closing and removing -/

section Removal

variable (U : Setup)

/-- `CloseError` and `RemoveError` -/
inductive RemoveError
  | busy
  | evidence
  deriving DecidableEq

/-- The loop of `close_with` over one direction; the model bounds the tokens it drains by `fuel`. -/
def drain (owner rounds : Nat) (d : Fin 2) : Nat → SessionProg U (Except RemoveError Unit)
  | 0 => return .error .busy
  | fuel + 1 => do
    match ← onQueue d (Queue.claim (U.route d) owner) with
    | .ok claim =>
      let item ← onQueue d (Queue.readValue claim.index)
      let released ← match item with
        | none => pure false
        | some token => releaseToken U none token rounds
      -- a claim whose token is not released is forgotten
      if !released then return .error .evidence
      resolve U d claim.index
      let _ ← onQueue d (Queue.take (R := U.route d) claim)
      drain owner rounds d fuel
    | .error .empty => return .ok ()
    | .error _ => return .error .busy

/-- What `close_with` does with one direction before it closes the receiving sides. -/
def drainClosed (owner rounds : Nat) (d : Fin 2) : SessionProg U (Except RemoveError Unit) := do
  match ← drain U owner rounds d rounds with
  | .error error => return .error error
  | .ok () =>
    if !(← onQueue d (Queue.sendClosed (U.route d))) then return .error .busy
    if !(← onQueue d (Queue.isEmpty (U.route d))) then return .error .busy
    return .ok ()

def closeReceiving (d : Fin 2) : SessionProg U (Except RemoveError Unit) := do
  onQueue d (Queue.closeRecv (U.route d))
  if !(← onQueue d (Queue.recvClosed (U.route d))) then return .error .busy
  return .ok ()

/-- The part of `close_with` on the queues. -/
def closeQueues (owner rounds : Nat) : SessionProg U (Except RemoveError Unit) := do
  onQueue 0 (Queue.closeSend (U.route 0))
  onQueue 1 (Queue.closeSend (U.route 1))
  match ← drainClosed U owner rounds 0 with
  | .error error => return .error error
  | .ok () =>
    match ← drainClosed U owner rounds 1 with
    | .error error => return .error error
    | .ok () =>
      match ← closeReceiving U 0 with
      | .error error => return .error error
      | .ok () => closeReceiving U 1

/-- The last compare-and-swap of `close_with`. -/
def giveUpRole {T : Target} (role : Channel.Role) : Channel.RoleProg T Bool :=
  match Channel.RoleWord.new role.generation (some role.owner) true, Channel.RoleWord.new role.generation none true with
  | some owned, some terminal => do
    match ← Channel.compareExchange role.index owned terminal id with
    | none => return true
    | some observed => return observed.terminal && observed.owner.isNone
  | _, _ => return false

/-- `Channel::close_with` -/
def closeWith (role : Channel.Role) (rounds : Nat) : SessionProg U (Except RemoveError Unit) := do
  let raw ← onRole (Channel.load role.index)
  match ← onRole (Channel.closingLoop role rounds raw) with
  | some (.ok ()) => return .ok ()
  | some (.error _) => return .error .busy
  | none =>
    match ← closeQueues U role.owner rounds with
    | .error error => return .error error
    | .ok () => if ← onRole (giveUpRole role) then return .ok () else return .error .busy

/-- `matches` of the channel's identifier and mapping -/
def matchesLayout : SessionProg U Bool := do
  match ← onDir (Directory.offset U.dir U.id) with
  | .error _ => return false
  | .ok offset => return decide (U.offset = offset)

/-- What `Session::remove` does with a channel once `close_with` has succeeded. -/
def removeClosed (role : Channel.Role) : SessionProg U (Except RemoveError Unit) := do
  -- `peer_is_unowned`
  if (← onRole (Channel.load (1 - role.index))).owner.isSome then return .error .busy
  -- `into_closed_mapped`
  let own ← onRole (Channel.load role.index)
  if own.owner.isSome || !own.terminal then return .error .busy
  match ← onDir (Directory.remove U.dir role.owner U.dir.region U.id U.offset true true) with
  | .error _ => return .error .busy
  | .ok () => return .ok ()

/-- `Session::remove` of the channel with this role; `unique` says whether the caller has the only handle. -/
def remove (role : Channel.Role) (unique : Bool) (rounds : Nat) : SessionProg U (Except RemoveError Unit) := do
  if !unique then return .error .busy
  if !(← matchesLayout U) then return .error .busy
  match ← closeWith U role rounds with
  | .error error => return .error error
  | .ok () => removeClosed U role

end Removal

/-! ### A small session -/

def pairPool : Pool.Storage := ⟨⟨64, Target.supported_64⟩, 100, [⟨64, 1⟩]⟩

/-- A channel with two slots in each direction at offset 200, beside a Pool at offset 100. -/
def pairSetup : Setup where
  dir := ⟨⟨64, Target.supported_64⟩, 1, false, true, true⟩
  geometry := Queue.pairRoute.toGeometry
  same := rfl
  id := ⟨1, 0, 1, 1⟩
  offset := 200
  record := fun offset => if offset = 100 then some (some pairPool) else if offset = 200 then some none else none

/-- Both layouts are published, participant 0 has the channel, and the slot of the Pool is detached in generation 3. -/
def pairStart : Shared pairSetup where
  dir := ({ Directory.Shared.init with
    dir := { Directory.Dir.init with
      entry := fun k e => if k = 0 ∧ e = 0 then ⟨⟨1, .published⟩, 100⟩
        else if k = 0 ∧ e = 1 then ⟨⟨1, .published⟩, 200⟩ else .vacant }
    members := fun offset => if offset = 200 then 1 else 0 }, .init)
  roles := ((Channel.creator 0).solo (fun _ => 0) 0 (.init _)).1
  queue := fun _ => .init _ _
  pool := fun _ => { Pool.Shared.init with word := fun _ _ => .detached 3 }
  resolved := []

def pairToken : Pool.Token := ⟨100, 0, 0, 0, 3, 0, 0⟩

end Evering.Session
