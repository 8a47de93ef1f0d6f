import Evering.Channel.RoleWord
import Evering.Interleave.Machine

/-!
# Roles of a channel as atomic steps

A channel layout has one word for each of its two roles. A participant acts for a role through a `Role` value,
which names the role, the generation at which it was taken and the participant; the model keeps the `Role`s that
were not dropped. Ports are plain data: anybody may present any port that `Port::from_parts` builds. The log
records, in order, which port was issued, which adoption took the word of a role, and which adoption succeeded.

What `close_with` does with the queues of the channel does not touch a role word; here it is one arbitrary outcome.
-/

namespace Evering.Channel

open Interleave

/-- The part of a port that names a role; `Port::from_parts` checks the bounds. -/
structure Port (T : Target) where
  role : Nat
  generation : Nat
  role_lt : role < 2
  generation_pos : 0 < generation
  generation_le : generation ≤ maxGeneration T

def Port.fromParts (T : Target) (role generation : Nat) : Option (Port T) :=
  if h : role ≥ 2 ∨ generation = 0 ∨ generation > maxGeneration T then none
  else some ⟨role, generation, by omega, by omega, by omega⟩

/-- What a `Role` value says about itself. -/
structure Role where
  index : Nat
  generation : Nat
  owner : Nat
  deriving DecidableEq

inductive Event
  | issued (index generation : Nat)
  /-- an adoption took the word of the role -/
  | claimed (index generation owner : Nat)
  /-- an adoption returned `Ok` -/
  | adopted (index generation owner : Nat)
  deriving DecidableEq

structure Shared (T : Target) where
  roles : Nat → RoleWord T
  /-- the `Role`s that were not dropped -/
  live : List Role
  /-- the creator has begun to store the words -/
  created : Bool
  log : List Event

namespace Shared

variable {T : Target}

/-- After `Duplex::blank`: both words are zero. -/
def init (T : Target) : Shared T where
  roles := fun _ => ⟨0, T.zero_lt⟩
  live := []
  created := false
  log := []

def setRole (s : Shared T) (index : Nat) (word : RoleWord T) : Shared T :=
  { s with roles := Function.update s.roles index word }

def addRole (s : Shared T) (role : Role) : Shared T :=
  { s with live := role :: s.live }

def forget (s : Shared T) (role : Role) : Shared T :=
  { s with live := s.live.filter (· ≠ role) }

def enter (s : Shared T) (event : Event) : Shared T :=
  { s with log := s.log ++ [event] }

end Shared

abbrev RoleProg (T : Target) := Prog (Shared T) Unit

variable {T : Target}

/-! ### Atomic actions -/

def load (index : Nat) : RoleProg T (RoleWord T) :=
  .read () fun s => s.roles index

/-- `compare_exchange`: `none` is success, `some` the observed word. -/
def compareExchange (index : Nat) (expected new : RoleWord T) (effect : Shared T → Shared T) :
    RoleProg T (Option (RoleWord T)) :=
  .action () fun s =>
    if s.roles index = expected then (effect (s.setRole index new), none) else (s, some (s.roles index))

/-- `compare_exchange_weak`: may fail although the word is the expected one. -/
def compareExchangeWeak (index : Nat) (expected new : RoleWord T) (effect : Shared T → Shared T) :
    RoleProg T (Option (RoleWord T)) := do
  let spurious ← Prog.pick
  .action () fun s =>
    if s.roles index = expected ∧ spurious = 0 then (effect (s.setRole index new), none)
    else (s, some (s.roles index))

/-! ### Operations -/

/-- `Channel::creator`; `unwrap` succeeds for the number of a participant. -/
def creator (owner : Nat) : RoleProg T Unit :=
  match RoleWord.new 1 (some owner) false, RoleWord.new 1 none false with
  | some first, some second => do
    .write () fun s => { s.setRole 0 first with created := true }
    .write () fun s => ((s.setRole 1 second).addRole ⟨0, 1, owner⟩).enter (.issued 1 1)
  | _, _ => pure ()

inductive RoleAdmitError
  | stale
  | occupied
  | terminal
  | orphaned
  | open

/-- The load of the issuer's word; an adoption that finds the issuer in its role is successful. -/
def checkIssuer (role : Role) : RoleProg T Bool :=
  .action () fun s =>
    if (s.roles (1 - role.index)).terminal || (s.roles (1 - role.index)).owner.isNone then (s, false)
    else ((s.addRole role).enter (.adopted role.index role.generation role.owner), true)

/-- `Channel::adopt`; before it comes to the words it checks the recorded geometry. -/
def adopt (owner : Nat) (port : Port T) : RoleProg T (Except RoleAdmitError Role) := do
  if port.role ≥ 2 then return .error .open
  if (← Prog.pick) ≠ 0 then return .error .open
  match RoleWord.new port.generation none false with
  | none => return .error .stale
  | some expected =>
    match RoleWord.new port.generation (some owner) false with
    | none => return .error .open
    | some claimed =>
      match ← compareExchange port.role expected claimed
          (·.enter (.claimed port.role port.generation owner)) with
      | some observed =>
        return .error (if observed.terminal then .terminal
          else if observed.generation ≠ port.generation then .stale
          else if observed.owner.isSome then .occupied
          else .open)
      | none =>
        if ← checkIssuer ⟨port.role, port.generation, owner⟩ then
          return .ok ⟨port.role, port.generation, owner⟩
        else
          let _ ← compareExchange port.role claimed ((claimed.nextUnowned false).getD claimed.retired) id
          return .error .orphaned

inductive InviteError
  | terminal
  | occupied
  | retired
  | busy

/-- `Channel::invite`; the answer is the generation of the new port. -/
def invite (role : Role) : RoleProg T (Except InviteError Nat) := do
  let issuer ← load role.index
  if issuer.generation ≠ role.generation ∨ issuer.owner ≠ some role.owner ∨ issuer.terminal = true then
    return .error .terminal
  let raw ← load (1 - role.index)
  if raw.terminal then return .error .terminal
  if raw.owner.isSome then return .error .occupied
  match raw.nextUnowned false with
  | none =>
    match ← compareExchange (1 - role.index) raw raw.retired id with
    | none => return .error .retired
    | some _ => return .error .busy
  | some next =>
    match ← compareExchange (1 - role.index) raw next (·.enter (.issued (1 - role.index) next.generation)) with
    | none => return .ok next.generation
    | some _ => return .error .busy

/-! The retry loops of the source run until a compare-and-swap succeeds or the observed word ends them. The model
bounds the number of rounds by `fuel`, which is free. -/

/-- Ends with the `Role` gone. -/
def dropLoop (role : Role) : Nat → RoleWord T → RoleProg T Unit
  | 0, _ => pure ()
  | fuel + 1, raw =>
    if raw.generation ≠ role.generation ∨ raw.owner ≠ some role.owner then .write () (·.forget role)
    else do
      match ← compareExchangeWeak role.index raw raw.released (·.forget role) with
      | none => pure ()
      | some observed => dropLoop role fuel observed

/-- `Role::drop` -/
def dropRole (role : Role) : RoleProg T Unit := do
  let raw ← load role.index
  let fuel ← Prog.pick
  dropLoop role fuel raw

def recoverLoop (index dead : Nat) : Nat → RoleWord T → RoleProg T Unit
  | 0, _ => pure ()
  | fuel + 1, raw =>
    if raw.owner ≠ some dead then pure ()
    else do
      match ← compareExchangeWeak index raw raw.released id with
      | none => pure ()
      | some observed => recoverLoop index dead fuel observed

def recoverRole (index dead : Nat) : RoleProg T Unit := do
  let raw ← load index
  let fuel ← Prog.pick
  recoverLoop index dead fuel raw

inductive CloseError
  | busy
  | evidence

/-- The first loop of `close_with`: the answer with which it ends, or `none` when the role is now terminal. -/
def closingLoop (role : Role) : Nat → RoleWord T → RoleProg T (Option (Except CloseError Unit))
  | 0, _ => pure (some (.error .busy))
  | fuel + 1, raw =>
    if raw.generation ≠ role.generation ∨ raw.owner ≠ some role.owner then
      pure (some (if raw.terminal ∧ raw.owner.isNone then .ok () else .error .busy))
    else if raw.terminal then pure none
    else
      match RoleWord.new raw.generation raw.owner true with
      | none => pure (some (.error .busy))
      | some closing => do
        match ← compareExchangeWeak role.index raw closing id with
        | none => pure none
        | some observed => closingLoop role fuel observed

/-- `Channel::close_with`, with any outcome of draining and closing the queues. -/
def closeWith (role : Role) : RoleProg T (Except CloseError Unit) := do
  let raw ← load role.index
  let fuel ← Prog.pick
  match ← closingLoop role fuel raw with
  | some answer => return answer
  | none =>
    match ← Prog.pick with
    | 0 => return .error .busy
    | 1 => return .error .evidence
    | _ =>
      match RoleWord.new role.generation (some role.owner) true, RoleWord.new role.generation none true with
      | some owned, some terminal =>
        match ← compareExchange role.index owned terminal id with
        | none => return .ok ()
        | some observed =>
          return if observed.terminal ∧ observed.owner.isNone then .ok () else .error .busy
      | _, _ => return .error .busy

/-! ### The machine -/

inductive Op (T : Target)
  | creator (p : Nat)
  | adopt (p : Nat) (port : Port T)
  | invite (role : Role)
  | dropRole (role : Role)
  | closeWith (role : Role)
  | recoverRole (live dead index : Nat)

namespace Op

def owner : Op T → Nat
  | creator p => p
  | adopt p _ => p
  | invite role => role.owner
  | dropRole role => role.owner
  | closeWith role => role.owner
  | recoverRole live _ _ => live

def role : Op T → Option Role
  | invite role => some role
  | dropRole role => some role
  | closeWith role => some role
  | _ => none

def isCreator : Op T → Bool
  | creator _ => true
  | _ => false

def code : Op T → RoleProg T Unit
  | creator p => Channel.creator p
  | adopt p port => do
    let _ ← Channel.adopt p port
  | invite role => do
    let _ ← Channel.invite role
  | dropRole role => Channel.dropRole role
  | closeWith role => do
    let _ ← Channel.closeWith role
  | recoverRole _ dead index => Channel.recoverRole index dead

end Op

/-- The word of its role names this `Role`. -/
def Owns {T : Target} (s : Shared T) (role : Role) : Prop :=
  (s.roles role.index).generation = role.generation ∧ (s.roles role.index).owner = some role.owner

instance {T : Target} (s : Shared T) (role : Role) : Decidable (Owns s role) :=
  inferInstanceAs (Decidable (_ ∧ _))

/-- The words of one layout: it has one creator, and who acts for a role has a `Role` that was not dropped.
Anybody may be recovered at any time, and numbers of the dead are used again. -/
def machine (T : Target) : Machine (Shared T) Unit (Op T) where
  owner := Op.owner
  code := Op.code
  onCrash := fun p s => { s with live := s.live.filter fun role => role.owner ≠ p }
  ready := fun s _ running op =>
    decide (op.owner < T.participantCapacity) && op.role.all (fun role => decide (role ∈ s.live)) &&
      (!op.isCreator || (!s.created && running.all fun other => !other.isCreator))
  readmits := fun _ _ _ => true

end Evering.Channel
