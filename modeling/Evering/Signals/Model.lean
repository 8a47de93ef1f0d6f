import Evering.Interleave.Focus
import Evering.Queue.Model

/-!
# Waiting for the other side of a queue

`Signals` adds waiting to the operations of one direction. The sender and the receiver each have a sticky latch, which
the notification of the other side sets and a wait that passes clears. `reserve` waits after `Full` and `claim` after
`Empty`; a permit notifies the receiver when it is sent, cancelled or dropped, and `adopt`, `admit` and `discard` notify
the sender. Calls of the queue, waiting and notifying are separate steps.

A wait is registered and then looks at the latch until it is set; a wait that ends otherwise has failed or was dropped.
The model counts the notifications of each side and keeps the permits and the received values that are in hand.
-/

namespace Evering.Signals

open Interleave Function

inductive Side
  | sender
  | receiver
  deriving DecidableEq

def Side.other : Side → Side
  | sender => receiver
  | receiver => sender

structure Shared (R : Queue.Route) (α : Type) where
  queue : Queue.Shared R.toGeometry α
  latch : Side → Bool
  /-- the side is registered with its wait -/
  waiting : Side → Bool
  /-- notifications by the side -/
  rung : Side → Nat
  permits : List Nat
  received : List (Queue.Claim R.toGeometry)

def Shared.init (R : Queue.Route) (α : Type) : Shared R α where
  queue := .init R.toGeometry α
  latch := fun _ => false
  waiting := fun _ => false
  rung := fun _ => 0
  permits := []
  received := []

inductive Site
  | plain
  | queue (site : Queue.Site)
  | register

abbrev SignalProg (R : Queue.Route) (α β : Type) : Type := Prog (Shared R α) Site β

section Parts

variable {R : Queue.Route} {α β : Type}

def queueLens : Lens (Shared R α) (Queue.Shared R.toGeometry α) where
  get := fun s => s.queue
  put := fun queue s => { s with queue }
  get_put := fun _ _ => rfl
  put_get := fun _ => rfl
  put_put := fun _ _ _ => rfl

def onQueue (prog : Queue.QueueProg R.toGeometry α β) : SignalProg R α β := prog.focus queueLens .queue

def notify (side : Side) : SignalProg R α Unit :=
  .write .plain fun s => { s with
    latch := update s.latch side.other true
    rung := update s.rung side (s.rung side + 1) }

/-- A registered wait; `false` when it fails or is dropped. -/
def poll (side : Side) : Nat → SignalProg R α Bool
  | 0 => do
    .write .plain fun s => { s with waiting := update s.waiting side false }
    return false
  | n + 1 => do
    let passed ← Prog.action .plain fun s =>
      if s.latch side then
        ({ s with
          latch := update s.latch side false
          waiting := update s.waiting side false }, true)
      else (s, false)
    if passed then return true else poll side n

def wait (side : Side) (rounds : Nat) : SignalProg R α Bool := do
  .write .register fun s => { s with waiting := update s.waiting side true }
  poll side rounds

end Parts

/-! ### The sender -/

section Operations

variable (R : Queue.Route) {α : Type}

def localRetryLimit : Nat := 32

inductive ProgressError
  | busy
  | closed
  | wait

/-- The participants at the two ends -/
def Side.owner : Side → Nat
  | sender => 0
  | receiver => 1

/-- `Signals::reserve`. The source loops until an outcome; the model gives up after `fuel` rounds, as when the future is
dropped. -/
def reserve (rounds : Nat) : Nat → Nat → SignalProg R α (Except ProgressError Nat)
  | 0, _ => return .error .wait
  | fuel + 1, retries => do
    match ← onQueue (Queue.reserve R Side.sender.owner) with
    | .ok index =>
      .write .plain fun s => { s with permits := index :: s.permits }
      return .ok index
    | .error .closed => return .error .closed
    | .error .busy => if retries = localRetryLimit - 1 then return .error .busy else reserve rounds fuel (retries + 1)
    | .error .full => if ← wait .sender rounds then reserve rounds fuel 0 else return .error .wait

/-- The `k`-th permit in hand -/
def takePermit (k : Nat) : SignalProg R α (Option Nat) :=
  .action .plain fun s => ({ s with permits := s.permits.eraseIdx k }, s.permits[k]?)

/-- `Permit::send` -/
def send (k : Nat) (value : α) : SignalProg R α Unit := do
  match ← takePermit R k with
  | none => return
  | some index =>
    onQueue (Queue.stage index value)
    onQueue (Queue.publish index value)
    notify .sender

/-- `Permit::cancel`, and the drop of a permit -/
def cancel (k : Nat) : SignalProg R α Unit := do
  match ← takePermit R k with
  | none => return
  | some index =>
    onQueue (Queue.skip index)
    notify .sender

/-! ### The receiver -/

/-- `Rx::claim` -/
def rxClaim : SignalProg R α (Except Queue.ClaimError (Queue.Claim R.toGeometry)) := do
  match ← onQueue (Queue.claim R Side.receiver.owner) with
  | .ok claim => return .ok claim
  | .error .empty => if ← onQueue (Queue.terminal R) then return .error .closed else return .error .empty
  | .error .busy => return .error .busy
  | .error .closed => return .error .closed

/-- `Signals::claim` -/
def claim (rounds : Nat) : Nat → Nat → SignalProg R α (Except ProgressError (Queue.Claim R.toGeometry))
  | 0, _ => return .error .wait
  | fuel + 1, retries => do
    match ← rxClaim R with
    | .ok claim =>
      .write .plain fun s => { s with received := claim :: s.received }
      return .ok claim
    | .error .closed => return .error .closed
    | .error .busy => if retries = localRetryLimit - 1 then return .error .busy else claim rounds fuel (retries + 1)
    | .error .empty => if ← wait .receiver rounds then claim rounds fuel 0 else return .error .wait

/-- The `k`-th received value in hand -/
def takeReceived (k : Nat) : SignalProg R α (Option (Queue.Claim R.toGeometry)) :=
  .action .plain fun s => ({ s with received := s.received.eraseIdx k }, s.received[k]?)

/-- `adopt`, `admit` or `discard`; when the Pool refuses the token, the value stays in hand. -/
def resolve (k : Nat) (refused : Bool) : SignalProg R α Unit := do
  match ← takeReceived R k with
  | none => return
  | some claim =>
    if refused then .write .plain fun s => { s with received := claim :: s.received }
    else
      let _ ← onQueue (Queue.take claim)
      notify .receiver

inductive Op (α : Type)
  | reserve (fuel rounds : Nat)
  | send (k : Nat) (value : α)
  | cancel (k : Nat)
  | claim (fuel rounds : Nat)
  | resolve (k : Nat) (refused : Bool)

def Op.side : Op α → Side
  | reserve _ _ => .sender
  | send _ _ => .sender
  | cancel _ => .sender
  | claim _ _ => .receiver
  | resolve _ _ => .receiver

def Op.code : Op α → SignalProg R α Unit
  | reserve fuel rounds => do let _ ← Signals.reserve R rounds fuel 0
  | send k value => Signals.send R k value
  | cancel k => Signals.cancel R k
  | claim fuel rounds => do let _ ← Signals.claim R rounds fuel 0
  | resolve k refused => Signals.resolve R k refused

/-- One sender and one receiver, each of which makes one call after the other. -/
def machine (α : Type) : Machine (Shared R α) Site (Op α) where
  owner := fun op => op.side.owner
  code := Op.code R
  ready := fun _ _ running op => running.all fun other => decide (other.side ≠ op.side)

end Operations

end Evering.Signals
