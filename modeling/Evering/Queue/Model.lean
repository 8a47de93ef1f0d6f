import Evering.Interleave.Machine
import Evering.Cursor.Laps
import Evering.Queue.Control

/-!
# One direction of a channel as atomic steps

The shared part of a queue is its two cursors, the lifecycle byte and, per slot, a turn, a control word and
the value. Every operation is a program whose atomic actions are the single loads, stores and
compare-and-swaps of the source, in the order of the source.

Beside the words the model keeps a trail, which no program reads: how many positions head and tail have
passed since the start, which position each turn stands for, what became of each position, and which
positions were claimed, taken, recycled and released.
-/

namespace Evering.Queue

open Interleave Cursor Function

/-- What `Duplex::geometry` accepts for a capacity: both directions fit in an object. -/
structure Geometry where
  target : Target
  capacity : Nat
  /-- `size_of::<Slot<T>>()` -/
  slotBytes : Nat
  capacity_pos : 0 < capacity
  slot_bytes : target.bits / 8 + 2 ≤ slotBytes
  fits : 2 * capacity * slotBytes < 2 ^ (target.bits - 1)

namespace Geometry

variable (G : Geometry)

def bits : Nat := G.target.bits

def oneLap : Nat := nextPowerOfTwo (G.capacity + 1)

abbrev Word : Type := BitVec G.bits

def lapWord : G.Word := BitVec.ofNat G.bits G.oneLap

/-- `cursor & (one_lap - 1)` -/
def index (cursor : G.Word) : Nat := (cursor &&& BitVec.ofNat G.bits (G.oneLap - 1)).toNat

/-- The cursor `reserve` and `claim` store after `cursor`. -/
def next (cursor : G.Word) : G.Word :=
  if G.index cursor + 1 < G.capacity then cursor + 1
  else (cursor &&& ~~~(BitVec.ofNat G.bits (G.oneLap - 1))) + G.lapWord

/-- `1usize << (usize::BITS - 1)` -/
def half : Nat := 2 ^ (G.bits - 1)

def participants : Nat := G.target.participantCapacity

theorem participants_le : G.participants ≤ 63 := G.target.participantCapacity_le

end Geometry

/-- A direction of the channel: its geometry and its two fields of the lifecycle byte. -/
structure Route extends Geometry where
  sendField : Nat
  recvField : Nat
  apart : sendField + 2 ≤ recvField ∨ recvField + 2 ≤ sendField

def pairRoute : Route where
  target := ⟨64, Target.supported_64⟩
  capacity := 2
  slotBytes := 16
  capacity_pos := by decide
  slot_bytes := by decide
  fits := by decide
  sendField := 0
  recvField := 2
  apart := by decide

def singleRoute : Route where
  target := ⟨64, Target.supported_64⟩
  capacity := 1
  slotBytes := 16
  capacity_pos := by decide
  slot_bytes := by decide
  fits := by decide
  sendField := 0
  recvField := 2
  apart := by decide

structure Slot (G : Geometry) (α : Type) where
  turn : G.Word
  control : Nat
  value : Option α

/-- What became of a position. -/
inductive Fate (α : Type)
  | unreserved
  | reserved
  | published (value : α)
  | skipped
  /-- thrown away by a repair before head came to it -/
  | lost
  deriving DecidableEq

def Fate.isPublished {α : Type} : Fate α → Bool
  | published _ => true
  | _ => false

/-- The producer, or a repair for it, has published or skipped the position. -/
def Fate.isSettled {α : Type} : Fate α → Bool
  | published _ => true
  | skipped => true
  | _ => false

structure Trail (α : Type) where
  /-- positions that head and tail have passed -/
  headPos : Nat
  tailPos : Nat
  /-- the position a slot's turn stands for -/
  turnPos : Nat → Nat
  fate : Nat → Fate α
  /-- the position for which a slot's value was written -/
  content : Nat → Nat
  /-- positions whose claim was successful, in order -/
  claims : List Nat
  /-- positions whose value was taken, with what was read -/
  takes : List (Nat × Option α)
  recycled : Nat → Bool
  /-- positions whose value a repair handed to its release callback -/
  released : List Nat

structure Shared (G : Geometry) (α : Type) where
  head : G.Word
  tail : G.Word
  lifecycle : Nat
  slot : Nat → Slot G α
  trail : Trail α

def Shared.init (G : Geometry) (α : Type) : Shared G α where
  head := 0
  tail := 0
  lifecycle := 0
  slot := fun i => { turn := BitVec.ofNat G.bits i, control := empty, value := none }
  trail :=
    { headPos := 0, tailPos := 0, turnPos := id, fate := fun _ => .unreserved, content := id, claims := []
      takes := [], recycled := fun _ => false, released := [] }

namespace Trail

variable {α : Type} (tr : Trail α)

def setFate (i : Nat) (fate : Fate α) : Trail α :=
  { tr with fate := update tr.fate (tr.turnPos i) fate }

/-- Tail passes the position of slot `i`, which is now reserved. -/
def reserve (i : Nat) : Trail α :=
  { tr.setFate i .reserved with tailPos := tr.tailPos + 1 }

/-- Head passes the position of slot `i`. -/
def claim (i : Nat) (initialized : Bool) : Trail α :=
  { tr with
    headPos := tr.headPos + 1
    claims := tr.claims ++ if initialized then [tr.turnPos i] else [] }

def writeValue (i : Nat) : Trail α :=
  { tr with content := update tr.content i (tr.turnPos i) }

def take (i : Nat) (value : Option α) : Trail α :=
  { tr with takes := tr.takes ++ [(tr.turnPos i, value)] }

def advanceTurn (capacity i : Nat) : Trail α :=
  { tr with turnPos := update tr.turnPos i (tr.turnPos i + capacity) }

/-- Slot `i` is free again after its turn has moved on. -/
def recycle (capacity i : Nat) : Trail α :=
  { tr with recycled := update tr.recycled (tr.turnPos i - capacity) true }

def release (i : Nat) : Trail α :=
  { tr with released := tr.released ++ [tr.content i] }

/-- A repair frees slot `i`: its last position is recycled, or its present one is lost. -/
def discard (capacity i : Nat) : Trail α :=
  if tr.tailPos ≤ tr.turnPos i then tr.recycle capacity i else tr.setFate i .lost

end Trail

/-- Places of the code at which a run may be restricted. -/
inductive Site
  | plain
  /-- the load of head by which a repair judges a consumer's slot -/
  | judge (index : Nat)
  /-- the compare-and-swap by which a claim takes a slot -/
  | seize

abbrev QueueProg (G : Geometry) (α β : Type) : Type := Prog (Shared G α) Site β

/-! ### Atomic actions -/

section Actions

variable {G : Geometry} {α : Type}

def Shared.setSlot (s : Shared G α) (i : Nat) (slot : Slot G α) : Shared G α :=
  { s with slot := update s.slot i slot }

def loadHeadAt (site : Site) : QueueProg G α G.Word := .read site fun s => s.head

def loadHead : QueueProg G α G.Word := loadHeadAt .plain

def loadTail : QueueProg G α G.Word := .read .plain fun s => s.tail

def loadTurn (i : Nat) : QueueProg G α G.Word := .read .plain fun s => (s.slot i).turn

def loadControl (i : Nat) : QueueProg G α Nat := .read .plain fun s => (s.slot i).control

def readValue (i : Nat) : QueueProg G α (Option α) := .read .plain fun s => (s.slot i).value

/-- A store to a control word that settles what the trail says of the slot. -/
def settleControl (i control : Nat) (mark : Trail α → Trail α) : QueueProg G α Unit :=
  .write .plain fun s => { s.setSlot i { s.slot i with control } with trail := mark s.trail }

def storeControl (i control : Nat) : QueueProg G α Unit := settleControl i control id

def storeTurn (i : Nat) (turn : G.Word) : QueueProg G α Unit :=
  .write .plain fun s =>
    { s.setSlot i { s.slot i with turn } with trail := s.trail.advanceTurn G.capacity i }

def writeValue (i : Nat) (value : α) : QueueProg G α Unit :=
  .write .plain fun s =>
    { s.setSlot i { s.slot i with value := some value } with trail := s.trail.writeValue i }

def compareExchangeControlAt (site : Site) (i expected new : Nat) : QueueProg G α Bool :=
  .action site fun s =>
    if (s.slot i).control = expected then (s.setSlot i { s.slot i with control := new }, true)
    else (s, false)

def compareExchangeControl (i expected new : Nat) : QueueProg G α Bool :=
  compareExchangeControlAt .plain i expected new

def compareExchangeTail (i : Nat) (expected new : G.Word) : QueueProg G α Bool :=
  .action .plain fun s =>
    if s.tail = expected then ({ s with tail := new, trail := s.trail.reserve i }, true) else (s, false)

def compareExchangeHead (i : Nat) (initialized : Bool) (expected new : G.Word) : QueueProg G α Bool :=
  .action .plain fun s =>
    if s.head = expected then ({ s with head := new, trail := s.trail.claim i initialized }, true)
    else (s, false)

def fieldState (field : Nat) : QueueProg G α Nat :=
  .read .plain fun s => (s.lifecycle >>> field) &&& 0b11

def fetchOr (bits : Nat) : QueueProg G α Unit :=
  .write .plain fun s => { s with lifecycle := s.lifecycle ||| bits }

end Actions

/-! ### Producers -/

section Operations

variable {α : Type} (R : Route)

inductive ReserveError
  | full
  | busy
  | closed

def state : QueueProg R.toGeometry α Nat := do
  let send ← fieldState R.sendField
  let recv ← fieldState R.recvField
  pure (send ||| recv)

/-- `Queue::reserve`; a `Reserved` is the index of its slot. -/
def reserve (owner : Nat) : QueueProg R.toGeometry α (Except ReserveError Nat) := do
  if (← state R) ≠ 0 then return .error .closed
  let tail ← loadTail
  let index := R.index tail
  if !(← compareExchangeControl index empty (owned producer false owner)) then
    let head ← loadHead
    return if head + R.lapWord = tail then .error .full else .error .busy
  if (← loadTurn index) ≠ tail then
    storeControl index empty
    return .error .busy
  if (← loadTail) ≠ tail then
    storeControl index empty
    return .error .busy
  if (← state R) ≠ 0 then
    storeControl index empty
    return .error .closed
  if !(← compareExchangeTail index tail (R.next tail)) then
    storeControl index empty
    return .error .busy
  return .ok index

variable {R}

/-- `Reserved::stage` -/
def stage (index : Nat) (value : α) : QueueProg R.toGeometry α Unit := do
  writeValue index value
  let control ← loadControl index
  storeControl index (owned producer true (source control - 1))

def skip (index : Nat) : QueueProg R.toGeometry α Unit :=
  settleControl index available fun tr => tr.setFate index .skipped

/-- `Staged::publish` of what `stage` wrote. -/
def publish (index : Nat) (value : α) : QueueProg R.toGeometry α Unit :=
  settleControl index (available ||| completeBit) fun tr => tr.setFate index (.published value)

/-- `Staged::cancel`, and the drop of a `Staged`, which reads the value to drop it. -/
def cancel (index : Nat) : QueueProg R.toGeometry α (Option α) := do
  let value ← readValue index
  skip index
  pure value

/-! ### Consumers -/

inductive ClaimError
  | empty
  | busy
  | closed

structure Claim (G : Geometry) where
  index : Nat
  nextTurn : G.Word
  initialized : Bool

def recycle (claim : Claim R.toGeometry) : QueueProg R.toGeometry α Unit := do
  storeTurn claim.index claim.nextTurn
  settleControl claim.index empty fun tr => tr.recycle R.capacity claim.index

variable (R) in
/-- `Queue::claim` -/
def claim (owner : Nat) : QueueProg R.toGeometry α (Except ClaimError (Claim R.toGeometry)) := do
  if (← fieldState R.recvField) ≠ 0 then return .error .closed
  let head ← loadHead
  let index := R.index head
  let control ← loadControl index
  if control ≠ available ∧ control ≠ available ||| completeBit then
    let tail ← loadTail
    return if tail = head then .error .empty else .error .busy
  let initialized := decide (control &&& completeBit ≠ 0)
  if !(← compareExchangeControlAt .seize index control (owned consumer initialized owner)) then
    return .error .busy
  if (← loadTurn index) ≠ head then
    storeControl index control
    return .error .busy
  if (← loadHead) ≠ head then
    storeControl index control
    return .error .busy
  if !(← compareExchangeHead index initialized head (R.next head)) then
    storeControl index control
    return .error .busy
  let claim : Claim R.toGeometry := { index, nextTurn := head + R.lapWord, initialized }
  if !initialized then
    recycle claim
    return .error .busy
  return .ok claim

/-- `Claim::take` -/
def take (claim : Claim R.toGeometry) : QueueProg R.toGeometry α (Option α) := do
  let value ← .action .plain fun s =>
    ({ s with trail := s.trail.take claim.index (s.slot claim.index).value }, (s.slot claim.index).value)
  recycle claim
  pure value

/-- Drop of a `Claim`, which reads the value to drop it. -/
def dropClaim (claim : Claim R.toGeometry) : QueueProg R.toGeometry α Unit := do
  if claim.initialized then
    let _ ← readValue claim.index
    recycle claim
  else recycle claim

/-! ### Closing -/

variable (R)

/-- Is no slot in the hands of a side? -/
def noneOwned (ownedBase : Nat) : List Nat → QueueProg R.toGeometry α Bool
  | [] => pure true
  | i :: rest => do
    let control ← loadControl i
    if base control ≠ ownedBase then noneOwned ownedBase rest else pure false

def finishField (field ownedBase : Nat) : QueueProg R.toGeometry α Nat := do
  let state ← fieldState field
  if state = 1 then
    if ← noneOwned R ownedBase (List.range R.capacity) then
      fetchOr (2 <<< field)
      return 3
    else return state
  else return state

def closeSend : QueueProg R.toGeometry α Unit := fetchOr (1 <<< R.sendField)

def closeRecv : QueueProg R.toGeometry α Unit := fetchOr (1 <<< R.recvField)

def sendClosed : QueueProg R.toGeometry α Bool := do
  let state ← finishField R R.sendField producer
  pure (decide (state = 3))

def recvClosed : QueueProg R.toGeometry α Bool := do
  let state ← finishField R R.recvField consumer
  pure (decide (state = 3))

def isEmpty : QueueProg R.toGeometry α Bool := do
  let head ← loadHead
  let tail ← loadTail
  pure (decide (tail = head))

def terminal : QueueProg R.toGeometry α Bool := do
  if ← recvClosed R then return true
  if ← sendClosed R then isEmpty R else pure false

end Operations

/-! ### Repair -/

section Repair

variable {α : Type} (R : Route)

inductive Repair
  | none
  | recovered
  | busy (p : Nat)
  | corrupted
  deriving DecidableEq

/-- The word a repair of `dead` by `live` swaps in for `control`, or why it stays away. -/
def assign (dead live control : Nat) : Except Repair Nat :=
  if source control = dead + 1 ∧ reaper control = live + 1 then .ok control
  else if reaper control = dead + 1 then .ok (clearReaper control ||| ((live + 1) <<< reaperShift))
  else if source control = dead + 1 ∧ reaper control = 0 then
    .ok (control ||| ((live + 1) <<< reaperShift))
  else if source control = dead + 1 then .error (.busy (reaper control - 1))
  else .error .none

/-- The swap is left out when the repairer has the word already. -/
def swapControl (index control next : Nat) : QueueProg R.toGeometry α Bool :=
  if next ≠ control then compareExchangeControl index control next else pure true

/-- The callback gets a complete value and the participant that had staged or claimed it. -/
def releaseValue (index control : Nat) (release : α → Nat → Bool) : QueueProg R.toGeometry α Bool :=
  if control &&& completeBit ≠ 0 then
    .action .plain fun s =>
      ({ s with trail := s.trail.release index },
        ((s.slot index).value.map (release · (source control - 1))).getD false)
  else pure true

/-- The turn moves on if it is behind head. -/
def advanceTurn (index : Nat) (turn head : R.Word) : QueueProg R.toGeometry α Unit :=
  let distance := head - turn
  if distance ≠ 0 ∧ distance.toNat < R.half then storeTurn index (turn + R.lapWord) else pure ()

/-- The `PRODUCER` branch of `repair_slot_with`. -/
def repairProducer (index control : Nat) (release : α → Nat → Bool) : QueueProg R.toGeometry α Repair := do
  let turn ← loadTurn index
  let tail ← loadTail
  let distance := tail - turn
  if distance = 0 then
    if control &&& completeBit ≠ 0 then return .corrupted
    storeControl index empty
    return .recovered
  else if distance.toNat < R.half then
    if !(← releaseValue R index control release) then return .corrupted
    settleControl index available fun tr => tr.setFate index .skipped
    return .recovered
  else return .corrupted

/-- The `CONSUMER` branch of `repair_slot_with`. -/
def repairConsumer (index control : Nat) (release : α → Nat → Bool) : QueueProg R.toGeometry α Repair := do
  let turn ← loadTurn index
  let head ← loadHeadAt (.judge index)
  if head = turn then
    storeControl index (available ||| (control &&& completeBit))
    return .recovered
  if !(← releaseValue R index control release) then return .corrupted
  advanceTurn R index turn head
  settleControl index empty fun tr => tr.discard R.capacity index
  return .recovered

def repairSlotWith (index dead live : Nat) (release : α → Nat → Bool) :
    QueueProg R.toGeometry α Repair := do
  if dead ≥ R.participants ∨ live ≥ R.participants then return .corrupted
  if index ≥ R.capacity then return .corrupted
  let control ← loadControl index
  if !canonical R.participants control then return .corrupted
  if base control ≠ producer ∧ base control ≠ consumer then return .none
  match assign dead live control with
  | .error result => return result
  | .ok next =>
    if !(← swapControl R index control next) then return .busy live
    if base control = producer then repairProducer R index control release
    else repairConsumer R index control release

end Repair

/-! ### Operations of participants -/

/-- What a sender does with its reservation. -/
inductive Send
  | dropReserved
  | publish
  | cancel

/-- What a receiver does with its claim. -/
inductive Use
  | take
  | drop
  /-- drop of a `Received` that was neither adopted nor discarded -/
  | forget

inductive Op (α : Type)
  | produce (p : Nat) (value : α) (send : Send)
  | consume (p : Nat) (use : Use)
  | closeSend (p : Nat)
  | closeRecv (p : Nat)
  | sendClosed (p : Nat)
  | recvClosed (p : Nat)
  | terminal (p : Nat)
  | repair (live dead index : Nat) (release : α → Nat → Bool)

namespace Op

variable {α : Type}

def owner : Op α → Nat
  | produce p _ _ => p
  | consume p _ => p
  | closeSend p => p
  | closeRecv p => p
  | sendClosed p => p
  | recvClosed p => p
  | terminal p => p
  | repair live _ _ _ => live

/-- The participant and the slot a repair is for. -/
def repairs : Op α → Option (Nat × Nat)
  | repair _ dead index _ => some (dead, index)
  | _ => none

def code (R : Route) : Op α → QueueProg R.toGeometry α Unit
  | produce p value send => do
    match ← Queue.reserve R p with
    | .error _ => pure ()
    | .ok index =>
      match send with
      | .dropReserved => skip index
      | .publish => do
        stage index value
        publish index value
      | .cancel => do
        stage index value
        let _ ← cancel index
  | consume p use => do
    match ← Queue.claim R p with
    | .error _ => pure ()
    | .ok claim =>
      match use with
      | .take => do
        let _ ← Queue.take claim
      | .drop => dropClaim claim
      | .forget => pure ()
  | closeSend _ => Queue.closeSend R
  | closeRecv _ => Queue.closeRecv R
  | sendClosed _ => do
    let _ ← Queue.sendClosed R
  | recvClosed _ => do
    let _ ← Queue.recvClosed R
  | terminal _ => do
    let _ ← Queue.terminal R
  | repair live dead index release => do
    let _ ← repairSlotWith R index dead live release

end Op

/-- Only the slots of the dead are repaired. With `single` a participant repairs a slot in one thread at a time, which
nothing in the code makes sure of. -/
def machine (R : Route) (α : Type) (single : Bool) : Machine (Shared R.toGeometry α) Site (Op α) where
  owner := Op.owner
  code := Op.code R
  ready := fun _ dead running op =>
    decide (op.owner < R.participants) &&
      match op.repairs with
      | none => true
      | some (d, index) =>
        dead d && (!single || running.all fun other =>
          decide (¬(other.owner = op.owner ∧ other.repairs.map Prod.snd = some index)))

end Evering.Queue
