import Mathlib.Data.BitVec
import Evering.Interleave.Machine
import Evering.Target

/-!
# The header of a shared layout

Every layout begins with a header: a status byte, a record of what the layout is, the word of its members and the
information the layout was made with. `admit` either initializes the header and the body, if the storage is still zero, or
compares the header with what the caller expects and attaches. Each load, store and compare-and-swap is one step; what the
body does in `init` and `attach` is left to the environment.

Beside the header the model keeps what no program reads: how often `init` has run, whether something was read before the
layout was initialized, the admissions that succeeded, which slots hold an admission, and what was done to the members.
-/

namespace Evering.Header

open Interleave

inductive Status
  | uninitialized
  | initializing
  | initialized
  | corrupted
  deriving DecidableEq

inductive LayoutField
  | state
  | format
  | profile
  | magic
  | revision
  | schema
  | region
  | offset
  | headerSize
  | headerAlign
  | extent
  | extentAlign
  | infoSchema
  | infoRevision
  | infoSize
  | infoAlign
  | size
  | align
  | info
  deriving DecidableEq

inductive AdmitError
  | contention
  | closed
  | duplicateMember
  | invalidHeader
  | mismatch (field : LayoutField)
  deriving DecidableEq

/-- `LayoutContext` -/
structure Context where
  region : Nat
  offset : Nat
  allowInit : Bool

/-- What `admit` needs to know of a `Layout` -/
structure Layout where
  target : Target
  Config : Type
  Info : Type
  sameInfo : DecidableEq Info
  /-- size and alignment of the storage -/
  storage : Config → Option (Nat × Nat)
  info : Config → Context → Info
  /-- what the header records of the type: magic, schema, sizes and alignments -/
  fixed : LayoutField → Nat

instance (L : Layout) : DecidableEq L.Info := L.sameInfo

inductive Event
  | claimed (slot : Nat)
  | refused (slot : Nat)
  | left (slot : Nat)
  deriving DecidableEq

structure Shared (L : Layout) where
  status : Status
  field : LayoutField → Nat
  members : BitVec L.target.bits
  info : Option L.Info
  /-- runs of `T::init` -/
  inits : Nat
  /-- the header or the body was read before it was initialized -/
  early : Bool
  admitted : List (L.Config × Context)
  /-- slots with an admission that was successful and has not left -/
  handle : Nat → Bool
  log : List Event

def Shared.init (L : Layout) : Shared L where
  status := .uninitialized
  field := fun _ => 0
  members := 0
  info := none
  inits := 0
  early := false
  admitted := []
  handle := fun _ => false
  log := []

abbrev HeaderProg (L : Layout) (β : Type) : Type := Prog (Shared L) Unit β

/-! ### Comparing -/

section Compare

variable {L : Layout}

/-- One field and what is accepted there -/
structure Check where
  field : LayoutField
  ok : Nat → Bool

/-- A read of what was recorded -/
def observe {β : Type} (f : Shared L → β) : HeaderProg L β :=
  .action () fun s => ({ s with early := s.early || decide (s.status ≠ .initialized) }, f s)

/-- The first field that is not accepted -/
def runChecks : List Check → HeaderProg L (Option LayoutField)
  | [] => return none
  | check :: rest => do
    let recorded ← observe fun s => s.field check.field
    if check.ok recorded then runChecks rest else return some check.field

def Check.equals (field : LayoutField) (expected : Nat) : Check := ⟨field, (· == expected)⟩

/-- `size_of::<Record>()` -/
def recordSize : Nat := 35

def recordFormat : Nat := 1

def isPowerOfTwo (n : Nat) : Bool := n == 2 ^ n.log2

/-- The checks of `recorded_at` after the status, in its order; `address` is where the caller has mapped the header. -/
def recordedChecks (target : Target) (profile address : Nat) : List Check :=
  [.equals .format recordFormat, .equals .profile profile,
    ⟨.extent, fun n => decide (n < 2 ^ target.bits)⟩, ⟨.extentAlign, fun n => decide (n < 2 ^ target.bits)⟩,
    ⟨.extent, fun n => decide (recordSize ≤ n)⟩,
    ⟨.extentAlign, fun n => isPowerOfTwo n && address % n == 0⟩]

variable (L) in
/-- The checks of `inspect_at` -/
def inspectChecks (ctx : Context) (address : Nat) : List Check :=
  recordedChecks L.target (L.fixed .profile) address ++
    [.equals .magic (L.fixed .magic), .equals .schema (L.fixed .schema), .equals .revision (L.fixed .revision),
      .equals .region ctx.region, .equals .offset ctx.offset] ++
    [LayoutField.headerSize, .headerAlign, .infoSchema, .infoRevision, .infoSize, .infoAlign, .size, .align].map
      fun field => .equals field (L.fixed field)

def loadStatus : HeaderProg L Status := .read () fun s => s.status

def mismatchAt (conf : L.Config) (ctx : Context) (address : Nat) : HeaderProg L (Option LayoutField) := do
  if (← loadStatus) ≠ .initialized then return some .state
  match ← runChecks (inspectChecks L ctx address) with
  | some field => return some field
  | none =>
    let info ← observe fun s => s.info
    match L.storage conf with
    | none => return some .extent
    | some (size, align) =>
      match ← runChecks [.equals .extent size, .equals .extentAlign align] with
      | some field => return some field
      | none => if info ≠ some (L.info conf ctx) then return some .info else return none

end Compare

/-! ### Admission -/

section Admit

variable {L : Layout}

/-- `1usize << slot` -/
def bit (slot : Nat) : BitVec L.target.bits := BitVec.twoPow L.target.bits slot

/-- `1usize << (usize::BITS - 1)` -/
def closed : BitVec L.target.bits := BitVec.twoPow L.target.bits (L.target.bits - 1)

/-- `RcHeader::claim`; an admission without a slot claims nothing. -/
def claim : Option Nat → HeaderProg L (Except AdmitError Unit)
  | none => return .ok ()
  | some slot => do
    let observed ← Prog.read () fun s => s.members
    if observed &&& closed ≠ 0 then return .error .closed
    if observed &&& bit slot ≠ 0 then return .error .duplicateMember
    let won ← Prog.action () fun s =>
      if s.members = observed then ({ s with members := observed ||| bit slot, log := .claimed slot :: s.log }, true)
      else (s, false)
    if won then return .ok () else return .error .contention

/-- The drop of a `Membership` that was not disarmed -/
def dropMembership : Option Nat → HeaderProg L Unit
  | none => return
  | some slot => .write () fun s =>
    { s with members := s.members &&& ~~~(bit slot), log := .refused slot :: s.log }

/-- The outcome of `init` or `attach` -/
def Status.ofChoice : Nat → Status
  | 0 => initialized
  | 1 => initializing
  | 2 => uninitialized
  | _ => corrupted

/-- The admission is entered as successful. -/
def Shared.admitMember (s : Shared L) (slot : Option Nat) (conf : L.Config) (ctx : Context) : Shared L :=
  { s with
    admitted := (conf, ctx) :: s.admitted
    handle := match slot with
      | none => s.handle
      | some slot => Function.update s.handle slot true }

/-- The branch of `admit` for an initialized header -/
def attach (slot : Option Nat) (conf : L.Config) (ctx : Context) (address : Nat) : HeaderProg L (Except AdmitError Unit) := do
  match ← mismatchAt conf ctx address with
  | some field => return .error (.mismatch field)
  | none =>
    match ← claim slot with
    | .error error => return .error error
    | .ok () =>
      let status := Status.ofChoice (← Prog.pick)
      -- `T::attach` reads the body; if it consents, the membership is disarmed
      .write () fun s =>
        let s := { s with early := s.early || decide (s.status ≠ .initialized) }
        if status = .initialized then s.admitMember slot conf ctx else s
      if status = .initialized then return .ok ()
      dropMembership slot
      return .error (if status = .initializing then .contention else .invalidHeader)

/-- What the initializer writes into a field -/
def expected (conf : L.Config) (ctx : Context) : LayoutField → Nat
  | .format => recordFormat
  | .region => ctx.region
  | .offset => ctx.offset
  | .extent => ((L.storage conf).getD (0, 0)).1
  | .extentAlign => ((L.storage conf).getD (0, 0)).2
  | field => L.fixed field

def writeFields (value : LayoutField → Nat) : List LayoutField → HeaderProg L Unit
  | [] => return
  | field :: rest => do
    .write () fun s => { s with field := Function.update s.field field (value field) }
    writeFields value rest

/-- `Record::initialize` -/
def recordFields : List LayoutField := [.format, .profile, .magic, .revision, .schema, .extent, .extentAlign]

def headerFields : List LayoutField :=
  [.region, .offset, .headerSize, .headerAlign, .infoSchema, .infoRevision, .infoSize, .infoAlign, .size, .align]

def writeMembers : Option Nat → HeaderProg L Unit
  | none => .write () fun s => { s with members := 0 }
  | some slot => .write () fun s => { s with members := bit slot, log := .claimed slot :: s.log }

/-- The part of `admit` after the status was claimed. On failure the drop of the membership comes before that of the
claim. -/
def initLayout (slot : Option Nat) (conf : L.Config) (ctx : Context) : HeaderProg L (Except AdmitError Unit) := do
  writeFields (expected conf ctx) recordFields
  writeMembers slot
  writeFields (expected conf ctx) headerFields
  .write () fun s => { s with info := some (L.info conf ctx) }
  let status := Status.ofChoice (← Prog.pick)
  .write () fun s => { s with inits := s.inits + 1 }
  if status ≠ .initialized then
    dropMembership slot
    .write () fun s => { s with status := .corrupted }
    return .error .invalidHeader
  .write () fun s => { s.admitMember slot conf ctx with status := .initialized }
  return .ok ()

/-- The loop of `RcHeader::admit`; who loses the status looks again. -/
def admitLoop (slot : Option Nat) (conf : L.Config) (ctx : Context) (address : Nat) :
    Nat → HeaderProg L (Except AdmitError Unit)
  | 0 => return .error .contention
  | rounds + 1 => do
    match ← loadStatus with
    | .uninitialized =>
      if !ctx.allowInit then return .error (.mismatch .state)
      let won ← Prog.action () fun s =>
        if s.status = .uninitialized then ({ s with status := .initializing }, true) else (s, false)
      if won then initLayout slot conf ctx else admitLoop slot conf ctx address rounds
    | .initializing => return .error .contention
    | .corrupted => return .error .invalidHeader
    | .initialized => attach slot conf ctx address

/-- `RcHeader::admit` -/
def admitHeader (slot : Option Nat) (conf : L.Config) (ctx : Context) (address rounds : Nat) :
    HeaderProg L (Except AdmitError Unit) :=
  match L.storage conf with
  | none => return .error .invalidHeader
  | some _ => admitLoop slot conf ctx address rounds

/-- `RcHeader::leave` -/
def leave (slot : Nat) : HeaderProg L Unit :=
  .write () fun s => { s with
    members := s.members &&& ~~~(bit slot)
    handle := Function.update s.handle slot false
    log := .left slot :: s.log }

end Admit

section Machine

variable {L : Layout}

inductive Op (L : Layout)
  | admission (p : Nat) (slot : Option Nat) (conf : L.Config) (ctx : Context) (address rounds : Nat)
  | leave (slot : Nat)

def Op.owner : Op L → Nat
  | admission p _ _ _ _ _ => p
  | leave slot => slot

def Op.code : Op L → HeaderProg L Unit
  | admission _ slot conf ctx address rounds => do let _ ← admitHeader slot conf ctx address rounds
  | leave slot => Header.leave slot

def Op.leaves : Op L → Option Nat
  | admission _ _ _ _ _ _ => none
  | leave slot => some slot

variable (L) in
/-- Participants are numbered below `PARTICIPANT_CAPACITY`; an admission leaves once, when its handle is dropped. -/
def machine : Machine (Shared L) Unit (Op L) where
  owner := Op.owner
  code := Op.code
  ready := fun s _ running op =>
    match op with
    | .admission _ slot _ _ _ _ => slot.all fun slot => decide (slot < L.target.participantCapacity)
    | .leave slot => s.handle slot && running.all fun other => decide (other.leaves ≠ some slot)

end Machine

end Evering.Header
