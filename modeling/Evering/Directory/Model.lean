import Evering.Interleave.Machine
import Evering.Directory.Words

/-!
# Directory and heap operations as atomic steps

The directory is a chain of slabs of 32 entries with one transaction word and one pending record. The slabs
are known by their place in the chain: slab 0 is the root and slab `k + 1` is the one at the offset in
`next k`. The heap is its mutation word and the blocks that are allocated, known by their offsets; a body of
`TalcMeta::allocate` or `TalcMeta::deallocate` is the time between two steps, of which the second one has the
effect. Every other action is one load, store or compare-and-exchange of the source.

Beside the words the model keeps a history, which no branch of the code reads. The trail of the directory says
whether a thread works on the transaction, whether it has claimed the heap for it, which block of the directory
no entry and no link names, and what the entries were when the transaction began. The heap records who is in a
body and who died in one, and how often each allocation was passed to `deallocate`.
-/

namespace Evering.Directory

open Interleave

/-! ### State -/

/-- What the code is built for, and the rules that its callers follow. -/
structure Setup where
  target : Target
  region : Nat
  /-- `debug_assert!` evaluates its argument -/
  debug : Bool
  /-- every participant runs one directory operation at a time -/
  single : Bool
  /-- a slot is joined again only when no recovery of it is running; nothing in the code makes sure of that -/
  settled : Bool

def capacity : Nat := 32

structure Entry where
  word : EntryWord
  offset : Nat
  deriving DecidableEq

inductive Kind
  | create
  | remove
  | grow
  deriving DecidableEq, Repr

structure Id where
  region : Nat
  slab : Nat
  entry : Nat
  generation : Nat
  deriving DecidableEq

/-- The block of the directory that no entry and no link names. -/
inductive Account
  | settled
  | loose (offset : Nat)
  /-- a block that an entry names was released -/
  | adrift
  deriving DecidableEq

structure Trail where
  /-- a thread has the transaction by value -/
  handled : Bool
  account : Account
  /-- the entry that the transaction has changed -/
  home : Option (Nat × Nat)
  /-- the entries when the transaction was claimed -/
  before : Nat → Nat → Entry
  /-- identifiers that `create_in` has returned, with the offsets of their storage -/
  issued : List (Id × Nat)

structure Dir where
  transaction : Txn
  pendingSlab : Nat
  pendingEntry : Nat
  pendingKind : Kind
  /-- offset of the pending allocation; not written before the first `persist` -/
  pending : Nat
  next : Nat → Nat
  entry : Nat → Nat → Entry
  trail : Trail

inductive Holder
  | directory
  | user
  deriving DecidableEq

inductive Block
  | free
  | live (holder : Holder)
  /-- passed to `deallocate`, whose body has not ended -/
  | freeing
  deriving DecidableEq

structure Heap where
  mutation : Mutation
  /-- the mutation is claimed by the thread that has the transaction -/
  bound : Bool
  block : Nat → Block
  /-- blocks that users have by value -/
  boxes : List Nat
  /-- how often the last allocation at an offset was passed to `deallocate` -/
  passes : Nat → Nat
  /-- participants with a thread in a body -/
  bodies : List Nat
  /-- participants that died in a body -/
  torn : List Nat

structure Shared where
  dir : Dir
  heap : Heap
  /-- membership word of the header at an offset -/
  members : Nat → Nat
  /-- membership word of the heap's own header -/
  heapMembers : Nat

def Entry.vacant : Entry := ⟨⟨0, .vacant⟩, 0⟩

def Dir.init : Dir where
  transaction := .clean
  pendingSlab := 0
  pendingEntry := 0
  pendingKind := .create
  pending := 0
  next := fun _ => 0
  entry := fun _ _ => .vacant
  trail := ⟨false, .settled, none, fun _ _ => .vacant, []⟩

def Heap.init : Heap where
  mutation := .clean
  bound := false
  block := fun _ => .free
  boxes := []
  passes := fun _ => 0
  bodies := []
  torn := []

def Shared.init : Shared := ⟨.init, .init, fun _ => 0, 0⟩

inductive HeapError
  | busy (owner : Nat)
  | poisoned
  | exhausted
  deriving DecidableEq, Repr

inductive CloseError
  | closed
  | missingMember
  | contention
  deriving DecidableEq, Repr

inductive Error
  | busy (owner : Nat)
  | full
  | stale
  | admission
  | heap (error : HeapError)
  | rolledBack
  | close (error : CloseError)
  /-- `unreachable!` -/
  | unreachable
  deriving DecidableEq, Repr

/-- Places of the code at which a run may be restricted. -/
inductive Site
  | plain
  /-- the check by which `resume_rollback` takes up a transaction that was left -/
  | resume
  deriving DecidableEq

abbrev DirProg (β : Type) : Type := Prog Shared Site β

/-! ### Words of the directory -/

namespace Dir

variable (d : Dir)

def setEntry (k e : Nat) (entry : Entry) : Dir :=
  { d with entry := Function.update d.entry k (Function.update (d.entry k) e entry) }

def setWord (k e : Nat) (word : EntryWord) : Dir :=
  d.setEntry k e { d.entry k e with word }

def setOffset (k e offset : Nat) : Dir :=
  d.setEntry k e { d.entry k e with offset }

def setTransaction (transaction : Txn) : Dir :=
  { d with transaction }

def setHandled (handled : Bool) : Dir :=
  { d with trail := { d.trail with handled } }

def setAccount (account : Account) : Dir :=
  { d with trail := { d.trail with account } }

def setHome (k e : Nat) : Dir :=
  { d with trail := { d.trail with home := some (k, e) } }

def issue (ids : List (Id × Nat)) : Dir :=
  { d with trail := { d.trail with issued := ids ++ d.trail.issued } }

def begin (owner : Nat) : Dir :=
  { d with
    transaction := .owned owner .held
    trail := { d.trail with handled := true, account := .settled, home := none, before := d.entry } }

/-- The directory passes a block to `deallocate`. -/
def pass (offset : Nat) : Dir :=
  d.setAccount (if d.trail.account = .loose offset then .settled else .adrift)

end Dir

theorem setEntry_same (d : Dir) (k e : Nat) (y : Entry) : (d.setEntry k e y).entry k e = y := by
  simp [Dir.setEntry]

theorem setEntry_other (d : Dir) {k e k' e' : Nat} (y : Entry) (other : (k, e) ≠ (k', e')) :
    (d.setEntry k e y).entry k' e' = d.entry k' e' := by
  by_cases hk : k' = k
  · subst hk
    have he : e' ≠ e := fun h => other (by rw [h])
    simp [Dir.setEntry, Function.update_of_ne he]
  · simp [Dir.setEntry, Function.update_of_ne hk]

section DirectoryWords

def loadTxn : DirProg Txn := .read .plain (·.dir.transaction)

def loadState (k e : Nat) : DirProg EntryWord := .read .plain fun s => (s.dir.entry k e).word

def loadOffset (k e : Nat) : DirProg Nat := .read .plain fun s => (s.dir.entry k e).offset

def loadNext (k : Nat) : DirProg Nat := .read .plain (·.dir.next k)

/-- A step on the directory alone. -/
def update (f : Dir → Dir) : DirProg Unit := .write .plain fun s => { s with dir := f s.dir }

def storeState (k e : Nat) (word : EntryWord) : DirProg Unit := update fun d => d.setWord k e word

/-- The first store of a transaction to an entry. -/
def storeHome (k e : Nat) (word : EntryWord) (account : Account → Account) : DirProg Unit :=
  update fun d => ((d.setWord k e word).setHome k e).setAccount (account d.trail.account)

/-- A store after which the accounts agree again. -/
def settleState (k e : Nat) (word : EntryWord) : DirProg Unit :=
  update fun d => (d.setWord k e word).setAccount .settled

/-- `Directory::claim` -/
def claim (owner : Nat) : DirProg (Except Error Unit) :=
  .action .plain fun s => match s.dir.transaction with
    | .clean => ({ s with dir := s.dir.begin owner }, .ok ())
    | .owned busy _ => (s, .error (.busy busy))

/-- `Transaction::persist` -/
def persist (owner slab entry pointer : Nat) (kind : Kind) : DirProg Unit := do
  update fun d => { d with pendingSlab := slab }
  update fun d => { d with pendingEntry := entry }
  update fun d => { d with pendingKind := kind }
  update fun d => { d with pending := pointer }
  update fun d => d.setTransaction (.owned owner .evidence)

/-- `Transaction::clear_pending` -/
def clearPending (owner : Nat) : DirProg Unit :=
  update fun d => d.setTransaction (.owned owner .held)

/-- `Transaction::commit`, with what the transaction issues. -/
def commit (owner : Nat) (phase : Phase) (issue : List (Id × Nat)) : DirProg Bool :=
  .action .plain fun s =>
    let dir := s.dir.setHandled false
    if s.dir.transaction = .owned owner phase then
      ({ s with dir := (dir.setTransaction .clean).issue issue }, true)
    else ({ s with dir }, false)

/-- `Transaction::drop` -/
def dropTransaction (owner : Nat) (phase : Phase) : DirProg Unit :=
  update fun d =>
    if phase = .evidence ∧ d.transaction = .owned owner .evidence then
      (d.setHandled false).setTransaction (.owned owner .rollingBack)
    else d.setHandled false

/-- `transfer`; `bound` says that the caller has claimed the heap for it. -/
def transfer (live dead : Nat) (phase next : Phase) (bound : Bool) : DirProg (Except Error Unit) :=
  .action .plain fun s =>
    if s.dir.transaction = .owned dead phase then
      ({ s with
        dir := (s.dir.setTransaction (.owned live next)).setHandled true
        heap := { s.heap with bound } }, .ok ())
    else (s, .error (.busy (s.dir.transaction.wordOwner.getD dead)))

end DirectoryWords

/-! ### Words of the heap -/

namespace Heap

variable (h : Heap)

def setMutation (mutation : Mutation) (bound : Bool) : Heap :=
  { h with mutation, bound }

def setBlock (offset : Nat) (block : Block) : Heap :=
  { h with block := Function.update h.block offset block }

def enter (p : Nat) : Heap :=
  { h with bodies := p :: h.bodies }

def leave (p : Nat) : Heap :=
  { h with bodies := h.bodies.erase p }

def allot (offset : Nat) (holder : Holder) : Heap :=
  { h.setBlock offset (.live holder) with passes := Function.update h.passes offset 0 }

/-- `deallocate` is called for `offset`. -/
def pass (offset : Nat) : Heap :=
  { h.setBlock offset .freeing with passes := Function.update h.passes offset (h.passes offset + 1) }

end Heap

section HeapWords

/-- `begin_mutation`; `bound` says that it is for the transaction that the caller has. -/
def beginMutation (owner : Nat) (bound : Bool) : DirProg (Except HeapError Unit) :=
  .action .plain fun s => match s.heap.mutation with
    | .clean => ({ s with heap := s.heap.setMutation (.owned owner) bound }, .ok ())
    | .poisoned => (s, .error .poisoned)
    | .owned busy => (s, .error (.busy busy))

/-- `Mutation::commit` -/
def commitMutation : DirProg Unit :=
  .write .plain fun s => { s with heap := s.heap.setMutation .clean false }

/-- `Mutation::drop` without a commit -/
def dropMutation : DirProg Unit :=
  .write .plain fun s => { s with heap := s.heap.setMutation .poisoned false }

def mutationState : DirProg Mutation := .read .plain (·.heap.mutation)

def poisonOwner (owner : Nat) : DirProg Bool :=
  .action .plain fun s =>
    if s.heap.mutation = .owned owner then
      ({ s with heap := s.heap.setMutation .poisoned false }, true)
    else (s, false)

def clearDeadOwner (owner : Nat) : DirProg Bool :=
  .action .plain fun s =>
    if s.heap.mutation = .owned owner then
      ({ s with heap := s.heap.setMutation .clean false }, true)
    else (s, decide (s.heap.mutation = .clean))

/-- `allocate_during`: nothing, or a block that is not in use. -/
def allocateDuring (owner : Nat) : DirProg (Except HeapError Nat) := do
  .write .plain fun s => { s with heap := s.heap.enter owner }
  let offset ← .pick
  .action .plain fun s =>
    if offset ≠ 0 ∧ s.heap.block offset = .free then
      ({ s with
        heap := (s.heap.leave owner).allot offset .directory
        dir := s.dir.setAccount (.loose offset) }, .ok offset)
    else ({ s with heap := s.heap.leave owner }, .error .exhausted)

def deallocateDuring (owner offset : Nat) : DirProg Unit := do
  .write .plain fun s => { s with heap := (s.heap.enter owner).pass offset, dir := s.dir.pass offset }
  .write .plain fun s => { s with heap := (s.heap.leave owner).setBlock offset .free }

/-- `offset_of`: the environment decides whether the mapping covers the block. -/
def offsetOf (offset : Nat) : DirProg (Except Error Nat) := do
  let fault ← .pick
  return if fault = 0 then .ok offset else .error .admission

/-- Membership word that says `CLOSED` -/
def closed (S : Setup) : Nat := 2 ^ (S.target.bits - 1)

/-- `admit_at` of new storage: the environment decides whether the layout can be initialised. -/
def admitAt (owner offset : Nat) : DirProg (Except Error Unit) := do
  let fault ← .pick
  if fault = 0 then
    .write .plain fun s => { s with members := Function.update s.members offset (2 ^ owner) }
    return .ok ()
  return .error .admission

def closeUnique (S : Setup) (owner offset : Nat) : DirProg (Except CloseError Unit) :=
  .action .plain fun s =>
    let observed := s.members offset
    if observed = 2 ^ owner then
      ({ s with members := Function.update s.members offset (closed S) }, .ok ())
    else (s, .error
      (if observed.testBit (S.target.bits - 1) then .closed
        else if observed.testBit owner then .contention
        else .missingMember))

def closedAt (S : Setup) (offset : Nat) : DirProg Bool :=
  .read .plain fun s => (s.members offset).testBit (S.target.bits - 1)

end HeapWords

/-! ### The chain of slabs -/

/-- The slab is reached from the root. -/
def Dir.Linked (d : Dir) (k : Nat) : Prop := ∀ j, j < k → d.next j ≠ 0

/-- Slab indices are `u32`. -/
def maxSlabs : Nat := 2 ^ 32

/-- `slab(index)` from slab `k` on, which is `n` links away. -/
def walk (k : Nat) : Nat → DirProg (Except Error Unit)
  | 0 => return .ok ()
  | n + 1 => do
    if (← loadNext k) = 0 then return .error .stale
    walk (k + 1) n

def slab (index : Nat) : DirProg (Except Error Unit) := walk 0 index

/-- `entry(slab, entry)` -/
def entry (index e : Nat) : DirProg (Except Error Unit) := do
  match ← slab index with
  | .error error => return .error error
  | .ok () => return if e < capacity then .ok () else .error .stale

structure Slot where
  slab : Nat
  entry : Nat
  generation : Nat
  vacant : EntryWord

/-- The entries of one slab that `reserve` has still to try. -/
def reserveIn (S : Setup) (k : Nat) : Nat → Nat → DirProg (Option Slot)
  | 0, _ => return none
  | n + 1, e => do
    let word ← loadState k e
    if word.state = .vacant ∧ word.generation ≠ generationMax S.target then
      return some ⟨k, e, word.generation + 1, word⟩
    reserveIn S k n (e + 1)

def reserveFrom (S : Setup) : Nat → Nat → DirProg (Except Error Slot)
  | 0, _ => return .error .full
  | n + 1, k => do
    match ← reserveIn S k capacity 0 with
    | some slot => return .ok slot
    | none =>
      if (← loadNext k) = 0 then return .error .full
      reserveFrom S n (k + 1)

def reserve (S : Setup) : DirProg (Except Error Slot) := reserveFrom S maxSlabs 0

def tailFrom : Nat → Nat → DirProg (Except Error Nat)
  | 0, _ => return .error .full
  | n + 1, k => do
    if (← loadNext k) = 0 then return .ok k
    tailFrom n (k + 1)

def tail : DirProg (Except Error Nat) := tailFrom maxSlabs 0

/-- States of an entry that no transaction is changing -/
def EntryState.isCalm : EntryState → Bool
  | vacant | published | quarantined => true
  | _ => false

def transitionIn (k : Nat) : Nat → Nat → DirProg (Option (Nat × Nat))
  | 0, _ => return none
  | n + 1, e => do
    if !(← loadState k e).state.isCalm then return some (k, e)
    transitionIn k n (e + 1)

def transitionFrom : Nat → Nat → DirProg (Except Error (Option (Nat × Nat)))
  | 0, _ => return .error .full
  | n + 1, k => do
    match ← transitionIn k capacity 0 with
    | some found => return .ok (some found)
    | none =>
      if (← loadNext k) = 0 then return .ok none
      transitionFrom n (k + 1)

def transition : DirProg (Except Error (Option (Nat × Nat))) := transitionFrom maxSlabs 0

/-! ### Creating, removing and growing -/

section Operations

variable (S : Setup)

/-- `commit` and return an error. -/
def giveUp {β : Type} (owner : Nat) (error : Error) : DirProg (Except Error β) := do
  let _ ← commit owner .held []
  return .error error

/-- `grow` from the allocated slab on. -/
def growAt (owner k pointer : Nat) : DirProg (Except Error Unit) := do
  match ← offsetOf pointer with
  | .error error =>
    deallocateDuring owner pointer
    commitMutation
    return .error error
  | .ok offset =>
    persist owner (k + 1) 0 pointer .grow
    commitMutation
    update fun d => { d.setAccount .settled with next := Function.update d.next k offset }
    clearPending owner
    return .ok ()

def grow (owner : Nat) : DirProg (Except Error Unit) := do
  match ← tail with
  | .error error => return .error error
  | .ok k =>
    if k + 1 = maxSlabs then return .error .full
    match ← beginMutation owner true with
    | .error error => return .error (.heap error)
    | .ok () =>
      match ← allocateDuring owner with
      | .error error =>
        commitMutation
        return .error (.heap error)
      | .ok pointer => growAt owner k pointer

/-- `create_in` from `admit_at` on. -/
def createAdmit (owner : Nat) (slot : Slot) (offset : Nat) : DirProg (Except Error Id) := do
  match ← admitAt owner offset with
  | .ok () =>
    update fun d => d.setOffset slot.slab slot.entry offset
    settleState slot.slab slot.entry ⟨slot.generation, .published⟩
    clearPending owner
    let id := ⟨S.region, slot.slab, slot.entry, slot.generation⟩
    let _ ← commit owner .held [(id, offset)]
    return .ok id
  | .error error =>
    match ← beginMutation owner true with
    | .error error =>
      dropTransaction owner .evidence
      return .error (.heap error)
    | .ok () =>
      let pending ← Prog.read .plain (·.dir.pending)
      deallocateDuring owner pending
      storeState slot.slab slot.entry slot.vacant
      clearPending owner
      commitMutation
      giveUp owner error

/-- `create_in` from the allocated storage on. -/
def createAllocated (owner : Nat) (slot : Slot) (pointer : Nat) : DirProg (Except Error Id) := do
  .write .plain fun s => { s with members := Function.update s.members pointer 0 }
  match ← offsetOf pointer with
  | .error error =>
    deallocateDuring owner pointer
    commitMutation
    storeState slot.slab slot.entry slot.vacant
    giveUp owner error
  | .ok offset =>
    persist owner slot.slab slot.entry pointer .create
    commitMutation
    createAdmit S owner slot offset

/-- `create_in` from the reserved slot on. -/
def createAt (owner : Nat) (slot : Slot) : DirProg (Except Error Id) := do
  match ← entry slot.slab slot.entry with
  | .error error => giveUp owner error
  | .ok () =>
    storeHome slot.slab slot.entry ⟨slot.generation, .pending⟩ id
    match ← beginMutation owner true with
    | .error error =>
      storeState slot.slab slot.entry slot.vacant
      giveUp owner (.heap error)
    | .ok () =>
      match ← allocateDuring owner with
      | .error error =>
        commitMutation
        storeState slot.slab slot.entry slot.vacant
        giveUp owner (.heap error)
      | .ok pointer => createAllocated S owner slot pointer

/-- `create_in` with the transaction claimed. -/
def createHeld (owner : Nat) : DirProg (Except Error Id) := do
  match ← reserve S with
  | .ok slot => createAt S owner slot
  | .error .full =>
    match ← grow owner with
    | .error error => giveUp owner error
    | .ok () =>
      match ← reserve S with
      | .ok slot => createAt S owner slot
      | .error error => giveUp owner error
  | .error error => giveUp owner error

/-- `remove_in` from the closed layout on. -/
def removeClosed (owner : Nat) (id : Id) (offset : Nat) : DirProg (Except Error Unit) := do
  storeState id.slab id.entry ⟨id.generation, .removing⟩
  deallocateDuring owner offset
  storeState id.slab id.entry ⟨id.generation, .released⟩
  commitMutation
  storeState id.slab id.entry ⟨id.generation, .vacant⟩
  clearPending owner
  let _ ← commit owner .held []
  return .ok ()

/-- `remove_in` with transaction and heap claimed. -/
def removeHeld (owner : Nat) (id : Id) (offset : Nat) : DirProg (Except Error Unit) := do
  storeHome id.slab id.entry ⟨id.generation, .closing⟩ fun _ => .loose offset
  persist owner id.slab id.entry offset .remove
  match ← closeUnique S owner offset with
  | .error error =>
    settleState id.slab id.entry ⟨id.generation, .published⟩
    clearPending owner
    commitMutation
    giveUp owner (.close error)
  | .ok () => removeClosed owner id offset

/-- `offset(id)` -/
def offset (id : Id) : DirProg (Except Error Nat) := do
  if id.region ≠ S.region then return .error .stale
  match ← entry id.slab id.entry with
  | .error error => return .error error
  | .ok () =>
    let word ← loadState id.slab id.entry
    if word.state ≠ .published ∨ word.generation ≠ id.generation then return .error .stale
    return .ok (← loadOffset id.slab id.entry)

/-- `remove_in` of the mapping at offset `mapped`, with a layout that may be too small for the header or
outside of the heap. -/
def remove (owner heapRegion : Nat) (id : Id) (mapped : Nat) (fits inHeap : Bool) :
    DirProg (Except Error Unit) := do
  if S.region ≠ heapRegion then return .error .stale
  if !fits then return .error .stale
  match ← offset S id with
  | .error error => return .error error
  | .ok offset =>
    if mapped ≠ offset then return .error .stale
    match ← claim owner with
    | .error error => return .error error
    | .ok () =>
      match ← entry id.slab id.entry with
      | .error error => giveUp owner error
      | .ok () =>
        if (← loadState id.slab id.entry) ≠ ⟨id.generation, .published⟩ then giveUp owner .stale
        else if !inHeap then giveUp owner .stale
        else
          match ← beginMutation owner true with
          | .error error => giveUp owner (.heap error)
          | .ok () => removeHeld S owner id offset

/-! ### Recovery -/

inductive Recovered
  | rolledBack
  | released
  | retained
  | quarantined
  deriving DecidableEq, Repr

def transferAndClear (live dead : Nat) (phase : Phase) (result : Recovered) :
    DirProg (Except Error Recovered) := do
  match ← transfer live dead phase .held false with
  | .error error => return .error error
  | .ok () =>
    let _ ← commit live .held []
    return .ok result

/-- `clear_pending` and `commit` after a transfer. -/
def finish (live : Nat) (result : Recovered) : DirProg (Except Error Recovered) := do
  clearPending live
  let _ ← commit live .held []
  return .ok result

def claimHeapAndTransfer (live dead : Nat) (phase : Phase) : DirProg (Except Error Unit) := do
  match ← beginMutation live false with
  | .error error => return .error (.heap error)
  | .ok () =>
    match ← transfer live dead phase phase true with
    | .error error =>
      commitMutation
      return .error error
    | .ok () => return .ok ()

def quarantine (live dead : Nat) (phase : Phase) (k e : Nat) : DirProg (Except Error Recovered) := do
  match ← transfer live dead phase phase false with
  | .error error => return .error error
  | .ok () =>
    let word ← loadState k e
    storeState k e ⟨word.generation, .quarantined⟩
    if S.debug then
      let _ ← commit live phase []
      return .ok .quarantined
    dropTransaction live phase
    return .ok .quarantined

/-- What `recover` does when `clear_dead_owner` fails. -/
def recoverUncleared (live dead : Nat) (phase : Phase) (k e : Nat) : DirProg (Except Error Recovered) := do
  match ← mutationState with
  | .owned owner => return .error (.busy owner)
  | .poisoned => quarantine S live dead phase k e
  | .clean => return .error .unreachable

/-- `recover` of a removal from the claim of the heap on. -/
def recoverRemoving (live dead : Nat) (phase : Phase) (k e generation : Nat) :
    DirProg (Except Error Recovered) := do
  match ← claimHeapAndTransfer live dead phase with
  | .error error => return .error error
  | .ok () =>
    let pending ← Prog.read .plain (·.dir.pending)
    deallocateDuring live pending
    storeState k e ⟨generation, .released⟩
    commitMutation
    storeState k e ⟨generation, .vacant⟩
    finish live .released

/-- `recover` of a removal that had not closed the layout. -/
def recoverUnclosed (live dead : Nat) (phase : Phase) (k e generation : Nat) :
    DirProg (Except Error Recovered) := do
  match ← transfer live dead phase phase false with
  | .error error => return .error error
  | .ok () =>
    settleState k e ⟨generation, .published⟩
    finish live .rolledBack

/-- `recover` of a removal at `CLOSING`. -/
def recoverClosing (live dead : Nat) (phase : Phase) (k e generation : Nat) :
    DirProg (Except Error Recovered) := do
  if !(← clearDeadOwner dead) then recoverUncleared S live dead phase k e
  else
    let pending ← Prog.read .plain (·.dir.pending)
    if !(← closedAt S pending) then recoverUnclosed live dead phase k e generation
    else recoverRemoving live dead phase k e generation

/-- `recover` of a removal whose block is released. -/
def recoverVacated (live dead : Nat) (phase : Phase) : DirProg (Except Error Recovered) := do
  match ← transfer live dead phase phase false with
  | .error error => return .error error
  | .ok () => finish live .released

/-- `recover` of a removal at `RELEASED`. -/
def recoverReleased (live dead : Nat) (phase : Phase) (k e generation : Nat) :
    DirProg (Except Error Recovered) := do
  if !(← clearDeadOwner dead) then recoverUncleared S live dead phase k e
  else
    match ← transfer live dead phase phase false with
    | .error error => return .error error
    | .ok () =>
      storeState k e ⟨generation, .vacant⟩
      finish live .released

/-- `recover` of a removal at `VACANT`. -/
def recoverVacant (live dead : Nat) (phase : Phase) : DirProg (Except Error Recovered) := do
  match ← mutationState with
  | .owned owner => if owner ≠ dead then return .error (.busy owner) else recoverVacated live dead phase
  | .clean => recoverVacated live dead phase
  | .poisoned => recoverVacated live dead phase

/-- The dead owner's claim of the heap is turned into poison. -/
def poisonDead (dead : Nat) : DirProg Unit := do
  if (← mutationState) = .owned dead then
    let _ ← poisonOwner dead

/-- `recover` of a creation whose evidence is complete. -/
def recoverPending (live dead : Nat) (phase : Phase) (k e generation : Nat) :
    DirProg (Except Error Recovered) := do
  if generation = 0 then quarantine S live dead phase k e
  else
    match ← claimHeapAndTransfer live dead phase with
    | .error error => return .error error
    | .ok () =>
      let pending ← Prog.read .plain (·.dir.pending)
      deallocateDuring live pending
      storeState k e ⟨generation - 1, .vacant⟩
      clearPending live
      commitMutation
      let _ ← commit live .held []
      return .ok .rolledBack

/-- `recover` of a reservation without evidence. -/
def recoverReserved (live dead : Nat) (phase : Phase) (k e generation : Nat) :
    DirProg (Except Error Recovered) := do
  if generation = 0 then quarantine S live dead phase k e
  else
    match ← transfer live dead phase phase false with
    | .error error => return .error error
    | .ok () =>
      storeState k e ⟨generation - 1, .vacant⟩
      let _ ← commit live phase []
      return .ok .rolledBack

/-- The heap of a creation at `PENDING` or a removal at `REMOVING` has to be clean. -/
def recoverGuarded (live dead : Nat) (phase : Phase) (k e : Nat)
    (clean : DirProg (Except Error Recovered)) : DirProg (Except Error Recovered) := do
  match ← mutationState with
  | .owned owner => return .error (.busy owner)
  | .poisoned => quarantine S live dead phase k e
  | .clean => clean

/-- `recover` after the dead owner's claim of the heap is turned into poison. -/
def recoverPoisoned (live dead : Nat) (phase : Phase) (kind : Kind) (k e : Nat) (word : EntryWord) :
    DirProg (Except Error Recovered) :=
  if phase = .held ∧ word.state = .pending then
    recoverReserved S live dead phase k e word.generation
  else if phase ≠ .held ∧ kind = .create ∧ word.state = .pending then
    recoverGuarded S live dead phase k e (recoverPending S live dead phase k e word.generation)
  else if phase ≠ .held ∧ kind = .remove ∧ word.state = .removing then
    recoverGuarded S live dead phase k e (recoverRemoving live dead phase k e word.generation)
  else quarantine S live dead phase k e

/-- `recover` from the state of the entry on. -/
def recoverState (live dead : Nat) (phase : Phase) (kind : Kind) (k e : Nat) (word : EntryWord) :
    DirProg (Except Error Recovered) := do
  if phase ≠ .held ∧ kind = .remove ∧ word.state = .closing then
    recoverClosing S live dead phase k e word.generation
  else if phase ≠ .held ∧ kind = .remove ∧ word.state = .released then
    recoverReleased S live dead phase k e word.generation
  else if phase ≠ .held ∧ kind = .remove ∧ word.state = .vacant then
    recoverVacant live dead phase
  else
    poisonDead dead
    recoverPoisoned S live dead phase kind k e word

def recoverEntry (live dead : Nat) (phase : Phase) (kind : Kind) (k e : Nat) :
    DirProg (Except Error Recovered) := do
  match ← entry k e with
  | .error error => return .error error
  | .ok () => recoverState S live dead phase kind k e (← loadState k e)

/-- `recover` when no entry is in transition. -/
def recoverHeld (live dead : Nat) (phase : Phase) : DirProg (Except Error Recovered) := do
  if phase ≠ .held then return .error .stale
  if (← mutationState) = .owned dead then
    let _ ← poisonOwner dead
    transferAndClear live dead phase .quarantined
  else transferAndClear live dead phase .rolledBack

/-- `recover_growth` without a change to the chain. -/
def recoverLinked (live owner : Nat) (phase : Phase) (result : Recovered) :
    DirProg (Except Error Recovered) := do
  match ← transfer live owner phase phase false with
  | .error error => return .error error
  | .ok () => finish live result

/-- `recover_growth` of a slab that was not linked. -/
def recoverUnlinked (live owner : Nat) (phase : Phase) (offset : Nat) :
    DirProg (Except Error Recovered) := do
  match ← mutationState with
  | .clean =>
    match ← claimHeapAndTransfer live owner phase with
    | .error error => return .error error
    | .ok () =>
      deallocateDuring live offset
      clearPending live
      commitMutation
      let _ ← commit live .held []
      return .ok .rolledBack
  | .owned found => return .error (.busy found)
  | .poisoned => recoverLinked live owner phase .quarantined

/-- `recover_growth` for the owner of the transaction from the link of the predecessor on. -/
def recoverLink (live owner : Nat) (phase : Phase) (dead : Bool) (offset link : Nat) :
    DirProg (Except Error Recovered) := do
  if link = offset then recoverLinked live owner phase .retained
  else if link ≠ 0 then recoverLinked live owner phase .quarantined
  else if dead then
    poisonDead owner
    recoverUnlinked live owner phase offset
  else recoverUnlinked live owner phase offset

def recoverGrowth (live owner : Nat) (phase : Phase) (dead : Bool) : DirProg (Except Error Recovered) := do
  match ← Prog.read .plain (·.dir.pendingSlab) with
  | 0 => return .error .stale
  | predecessor + 1 =>
    match ← offsetOf (← Prog.read .plain (·.dir.pending)) with
    | .error error => return .error error
    | .ok offset =>
      match ← slab predecessor with
      | .error error => return .error error
      | .ok () => recoverLink live owner phase dead offset (← loadNext predecessor)

/-- `recover` for a dead owner of the transaction. -/
def recoverOwned (live dead : Nat) (phase : Phase) : DirProg (Except Error Recovered) := do
  let kind ← Prog.read .plain (·.dir.pendingKind)
  if phase ≠ .held ∧ kind = .grow then recoverGrowth live dead phase true
  else if phase ≠ .held then
    let k ← Prog.read .plain (·.dir.pendingSlab)
    let e ← Prog.read .plain (·.dir.pendingEntry)
    recoverEntry S live dead phase kind k e
  else
    match ← transition with
    | .error error => return .error error
    | .ok none => recoverHeld live dead phase
    | .ok (some (k, e)) => recoverEntry S live dead phase kind k e

def recover (live heapRegion dead : Nat) : DirProg (Except Error Recovered) := do
  if S.region ≠ heapRegion then return .error .stale
  match ← loadTxn with
  | .clean => return .error .stale
  | .owned owner phase => if owner ≠ dead then return .error (.busy owner) else recoverOwned S live dead phase

/-- The check at the head of `resume_rollback`, by which the caller takes up the transaction. -/
def takeUp (owner : Nat) : DirProg Bool :=
  .action .resume fun s =>
    if s.dir.transaction = .owned owner .rollingBack then ({ s with dir := s.dir.setHandled true }, true)
    else (s, false)

/-- `resume_rollback` of a creation. -/
def resumeCreate (owner : Nat) : DirProg (Except Error Unit) := do
  match ← beginMutation owner true with
  | .error error =>
    dropTransaction owner .rollingBack
    return .error (.heap error)
  | .ok () =>
    let pending ← Prog.read .plain (·.dir.pending)
    deallocateDuring owner pending
    let k ← Prog.read .plain (·.dir.pendingSlab)
    let e ← Prog.read .plain (·.dir.pendingEntry)
    match ← entry k e with
    | .error error =>
      dropMutation
      dropTransaction owner .rollingBack
      return .error error
    | .ok () =>
      let word ← loadState k e
      settleState k e ⟨word.generation - 1, .vacant⟩
      clearPending owner
      commitMutation
      let _ ← commit owner .held []
      return .ok ()

/-- `resume_rollback` of a growth; when it fails, the caller leaves the transaction. -/
def resumeGrowth (owner : Nat) : DirProg (Except Error Unit) := do
  let result ← recoverGrowth owner owner .rollingBack false
  match result with
  | .ok _ => return .ok ()
  | .error error =>
    update fun d => d.setHandled false
    return .error error

/-- The load of the pending kind; a removal is not resumed. -/
def loadKindTaken : DirProg Kind :=
  .action .plain fun s =>
    (if s.dir.pendingKind = .remove then { s with dir := s.dir.setHandled false } else s, s.dir.pendingKind)

def resumeRollback (owner : Nat) : DirProg (Except Error Unit) := do
  if !(← takeUp owner) then return .error (.busy owner)
  match ← loadKindTaken with
  | .grow => resumeGrowth owner
  | .create => resumeCreate owner
  | .remove => return .error (.busy owner)

/-- `create_in` when the transaction is claimed already. -/
def createBusy (owner : Nat) (error : Error) : DirProg (Except Error Id) := do
  if error = .busy owner then
    if (← loadTxn) = .owned owner .rollingBack then
      match ← resumeRollback owner with
      | .error error => return .error error
      | .ok () => return .error .rolledBack
    else return .error error
  else return .error error

/-- `create_in` -/
def create (owner heapRegion : Nat) (storage : Option Nat) (layout : Nat) : DirProg (Except Error Id) := do
  if S.region ≠ heapRegion then return .error .stale
  if storage ≠ some layout then return .error .stale
  match ← claim owner with
  | .ok () => createHeld S owner
  | .error error => createBusy owner error

/-! ### Users of the heap -/

/-- `allocate`, after which the user writes its value. -/
def allocate (owner : Nat) : DirProg Unit := do
  match ← beginMutation owner false with
  | .error _ => return
  | .ok () =>
    .write .plain fun s => { s with heap := s.heap.enter owner }
    let offset ← .pick
    let got ← .action .plain fun s =>
      if offset ≠ 0 ∧ s.heap.block offset = .free then
        ({ s with
          heap := { (s.heap.leave owner).allot offset .user with boxes := offset :: s.heap.boxes } }, true)
      else ({ s with heap := s.heap.leave owner }, false)
    commitMutation
    if got then
      let value ← .pick
      .write .plain fun s => { s with members := Function.update s.members offset value }
    else return

/-- `release_value` of a block that the user has by value. -/
def releaseValue (owner offset : Nat) : DirProg Unit := do
  match ← beginMutation owner false with
  | .error _ => return
  | .ok () =>
    let has ← .action .plain fun s =>
      if offset ∈ s.heap.boxes then
        ({ s with
          heap := { (s.heap.enter owner).pass offset with boxes := s.heap.boxes.erase offset } }, true)
      else (s, false)
    if has then
      .write .plain fun s => { s with heap := (s.heap.leave owner).setBlock offset .free }
      commitMutation
    else commitMutation

def clearBit (word slot : Nat) : Nat :=
  if word.testBit slot then word - 2 ^ slot else word

/-- `recover_member` of the heap's header, and the check after it. -/
def recoverMember (dead : Nat) : DirProg Bool := do
  .write .plain fun s => { s with heapMembers := clearBit s.heapMembers dead }
  let members ← .read .plain (·.heapMembers)
  return !members.testBit dead

def finishRecovery (dead : Nat) : DirProg Bool := do
  match ← mutationState with
  | .clean => recoverMember dead
  | .poisoned => recoverMember dead
  | .owned owner =>
    if owner ≠ dead then return false
    if ← poisonOwner dead then recoverMember dead
    else if (← mutationState) = .poisoned then recoverMember dead
    else return false

end Operations

/-! ### Machine -/

inductive Op
  | create (owner heapRegion : Nat) (storage : Option Nat) (layout : Nat)
  | remove (owner heapRegion : Nat) (id : Id) (mapped : Nat) (fits inHeap : Bool)
  | recover (live heapRegion dead : Nat)
  | finishRecovery (live dead : Nat)
  | allocate (owner : Nat)
  | releaseValue (owner offset : Nat)
  /-- a participant joins or leaves the layout at an offset -/
  | member (owner offset word : Nat)
  deriving DecidableEq

namespace Op

def owner : Op → Nat
  | create owner _ _ _ => owner
  | remove owner _ _ _ _ _ => owner
  | recover live _ _ => live
  | finishRecovery live _ => live
  | allocate owner => owner
  | releaseValue owner _ => owner
  | member owner _ _ => owner

/-- The participant for which the operation recovers. -/
def recovers : Op → Option Nat
  | recover _ _ dead => some dead
  | finishRecovery _ dead => some dead
  | _ => none

def isDirectory : Op → Bool
  | create .. | remove .. | recover .. => true
  | _ => false

def code (S : Setup) : Op → DirProg Unit
  | create owner heapRegion storage layout => do
    let _ ← Directory.create S owner heapRegion storage layout
  | remove owner heapRegion id mapped fits inHeap => do
    let _ ← Directory.remove S owner heapRegion id mapped fits inHeap
  | recover live heapRegion dead => do
    let _ ← Directory.recover S live heapRegion dead
  | finishRecovery _ dead => do
    let _ ← Directory.finishRecovery dead
  | allocate owner => Directory.allocate owner
  | releaseValue owner offset => Directory.releaseValue owner offset
  | member _ offset word => .write .plain fun s => { s with members := Function.update s.members offset word }

end Op

/-- A participant that dies in a body leaves it torn. -/
def Heap.crash (h : Heap) (p : Nat) : Heap :=
  { h with
    bodies := h.bodies.filter (· ≠ p)
    torn := if p ∈ h.bodies then p :: h.torn else h.torn }

/-- A transaction of a participant that dies is not worked on any more. -/
def Dir.crash (d : Dir) (p : Nat) : Dir :=
  if d.transaction.wordOwner = some p then d.setHandled false else d

theorem Dir.crash_transaction (d : Dir) (p : Nat) : (d.crash p).transaction = d.transaction := by
  unfold Dir.crash
  split <;> rfl

theorem Dir.crash_other {d : Dir} {p q : Nat} (owner : d.transaction.wordOwner = some q) (other : q ≠ p) : d.crash p = d := by
  rw [Dir.crash, owner, if_neg fun h => other (Option.some.inj h)]

def machine (S : Setup) : Machine Shared Site Op where
  owner := Op.owner
  code := Op.code S
  onCrash := fun p s => { s with dir := s.dir.crash p, heap := s.heap.crash p }
  ready := fun s dead running op =>
    -- only the dead are recovered, and a mapping that is removed is one of the storage of its identifier
    (match op.recovers with | none => true | some d => dead d) &&
    (match op with
      | .remove _ _ id mapped _ _ => decide ((id, mapped) ∈ s.dir.trail.issued)
      | _ => true) &&
    (!(S.single && op.isDirectory) || running.all fun other => !(other.isDirectory && other.owner == op.owner))
  readmits := fun s running p =>
    decide (s.dir.transaction.wordOwner ≠ some p) && decide (s.heap.mutation ≠ .owned p) &&
      (!S.settled || running.all fun other => other.recovers ≠ some p)

end Evering.Directory
