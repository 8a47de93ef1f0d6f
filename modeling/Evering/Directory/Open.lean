import Evering.Directory.Finish
import Evering.Directory.Tenancy
import Evering.Interleave.Solo

/-!
# Opening a layout by its identifier

`open` and `open_recorded` check the entry of an identifier and then admit the header at the entry's offset. The
header does not record the generation, and the check is not made again. So a run records the identifier under which
the layout in each block was published, and for every layout that was opened the identifier that was asked for and
the one of the layout that was mapped. The two agree if the entry is still open under the identifier when the member
is entered in the header; they need not agree if a removal and a creation come in between.
-/

namespace Evering.Directory

open Interleave Option Views Protocol

/-- What a run records beside the shared state. -/
structure Register where
  /-- the identifier under which the layout in a block was published -/
  titles : Nat → Option Id
  /-- identifiers that were opened, each with the one of the layout that was mapped -/
  mapped : List (Id × Option Id)

def Register.init : Register := ⟨fun _ => none, []⟩

inductive Gate
  | plain
  /-- the compare-and-exchange that enters the member in the header -/
  | enter (id : Id)
  deriving DecidableEq

abbrev OpenProg (β : Type) : Type := Prog (Shared × Register) Gate β

/-- The identifier that a step publishes for a block. -/
def published (S : Setup) (s s' : Shared) (o : Nat) : Option Id :=
  match s'.dir.trail.home with
  | none => none
  | some (k, e) =>
    if (s.dir.entry k e).word.state = .pending ∧ (s'.dir.entry k e).word.state = .published ∧
        (s'.dir.entry k e).offset = o then
      some ⟨S.region, k, e, (s'.dir.entry k e).word.generation⟩
    else none

/-- A layout has a title from its publication until its block is free. -/
def Register.see (S : Setup) (s s' : Shared) (g : Register) : Register :=
  { g with titles := fun o => match published S s s' o with
    | some id => some id
    | none => if s'.heap.block o = .free then none else g.titles o }

/-- A program of the directory, with its record. -/
def tracked {β : Type} (S : Setup) (prog : DirProg β) : OpenProg β :=
  prog.observe (fun _ => .plain) (Register.see S)

/-! ### Opening -/

inductive AdmitError
  /-- permissions, bounds, status or recorded identity of the header, or `attach` -/
  | refused
  | closed
  | duplicateMember
  | contention
  deriving DecidableEq, Repr

/-- `members.fetch_and(!bit)` -/
def clearMember (owner offset : Nat) : OpenProg Unit :=
  .write .plain fun x =>
    let observed := x.1.members offset
    let cleared := if observed.testBit owner then observed - 2 ^ owner else observed
    ({ x.1 with members := Function.update x.1.members offset cleared }, x.2)

/-- `RcHeader::claim`; the layout counts as mapped if it will be `attached`. -/
def claimMember (S : Setup) (owner : Nat) (id : Id) (offset : Nat) (attached : Bool) :
    OpenProg (Except AdmitError Unit) := do
  let observed ← Prog.read .plain fun x => x.1.members offset
  if observed.testBit (S.target.bits - 1) then return .error .closed
  if observed.testBit owner then return .error .duplicateMember
  .action (.enter id) fun x =>
    if x.1.members offset = observed then
      (({ x.1 with members := Function.update x.1.members offset (observed + 2 ^ owner) },
        { x.2 with mapped := if attached then (id, x.2.titles offset) :: x.2.mapped else x.2.mapped }), .ok ())
    else (x, .error .contention)

/-- `admit_at` of a layout that exists. -/
def admitExisting (S : Setup) (owner : Nat) (id : Id) (offset : Nat) : OpenProg (Except AdmitError Unit) := do
  let fault ← Prog.pick
  if fault ≠ 0 then return .error .refused
  let status ← Prog.pick
  match ← claimMember S owner id offset (status = 0) with
  | .error error => return .error error
  | .ok () =>
    if status = 0 then return .ok ()
    -- the membership is not disarmed
    clearMember owner offset
    return .error .refused

/-- `MapDirectory::open` -/
def openAs (S : Setup) (owner : Nat) (id : Id) : OpenProg (Except Error Unit) := do
  match ← tracked S (offset S id) with
  | .error error => return .error error
  | .ok offset =>
    match ← admitExisting S owner id offset with
    | .error _ => return .error .admission
    | .ok () => return .ok ()

/-- `MapDirectory::open_recorded`: the environment decides what the record and `discover` say. -/
def openRecorded (S : Setup) (owner : Nat) (id : Id) : OpenProg (Option Unit) := do
  match ← tracked S (offset S id) with
  | .error _ => return none
  | .ok offset =>
    let fault ← Prog.pick
    if fault ≠ 0 then return none
    match ← admitExisting S owner id offset with
    | .error _ => return none
    | .ok () => return some ()

inductive OpenOp
  | create (owner heapRegion : Nat) (storage : Option Nat) (layout : Nat)
  | remove (owner heapRegion : Nat) (id : Id) (mapped : Nat) (fits inHeap : Bool)
  | openAs (owner : Nat) (id : Id)
  | openRecorded (owner : Nat) (id : Id)
  /-- a mapping is dropped -/
  | leave (owner offset : Nat)
  deriving DecidableEq

namespace OpenOp

def owner : OpenOp → Nat
  | create owner _ _ _ | remove owner _ _ _ _ _ | openAs owner _ | openRecorded owner _ | leave owner _ => owner

def code (S : Setup) : OpenOp → OpenProg Unit
  | create owner heapRegion storage layout => do
    let _ ← tracked S (Directory.create S owner heapRegion storage layout)
  | remove owner heapRegion id mapped fits inHeap => do
    let _ ← tracked S (Directory.remove S owner heapRegion id mapped fits inHeap)
  | openAs owner id => do
    let _ ← Directory.openAs S owner id
  | openRecorded owner id => do
    let _ ← Directory.openRecorded S owner id
  | leave owner offset => clearMember owner offset

end OpenOp

/-- Creations, removals and openings by any participants; nobody recovers the dead. -/
def openMachine (S : Setup) : Machine (Shared × Register) Gate OpenOp where
  owner := OpenOp.owner
  code := OpenOp.code S

/-! ### Titles -/

/-- The entry of the identifier is still open under its generation. -/
def Current (id : Id) (d : Dir) : Prop :=
  (d.entry id.slab id.entry).IsOpen ∧ (d.entry id.slab id.entry).word.generation = id.generation

/-- The member is entered while the entry is open under the identifier. -/
def Timely (_ : OpenOp) (gate : Gate) (x : Shared × Register) : Prop :=
  match gate with
  | .plain => True
  | .enter id => Current id x.1.dir

structure Titled (S : Setup) (s : Shared) (g : Register) : Prop where
  titles : ∀ {k e}, (s.dir.entry k e).IsOpen →
    g.titles (s.dir.entry k e).offset = some ⟨S.region, k, e, (s.dir.entry k e).word.generation⟩
  mapped : ∀ {id title}, (id, title) ∈ g.mapped → title = some id

theorem Titled.see {S : Setup} {s s' : Shared} {g : Register} (titled : Titled S s g) (tenant : Tenant s'.dir s'.heap)
    (kept : Kept s.dir s'.dir) : Titled S s' (g.see S s s') where
  mapped := titled.mapped
  titles := by
    intro k e is_open
    show (match published S s s' (s'.dir.entry k e).offset with
      | some id => some id
      | none => if s'.heap.block (s'.dir.entry k e).offset = Block.free then none
        else g.titles (s'.dir.entry k e).offset) = _
    rcases (kept k e).opens is_open with ⟨was, offset, generation⟩ | ⟨pending, now, -, home⟩
    · -- a block that is published in this step is not that of another open entry
      have other : published S s s' (s'.dir.entry k e).offset = none := by
        unfold published
        split
        · rfl
        · rename_i k' e' home
          refine if_neg fun ⟨pending, now, same⟩ => ?_
          obtain ⟨hk, he⟩ := tenant.apart (.inl now) is_open same
          rw [hk, he] at pending
          exact not_open_of_pending pending was
      rw [other]
      rw [if_neg (by rw [tenant.live k e is_open]; nofun), offset, generation]
      exact titled.titles was
    · have this : published S s s' (s'.dir.entry k e).offset =
          some ⟨S.region, k, e, (s'.dir.entry k e).word.generation⟩ := by
        unfold published
        rw [home]
        exact if_pos ⟨pending, now, rfl⟩
      rw [this]

def opening (S : Setup) : Protocol (Shared × Register) Gate OpenOp (Hand × (Shared → Prop)) :=
  tenancy.noting.observing (Titled S) Timely

variable {S : Setup} {op : OpenOp} {β : Type} {x y : Shared × Register} {dead : Nat → Bool}
  {views : Views OpenOp (Hand × (Shared → Prop))}
variable {w : Hand × (Shared → Prop)} {p o : Nat} {id : Id} {Q : Except AdmitError Unit → Hand × (Shared → Prop) → Prop}

theorem tracked_spec {prog : DirProg β} {Q : β → Hand × (Shared → Prop) → Prop}
    (h : tenancy.noting.Triple op prog w Q) : (opening S).Triple op (tracked S prog) w Q :=
  .observe (fun _ => trivial) (fun _ inv kept titled => titled.see (Tenants.tenant inv.1) kept) h

theorem opening_members (inv : (opening S).inv x dead views) (dir : y.1.dir = x.1.dir) (heap : y.1.heap = x.1.heap)
    (titles : y.2.titles = x.2.titles) (mapped : ∀ {id title}, (id, title) ∈ y.2.mapped → title = some id) :
    (opening S).inv y dead views ∧ (opening S).guar x y := by
  obtain ⟨⟨tenants, notes⟩, titled⟩ := inv
  have tenants : Tenants x.1 (Protocol.Views.left views) := tenants
  have kept : Kept x.1.dir y.1.dir := by
    rw [dir]
    exact Kept.refl _
  refine ⟨⟨⟨?_, fun view => ?_⟩, ?_⟩, kept⟩
  · constructor
    · rw [dir, heap]
      exact tenants.tenant
    · rw [dir]
      exact tenants.normal
    · rw [dir, heap]
      exact tenants.own
    · exact tenants.one
    · rw [dir, heap]
      exact tenants.rest
  · obtain ⟨holds, stable⟩ := notes view
    exact ⟨stable _ _ kept holds, stable⟩
  · constructor
    · rw [dir, titles]
      exact titled.titles
    · exact mapped

theorem clearMember_spec {Q : Unit → Hand × (Shared → Prop) → Prop}
    (q : Q () w) : (opening S).Triple op (clearMember p o) w Q := by
  refine .write fun x dead views t inv view _ => ⟨w, ?_⟩
  rw [update_same view]
  exact and_assoc.mp ⟨opening_members inv rfl rfl rfl inv.2.mapped, q⟩

theorem claimMember_spec {attached : Bool} (home : id.region = S.region) (q : ∀ r, Q r (none, fun s => Noted id o s.dir)) :
    (opening S).Triple op (claimMember S p id o attached) (none, fun s => Noted id o s.dir) Q := by
  refine .seq (R := fun _ w => w = (none, fun s => Noted id o s.dir))
    (.peek (fun x => Kept.refl x.1.dir) fun _ => rfl) ?_
  intro observed w same
  subst same
  split
  · exact q _
  split
  · exact q _
  refine .action fun x dead views t inv view current => ⟨(none, fun s => Noted id o s.dir), ?_⟩
  rw [update_same view]
  by_cases same : x.1.members o = observed
  · rw [if_pos same]
    refine and_assoc.mp ⟨opening_members inv rfl rfl rfl fun mem => ?_, q _⟩
    split at mem
    · rcases List.mem_cons.mp mem with new | old
      · -- the entry is open with the offset that was read, and so the block has its title
        obtain ⟨is_open, generation⟩ : Current id x.1.dir := current
        have noted : Noted id o x.1.dir := (inv.1.2 view).1
        have title := inv.2.titles is_open
        rw [noted.offset is_open generation, generation, ← home] at title
        rw [Prod.mk.injEq] at new
        rw [new.1, new.2]
        exact title
      · exact inv.2.mapped old
    · exact inv.2.mapped mem
  · rw [if_neg same]
    exact ⟨inv, Kept.refl _, q _⟩

theorem admitExisting_spec (home : id.region = S.region) (q : ∀ r, Q r (none, fun s => Noted id o s.dir)) :
    (opening S).Triple op (admitExisting S p id o) (none, fun s => Noted id o s.dir) Q := by
  refine .pick fun fault => ?_
  split
  · exact q _
  refine .pick fun status => ?_
  refine .seq (R := fun _ w => w = (none, fun s => Noted id o s.dir)) (claimMember_spec home fun _ => rfl) ?_
  intro r w same
  subst same
  cases r with
  | error error => exact q _
  | ok _ =>
    simp only
    split
    · exact q _
    · refine .seq (R := fun _ w => w = (none, fun s => Noted id o s.dir)) (clearMember_spec rfl) ?_
      intro _ w same
      subst same
      exact q _

theorem openAs_spec (p : Nat) (id : Id) :
    (opening S).Triple op (openAs S p id) (none, fun _ => True) fun _ w => w.1 = none := by
  refine .seq (tracked_spec (offset_spec S id)) ?_
  intro r (v, fact) ⟨same, noted⟩
  subst same
  cases r with
  | error error => rfl
  | ok o =>
    obtain ⟨home, rfl⟩ := noted o rfl
    refine .seq (R := fun _ w => w.1 = none) (admitExisting_spec home fun _ => rfl) ?_
    intro r w ended
    cases r <;> exact ended

theorem openRecorded_spec (p : Nat) (id : Id) :
    (opening S).Triple op (openRecorded S p id) (none, fun _ => True) fun _ w => w.1 = none := by
  refine .seq (tracked_spec (offset_spec S id)) ?_
  intro r (v, fact) ⟨same, noted⟩
  subst same
  cases r with
  | error error => rfl
  | ok o =>
    obtain ⟨home, rfl⟩ := noted o rfl
    refine .pick fun fault => ?_
    split
    · rfl
    refine .seq (R := fun _ w => w.1 = none) (admitExisting_spec home fun _ => rfl) ?_
    intro r w ended
    cases r <;> exact ended

theorem code_spec (op : OpenOp) : (opening S).Triple op (op.code S) (none, fun _ => True) fun _ w => (opening S).idle w := by
  cases op with
  | create p heapRegion storage layout =>
    refine .seq (tracked_spec (create_hand S (Q := fun _ v => v = none) fun _ => rfl).noting) ?_
    exact fun _ w ended => ended.1
  | remove p heapRegion id mapped fits inHeap =>
    exact .seq (tracked_spec (remove_spec S heapRegion mapped id fits inHeap)) fun _ w ended => ended
  | openAs p id => exact .seq (openAs_spec p id) fun _ w ended => ended
  | openRecorded p id => exact .seq (openRecorded_spec p id) fun _ w ended => ended
  | leave p o =>
    exact clearMember_spec rfl

/-! ### Runs -/

theorem Tenants.spawn {ω : Type} {s : Shared} {views : Views ω Hand} {t : Nat} {op : ω} (inv : Tenants s views) :
    Tenants s (Function.update views t (some (op, none))) where
  tenant := inv.tenant
  normal := inv.normal
  rest := inv.rest
  own := by
    intro u op' d h at_u
    rcases update_cases at_u with ⟨-, -, absent⟩ | ⟨-, old⟩
    · cases absent
    · exact inv.own old
  one := by
    intro u u' op₁ op₂ x y at_u at_u'
    rcases update_cases at_u with ⟨-, -, absent⟩ | ⟨-, old⟩
    · cases absent
    rcases update_cases at_u' with ⟨-, -, absent⟩ | ⟨-, old'⟩
    · cases absent
    · exact inv.one old old'

theorem Tenants.sub {ω : Type} {s : Shared} {views views' : Views ω Hand} (inv : Tenants s views)
    (sub : ∀ u x, views' u = some x → views u = some x) : Tenants s views' where
  tenant := inv.tenant
  normal := inv.normal
  rest := inv.rest
  own := fun at_u => inv.own (sub _ _ at_u)
  one := fun at_u at_u' => inv.one (sub _ _ at_u) (sub _ _ at_u')

theorem opening_sub {views' : Views OpenOp (Hand × (Shared → Prop))} (inv : (opening S).inv x dead views)
    (sub : ∀ u z, views' u = some z → views u = some z) : (opening S).inv x dead views' := by
  refine ⟨⟨Tenants.sub inv.1.1 fun u z at_u => ?_, fun view => inv.1.2 (sub _ _ view)⟩, inv.2⟩
  obtain ⟨w, at_w, same⟩ := map_eq_some_iff.mp at_u
  exact map_eq_some_iff.mpr ⟨w, sub _ _ at_w, same⟩

theorem opening_sound (S : Setup) : (opening S).Sound (openMachine S) (.init, .init) where
  init := by
    have shut : ∀ k e, ¬(Shared.init.dir.entry k e).IsOpen := by
      intro k e is_open
      rcases is_open with is | is <;> cases is
    refine ⟨⟨⟨⟨fun k e is_open => ?_, fun is_open => ?_⟩, nofun, nofun, nofun, fun _ => rfl⟩, nofun⟩, ?_, nofun⟩
    · exact absurd is_open (shut k e)
    · exact absurd is_open (shut _ _)
    · exact fun is_open => absurd is_open (shut _ _)
  spawn := by
    intro x dead views t op ops inv _ _ _ _
    refine ⟨(none, fun _ => True), ⟨⟨?_, fun view => ?_⟩, inv.2⟩, code_spec op⟩
    · rw [left_update]
      exact Tenants.spawn inv.1.1
    · exact notes_update inv.1.2 (Kept.refl x.1.dir) trivial (fun _ _ _ => id) view
  retire := by
    intro x dead views t op v inv view _
    exact opening_sub inv fun u z at_u => (retire_some at_u).2
  crash := by
    intro x dead views p inv _
    refine ⟨opening_sub inv fun u z at_u => ?_, Kept.refl _⟩
    exact (filter_eq_some_iff.mp at_u).1
  rejoin := nofun
  refl := fun x => Kept.refl x.1.dir

instance (x : Entry) : Decidable x.IsOpen := inferInstanceAs (Decidable (_ ∨ _))

instance (op : OpenOp) (gate : Gate) (x : Shared × Register) : Decidable (Timely op gate x) :=
  match gate with
  | .plain => .isTrue trivial
  | .enter _ => inferInstanceAs (Decidable (_ ∧ _))

/-- Runs in which every member is entered while the entry of the identifier is open under it. -/
def OnTime : Config (Shared × Register) Gate OpenOp → Step OpenOp → Prop :=
  Allowed Timely fun _ _ => True

instance (c : Config (Shared × Register) Gate OpenOp) (st : Step OpenOp) : Decidable (OnTime c st) :=
  inferInstanceAs (Decidable (Allowed Timely _ c st))

/-- In every run of creations, removals and openings, with crashes at any step, in which every member is entered
while the entry is open under the identifier, every layout that is opened is the one published under it. -/
theorem open_generation (S : Setup) {c : Config (Shared × Register) Gate OpenOp}
    (run : (openMachine S).Run OnTime (.start (.init, .init)) c) {id : Id} {title : Option Id}
    (opened : (id, title) ∈ c.shared.2.mapped) : title = some id := by
  obtain ⟨views, inv, -, -⟩ := (opening_sound S).run (opening_sound S).start run
  exact inv.2.mapped opened

/-- The steps of a creation in the first entry, which gets the block at `offset`. -/
def createFirst (t offset : Nat) : List (Step OpenOp) :=
  .spawn (.create 0 1 (some 8) 8) :: List.replicate 5 (.run t 0) ++ .run t offset :: List.replicate 15 (.run t 0)

/-- A layout is created and opened. -/
theorem open_generation_created : ∃ c id title,
    (openMachine releaseBuild).Run OnTime (.start (.init, .init)) c ∧ (id, title) ∈ c.shared.2.mapped ∧
      title = some id := by
  have steps : ((openMachine releaseBuild).execIf OnTime (.start (.init, .init))
      (createFirst 0 64 ++ .spawn (.openAs 1 ⟨1, 0, 0, 1⟩) :: List.replicate 6 (.run 1 0))).map
      (fun c => c.shared.2.mapped) = some [(⟨1, 0, 0, 1⟩, some ⟨1, 0, 0, 1⟩)] := by decide +kernel
  obtain ⟨c, run, mapped⟩ := Machine.exists_run steps
  have opened : ((⟨1, 0, 0, 1⟩, some ⟨1, 0, 0, 1⟩) : Id × Option Id) ∈ c.shared.2.mapped := by
    rw [mapped]
    exact List.mem_singleton_self _
  exact ⟨c, _, _, run, opened, open_generation releaseBuild run opened⟩

/-- A participant has checked the entry of an identifier. The layout is removed, another one is created in the same
entry and the same block, and the participant opens this one. -/
theorem open_later_generation : ∃ c, (openMachine releaseBuild).Run Uncrashed (.start (.init, .init)) c ∧
    c.threads 1 = none ∧ c.shared.2.mapped = [(⟨1, 0, 0, 1⟩, some ⟨1, 0, 0, 2⟩)] := by
  have steps : ((openMachine releaseBuild).execIf Uncrashed (.start (.init, .init))
      (createFirst 0 64 ++ .spawn (.openAs 1 ⟨1, 0, 0, 1⟩) :: List.replicate 2 (.run 1 0) ++
        .spawn (.remove 0 1 ⟨1, 0, 0, 1⟩ 64 true true) :: List.replicate 20 (.run 2 0) ++
        createFirst 3 64 ++ List.replicate 4 (.run 1 0))).map
      (fun c => ((c.threads 1).isNone, c.shared.2.mapped)) =
        some (true, [(⟨1, 0, 0, 1⟩, some ⟨1, 0, 0, 2⟩)]) := by decide +kernel
  obtain ⟨c, run, same⟩ := Machine.exists_run steps
  rw [Prod.mk.injEq, isNone_iff_eq_none] at same
  exact ⟨c, run, same⟩

end Evering.Directory
