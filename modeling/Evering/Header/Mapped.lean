import Evering.Directory.Scan
import Evering.Header.Model
import Evering.Interleave.Focus

/-!
# Layouts in a mapping

A participant maps the region at a base of its own. `admit_at` and `recorded_at` look at the address of the header in that
mapping: it has to be a multiple of the layout's alignment, as the creator has recorded it. Offsets are the same in all
mappings, addresses are not, and a mapping source promises no more than that the base is a multiple of the page.
-/

namespace Evering.Header

open Interleave List Option

structure Mapping where
  base : Nat
  size : Nat
  writable : Bool
  region : Nat
  slot : Nat

inductive ProjectionError
  | readOnly
  | arithmeticOverflow
  | outOfBounds
  | misaligned
  | admission (error : AdmitError)
  deriving DecidableEq

structure RecordedLayout where
  schema : Nat
  revision : Nat
  profile : Nat
  magic : Nat
  extent : Nat
  extentAlign : Nat
  deriving DecidableEq

section Programs

variable {L : Layout} (M : Mapping) (offset : Nat)

/-- `ref_at` of something of this size and alignment -/
def refAt (target : Target) (size align : Nat) : Except ProjectionError Unit :=
  if 2 ^ target.bits ≤ offset + size then .error .arithmeticOverflow
  else if M.size < offset + size then .error .outOfBounds
  else if (M.base + offset) % align ≠ 0 then .error .misaligned
  else .ok ()

def admitAt (conf : L.Config) (allowInit : Bool) (rounds : Nat) : HeaderProg L (Except ProjectionError Unit) := do
  if !M.writable then return .error .readOnly
  match L.storage conf with
  | none => return .error (.admission .invalidHeader)
  | some (size, align) =>
    match refAt M offset L.target size align with
    | .error error => return .error error
    | .ok () =>
      match ← admitHeader (some M.slot) conf ⟨M.region, offset, allowInit⟩ (M.base + offset) rounds with
      | .error error => return .error (.admission error)
      | .ok () => return .ok ()

/-- `MapDirectory::open` of the layout at `offset` -/
def openAt (conf : L.Config) (rounds : Nat) : HeaderProg L (Except ProjectionError Unit) := admitAt M offset conf false rounds

/-- `recorded_at`; what callers use of the record is its extent. -/
def recordedAt : HeaderProg L (Except AdmitError Nat) := do
  if (← loadStatus) ≠ .initialized then return .error (.mismatch .state)
  match ← runChecks (recordedChecks L.target (L.fixed .profile) (M.base + offset)) with
  | some field => return .error (.mismatch field)
  | none => return .ok (← observe fun s => s.field .extent)

def inspectAt : HeaderProg L (Except AdmitError (Option L.Info)) := do
  if (← loadStatus) ≠ .initialized then return .error (.mismatch .state)
  match ← runChecks (inspectChecks L ⟨M.region, offset, false⟩ (M.base + offset)) with
  | some field => return .error (.mismatch field)
  | none => return .ok (← observe fun s => s.info)

/-- `open_recorded`: the configuration is discovered from what is recorded. -/
def openRecorded (discover : L.Info → Nat → Option L.Config) (rounds : Nat) : HeaderProg L (Option L.Config) := do
  if (refAt M offset L.target recordSize 1).isOk then
    match ← recordedAt M offset with
    | .error _ => return none
    | .ok extent =>
      if extent + offset ≤ M.size ∧ (refAt M offset L.target (L.fixed .headerSize) (L.fixed .headerAlign)).isOk then
        match ← inspectAt M offset with
        | .error _ => return none
        | .ok none => return none
        | .ok (some info) =>
          match discover info extent with
          | none => return none
          | some conf =>
            match ← admitAt M offset conf false rounds with
            | .error _ => return none
            | .ok () => return some conf
      else return none
  else return none

end Programs

/-! ### What a lone participant sees -/

section Solo

variable {L : Layout} {β : Type} {oracle : Nat → Nat} {n : Nat} {s : Shared L}

def firstMismatch : List Check → (LayoutField → Nat) → Option LayoutField
  | [], _ => none
  | check :: rest, field => if check.ok (field check.field) then firstMismatch rest field else some check.field

variable {checks : List Check} {field : LayoutField → Nat}

theorem ok_of_firstMismatch (clear : firstMismatch checks field = none) :
    ∀ check ∈ checks, check.ok (field check.field) = true := by
  induction checks with
  | nil => exact fun _ mem => by cases mem
  | cons check rest ih =>
    unfold firstMismatch at clear
    split at clear
    · rename_i ok
      exact forall_mem_cons.mpr ⟨ok, ih clear⟩
    · cases clear

theorem firstMismatch_of_fails {check : Check} (mem : check ∈ checks)
    (fails : check.ok (field check.field) = false) : firstMismatch checks field ≠ none := by
  intro clear
  rw [ok_of_firstMismatch clear check mem] at fails
  cases fails

theorem observe_alike (ready : s.status = .initialized) (f : Shared L → β) :
    Prog.Alike oracle s (observe f) (.done (f s)) := by
  refine ⟨fun n k => ?_⟩
  have early : (s.early || decide (s.status ≠ .initialized)) = s.early := by simp [ready]
  show (k (f s)).solo oracle n { s with early := s.early || decide (s.status ≠ .initialized) } = _
  simp only [early]
  rfl

theorem runChecks_alike (ready : s.status = .initialized) (checks : List Check) :
    Prog.Alike oracle s (runChecks checks) (.done (firstMismatch checks s.field)) := by
  induction checks with
  | nil => exact .refl
  | cons check rest ih =>
    refine .next (observe_alike ready fun s => s.field check.field) ?_
    by_cases ok : check.ok (s.field check.field) = true
    · simp only [firstMismatch, ok, if_true]
      exact ih
    · simp only [firstMismatch, ok]
      exact .refl

/-- Two addresses that the recorded alignment does not tell apart -/
def SameAlign (s : Shared L) (a b : Nat) : Prop :=
  isPowerOfTwo (s.field .extentAlign) = true → (a % s.field .extentAlign = 0 ↔ b % s.field .extentAlign = 0)

variable {a b : Nat}

theorem SameAlign.check (same : SameAlign s a b) : (isPowerOfTwo (s.field .extentAlign) && a % s.field .extentAlign == 0) =
      (isPowerOfTwo (s.field .extentAlign) && b % s.field .extentAlign == 0) := by
  cases power : isPowerOfTwo (s.field .extentAlign) with
  | false => rfl
  | true =>
    rw [Bool.true_and, Bool.true_and, Bool.eq_iff_iff, beq_iff_eq, beq_iff_eq]
    exact same power

theorem SameAlign.recorded (same : SameAlign s a b) (target : Target) (profile : Nat) (rest : List Check) :
    firstMismatch (recordedChecks target profile a ++ rest) s.field =
      firstMismatch (recordedChecks target profile b ++ rest) s.field := by
  simp only [firstMismatch, recordedChecks, cons_append, same.check]

theorem mismatchAt_alike (same : SameAlign s a b) (conf : L.Config) (ctx : Context) :
    Prog.Alike oracle s (mismatchAt conf ctx a) (mismatchAt conf ctx b) := by
  refine .after (a := s.status) .read .read ?_
  by_cases ready : s.status = .initialized
  · simp only [ready, ne_eq, not_true_eq_false, if_false]
    have inspected : firstMismatch (inspectChecks L ctx a) s.field = firstMismatch (inspectChecks L ctx b) s.field := by
      simp only [inspectChecks, append_assoc]
      exact same.recorded ..
    refine .after (runChecks_alike ready _) ?_ .refl
    rw [inspected]
    exact runChecks_alike ready _
  · simp only [ready, ne_eq, not_false_eq_true, if_true]
    exact .refl

theorem admit_alike (same : SameAlign s a b) (slot : Option Nat) (conf : L.Config) {ctx : Context}
    (opening : ctx.allowInit = false) (rounds : Nat) :
    Prog.Alike oracle s (admitHeader slot conf ctx a rounds) (admitHeader slot conf ctx b rounds) := by
  unfold admitHeader
  cases L.storage conf with
  | none => exact .refl
  | some layout =>
    cases rounds with
    | zero => exact .refl
    | succ rounds =>
      refine .after (a := s.status) .read .read ?_
      cases s.status with
      | uninitialized =>
        simp only [opening]
        exact .refl
      | initializing => exact .refl
      | corrupted => exact .refl
      | initialized =>
        exact (mismatchAt_alike same conf ctx).bind

end Solo

section Bases

variable {L : Layout} {oracle : Nat → Nat} {s : Shared L} {M : Mapping} {base offset : Nat}

/-- What `recorded_at` finds -/
def recorded (s : Shared L) (address : Nat) : Except AdmitError Nat :=
  if s.status ≠ .initialized then .error (.mismatch .state)
  else
    match firstMismatch (recordedChecks L.target (L.fixed .profile) address) s.field with
    | some field => .error (.mismatch field)
    | none => .ok (s.field .extent)

theorem recordedAt_alike : Prog.Alike oracle s (recordedAt M offset) (.done (recorded s (M.base + offset))) := by
  unfold recorded
  refine .next .read ?_
  by_cases ready : s.status = .initialized
  · simp only [ready, ne_eq, not_true_eq_false, if_false]
    refine .next (runChecks_alike ready _) ?_
    cases firstMismatch (recordedChecks L.target (L.fixed .profile) (M.base + offset)) s.field with
    | none => exact .next (observe_alike ready _) .refl
    | some field => exact .refl
  · simp only [ready, ne_eq, not_false_eq_true, if_true]
    exact .refl

theorem SameAlign.recorded_eq {a b : Nat} (same : SameAlign s a b) : Header.recorded s a = Header.recorded s b := by
  have checks := same.recorded L.target (L.fixed .profile) []
  rw [append_nil, append_nil] at checks
  simp only [Header.recorded, checks]

theorem recorded_ok {a extent : Nat} (ok : recorded s a = .ok extent) :
    s.status = .initialized ∧ isPowerOfTwo (s.field .extentAlign) = true ∧ s.field .extentAlign ∣ a := by
  unfold recorded at ok
  split at ok
  · cases ok
  rename_i ready
  refine ⟨not_not.mp ready, ?_⟩
  split at ok
  · cases ok
  rename_i clear
  have pass := ok_of_firstMismatch clear ⟨.extentAlign, fun n => isPowerOfTwo n && a % n == 0⟩ (by simp [recordedChecks])
  simp only [Bool.and_eq_true, beq_iff_eq] at pass
  exact ⟨pass.1, Nat.dvd_of_mod_eq_zero pass.2⟩

/-- What `inspect_at` finds in an initialized header -/
def inspected (s : Shared L) (M : Mapping) (offset : Nat) : Except AdmitError (Option L.Info) :=
  match firstMismatch (inspectChecks L ⟨M.region, offset, false⟩ (M.base + offset)) s.field with
  | some field => .error (.mismatch field)
  | none => .ok s.info

theorem inspectAt_yields (ready : s.status = .initialized) :
    Prog.Alike oracle s (inspectAt M offset) (.done (inspected s M offset)) := by
  unfold inspected
  refine .next .read ?_
  simp only [ready, ne_eq, not_true_eq_false, if_false]
  refine .next (runChecks_alike ready _) ?_
  cases firstMismatch (inspectChecks L ⟨M.region, offset, false⟩ (M.base + offset)) s.field with
  | none => exact .next (observe_alike ready _) .refl
  | some field => exact .refl

theorem inspected_base (same : SameAlign s (M.base + offset) (base + offset)) :
    inspected s M offset = inspected s { M with base } offset := by
  have checks := same.recorded L.target (L.fixed .profile) (([Check.equals .magic (L.fixed .magic),
    .equals .schema (L.fixed .schema), .equals .revision (L.fixed .revision), .equals .region M.region,
    .equals .offset offset] ++ [LayoutField.headerSize, .headerAlign, .infoSchema, .infoRevision, .infoSize, .infoAlign,
      .size, .align].map fun field => .equals field (L.fixed field)))
  simp only [inspected, inspectChecks, append_assoc, checks]

theorem refAt_base {target : Target} {size align : Nat} (same : (M.base + offset) % align = 0 ↔ (base + offset) % align = 0) :
    refAt M offset target size align = refAt { M with base } offset target size align := by
  simp only [refAt, ne_eq, same]

theorem admitAt_alike (same : SameAlign s (M.base + offset) (base + offset)) {conf : L.Config}
    (fits : ∀ size align, L.storage conf = some (size, align) →
      ((M.base + offset) % align = 0 ↔ (base + offset) % align = 0)) (rounds : Nat) :
    Prog.Alike oracle s (admitAt M offset conf false rounds) (admitAt { M with base } offset conf false rounds) := by
  unfold admitAt
  split
  · exact .refl
  cases storage : L.storage conf with
  | none => exact .refl
  | some layout =>
    obtain ⟨size, align⟩ := layout
    simp only
    rw [← refAt_base (fits size align storage)]
    cases refAt M offset L.target size align with
    | error error => exact .refl
    | ok _ => exact (admit_alike same _ _ rfl rounds).bind

theorem admitAt_other (ready : s.status = .initialized) {conf : L.Config}
    (other : ∀ size align, L.storage conf = some (size, align) → align ≠ s.field .extentAlign) (rounds : Nat) :
    ∃ error, Prog.Alike oracle s (admitAt M offset conf false rounds) (.done (.error error)) := by
  unfold admitAt
  split
  · exact ⟨_, .refl⟩
  cases storage : L.storage conf with
  | none => exact ⟨_, .refl⟩
  | some layout =>
    obtain ⟨size, align⟩ := layout
    have other := other size align storage
    simp only
    cases refAt M offset L.target size align with
    | error error => exact ⟨_, .refl⟩
    | ok _ =>
      unfold admitHeader
      simp only [storage]
      cases rounds with
      | zero => exact ⟨_, .refl⟩
      | succ rounds =>
        obtain ⟨field, found⟩ : ∃ field, Prog.Alike oracle s (mismatchAt conf ⟨M.region, offset, false⟩ (M.base + offset))
            (.done (some field)) := by
          cases seen : firstMismatch (inspectChecks L ⟨M.region, offset, false⟩ (M.base + offset)) s.field with
          | some field =>
            refine ⟨field, .next .read ?_⟩
            simp only [ready, ne_eq, not_true_eq_false, if_false]
            refine .next (runChecks_alike ready _) ?_
            rw [seen]
            exact .refl
          | none =>
            have fails : firstMismatch [Check.equals .extent size, .equals .extentAlign align] s.field ≠ none := by
              refine firstMismatch_of_fails (mem_cons_of_mem _ (mem_singleton_self _)) ?_
              simpa [Check.equals] using Ne.symm other
            obtain ⟨field, found⟩ := ne_none_iff_exists'.mp fails
            refine ⟨field, .next .read ?_⟩
            simp only [ready, ne_eq, not_true_eq_false, if_false]
            refine .next (runChecks_alike ready _) ?_
            rw [seen]
            refine .next (observe_alike ready _) ?_
            simp only [storage]
            refine .next (runChecks_alike ready _) ?_
            rw [found]
            exact .refl
        refine ⟨.admission (.mismatch field), ?_⟩
        refine .next (p := admitLoop (some M.slot) conf ⟨M.region, offset, false⟩ (M.base + offset) (rounds + 1))
          (a := .error (.mismatch field)) ?_ .refl
        refine .next .read ?_
        rw [ready]
        exact .next found .refl

theorem openRecorded_alike (same : SameAlign s (M.base + offset) (base + offset))
    (header : (M.base + offset) % L.fixed .headerAlign = 0 ↔ (base + offset) % L.fixed .headerAlign = 0)
    (discover : L.Info → Nat → Option L.Config) (rounds : Nat) :
    Prog.Alike oracle s (openRecorded M offset discover rounds) (openRecorded { M with base } offset discover rounds) := by
  have record : refAt M offset L.target recordSize 1 = refAt { M with base } offset L.target recordSize 1 :=
    refAt_base (by simp only [Nat.mod_one])
  have whole : refAt M offset L.target (L.fixed .headerSize) (L.fixed .headerAlign) =
      refAt { M with base } offset L.target (L.fixed .headerSize) (L.fixed .headerAlign) := refAt_base header
  unfold openRecorded
  rw [← record, ← whole]
  split
  case isFalse => exact .refl
  refine .after recordedAt_alike (same.recorded_eq ▸ recordedAt_alike) ?_
  cases found : recorded s (M.base + offset) with
  | error error => exact .refl
  | ok extent =>
    obtain ⟨ready, power, -⟩ := recorded_ok found
    simp only
    split
    case isFalse => exact .refl
    refine .after (inspectAt_yields ready) ((inspected_base same) ▸ inspectAt_yields ready) ?_
    cases inspected s M offset with
    | error error => exact .refl
    | ok info =>
      cases info with
      | none => exact .refl
      | some info =>
        simp only
        cases discover info extent with
        | none => exact .refl
        | some conf =>
          by_cases matching : ∀ size align, L.storage conf = some (size, align) → align = s.field .extentAlign
          · refine (admitAt_alike same (fun size align storage => ?_) rounds).bind
            rw [matching size align storage]
            exact same power
          · have other : ∀ size align, L.storage conf = some (size, align) → align ≠ s.field .extentAlign := by
              intro size align storage agrees
              refine matching fun size' align' storage' => ?_
              rw [storage] at storage'
              cases storage'
              exact agrees
            have refused : ∀ M : Mapping, ∃ error,
                Prog.Alike oracle s (admitAt M offset conf false rounds) (.done (.error error)) :=
              fun M => admitAt_other ready other rounds
            obtain ⟨error, here⟩ := refused M
            obtain ⟨error', there⟩ := refused { M with base }
            refine .next here (Prog.Alike.symm ?_)
            exact .next there .refl

theorem dvd_of_openRecorded {discover : L.Info → Nat → Option L.Config} {rounds n : Nat} {conf : L.Config}
    (opened : ((openRecorded M offset discover rounds).solo oracle n s).2 = some conf) :
    s.field .extentAlign ∣ M.base + offset := by
  by_contra apart
  have refused : Prog.Alike oracle s (openRecorded M offset discover rounds) (.done none) := by
    unfold openRecorded
    split
    case isFalse => exact .refl
    refine .next recordedAt_alike ?_
    cases found : recorded s (M.base + offset) with
    | error error => exact .refl
    | ok extent => exact absurd (recorded_ok found).2.2 apart
  rw [refused.solo] at opened
  cases opened

end Bases

/-! ### Mappings at pages -/

/-- The page that every mapping begins at a multiple of -/
def pageSize : Nat := 4096

theorem mod_of_page {a b offset n : Nat} (ha : pageSize ∣ a) (hb : pageSize ∣ b) (fits : n ∣ pageSize) :
    (a + offset) % n = 0 ↔ (b + offset) % n = 0 := by
  rw [← Nat.dvd_iff_mod_eq_zero, ← Nat.dvd_iff_mod_eq_zero, Nat.dvd_add_right (fits.trans ha), Nat.dvd_add_right (fits.trans hb)]

/-- A header in the region, for those who do not know its type -/
structure Raw where
  status : Status
  field : LayoutField → Nat

section Scan

variable (target : Target) (profile : Nat) (raw : Nat → Option Raw) (M : Mapping)

/-- What `scan` finds at an offset: a record that lies in the mapping with its extent -/
def recordOf (offset : Nat) : Option RecordedLayout :=
  match raw offset with
  | none => none
  | some header =>
    let field := header.field
    if (refAt M offset target recordSize 1).isOk ∧ header.status = .initialized ∧
        firstMismatch (recordedChecks target profile (M.base + offset)) field = none ∧ offset + field .extent ≤ M.size then
      some ⟨field .schema, field .revision, field .profile, field .magic, field .extent, field .extentAlign⟩
    else none

end Scan

section Pages

variable {L : Layout} {M : Mapping} {base : Nat}

theorem recordOf_base {target : Target} {profile : Nat} {raw : Nat → Option Raw} (here : pageSize ∣ M.base)
    (there : pageSize ∣ base) (fits : ∀ offset header, raw offset = some header → header.field .extentAlign ∣ pageSize) :
    recordOf target profile raw M = recordOf target profile raw { M with base } := by
  funext offset
  unfold recordOf
  cases found : raw offset with
  | none => rfl
  | some header =>
    have record : refAt M offset target recordSize 1 = refAt { M with base } offset target recordSize 1 :=
      refAt_base (by simp only [Nat.mod_one])
    have check : (isPowerOfTwo (header.field .extentAlign) && (M.base + offset) % header.field .extentAlign == 0) =
        (isPowerOfTwo (header.field .extentAlign) && (base + offset) % header.field .extentAlign == 0) := by
      congr 1
      rw [Bool.eq_iff_iff, beq_iff_eq, beq_iff_eq]
      exact mod_of_page here there (fits offset header found)
    simp only [record, firstMismatch, recordedChecks, check]

theorem dvd_of_recordOf {target : Target} {profile offset : Nat} {raw : Nat → Option Raw} {header : Raw}
    (found : raw offset = some header) (recorded : (recordOf target profile raw M offset).isSome = true) :
    header.field .extentAlign ∣ M.base + offset := by
  unfold recordOf at recorded
  rw [found] at recorded
  dsimp only at recorded
  split at recorded
  next clear =>
    have pass := ok_of_firstMismatch clear.2.2.1 ⟨.extentAlign, fun n => isPowerOfTwo n && (M.base + offset) % n == 0⟩
      (by simp [recordedChecks])
    simp only [Bool.and_eq_true, beq_iff_eq] at pass
    exact Nat.dvd_of_mod_eq_zero pass.2
  next => cases recorded

theorem apart_of_page {a offset n : Nat} (first : n ∣ a + offset) (second : n ∣ a + pageSize + offset) : n ∣ pageSize := by
  rw [Nat.add_right_comm] at second
  exact (Nat.dvd_add_right first).mp second

end Pages

end Evering.Header
