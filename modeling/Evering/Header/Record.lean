import Evering.Header.Admit
import Evering.Header.Mapped

/-!
# What an initializer leaves and what an opener finds

Run alone, `admit` on zero storage writes the header of its configuration and context; `admit` on an initialized header
compares. For a header that was written with the same storage and context, everything agrees but possibly the information.
-/

namespace Evering.Header

open Interleave List Option

variable {L : Layout} {oracle : Nat → Nat} {n : Nat} {s : Shared L} {slot : Option Nat} {conf : L.Config} {ctx : Context}

def firstMembers : Option Nat → BitVec L.target.bits
  | none => 0
  | some slot => bit slot

/-- What a header looks like that this configuration and context have written -/
structure Written (s : Shared L) (slot : Option Nat) (conf : L.Config) (ctx : Context) : Prop where
  status : s.status = .initialized
  field : ∀ f ∈ recordFields ++ headerFields, s.field f = expected conf ctx f
  info : s.info = some (L.info conf ctx)
  members : s.members = firstMembers slot

theorem writeFields_post (value : LayoutField → Nat) (fields : List LayoutField) :
    (writeFields value fields).Post oracle s fun s' _ =>
      s' = { s with field := fun f => if f ∈ fields then value f else s.field f } := by
  induction fields generalizing s with
  | nil => exact .done (by simp)
  | cons field rest ih =>
    refine .after_write (ih.mono fun s' _ eq => eq.trans ?_)
    congr 1
    funext f
    by_cases same : f = field
    · subst same
      simp
    · simp [same]

theorem writeMembers_post :
    (writeMembers slot).Post oracle s fun s' _ => ∃ log, s' = { s with members := firstMembers slot, log } := by
  cases slot with
  | none => exact .write ⟨s.log, rfl⟩
  | some slot => exact .write ⟨.claimed slot :: s.log, rfl⟩

theorem initLayout_post : (initLayout slot conf ctx).Post oracle s fun s' r =>
    r = .ok () → (∃ n, Status.ofChoice (oracle n) = .initialized) ∧ Written s' slot conf ctx := by
  refine .bind (writeFields_post _ _) ?_
  rintro _ _ rfl
  refine .bind writeMembers_post ?_
  rintro _ _ ⟨log, rfl⟩
  refine .bind (writeFields_post _ _) ?_
  rintro _ _ rfl
  refine .after_write (.after_pick fun n => .after_write ?_)
  split
  · refine .bind (R := fun _ _ => True) (fun _ => trivial) fun _ _ _ => ?_
    exact .bind (R := fun _ _ => True) (fun _ => trivial) fun _ _ _ => .done nofun
  · rename_i made
    refine .after_write (.done fun _ => ⟨⟨n, not_not.mp made⟩, rfl, fun f mem => ?_, rfl, rfl⟩)
    rcases mem_append.mp mem with mem | mem
    · by_cases later : f ∈ headerFields
      · exact if_pos later
      · exact (if_neg later).trans (if_pos mem)
    · exact if_pos mem

theorem admit_zero_post {address rounds : Nat} : (admitHeader slot conf ctx address rounds).Post oracle (.init L) fun s' r =>
    r = .ok () → (∃ n, Status.ofChoice (oracle n) = .initialized) ∧ Written s' slot conf ctx := by
  unfold admitHeader
  cases L.storage conf with
  | none => exact .done fun accepted => by cases accepted
  | some layout =>
    cases rounds with
    | zero => exact .done fun accepted => by cases accepted
    | succ rounds =>
      refine .after_read ?_
      simp only [Shared.init]
      split
      · exact .done fun accepted => by cases accepted
      · exact .after_action initLayout_post

/-! ### Opening -/

variable {field : LayoutField → Nat}

theorem firstMismatch_eq_none {checks : List Check}
    (ok : ∀ check ∈ checks, check.ok (field check.field) = true) : firstMismatch checks field = none := by
  induction checks with
  | nil => rfl
  | cons check rest ih =>
    obtain ⟨first, others⟩ := forall_mem_cons.mp ok
    rw [firstMismatch, if_pos first]
    exact ih others

theorem firstMismatch_eq_some {checks : List Check} {check : Check}
    (others : ∀ other ∈ checks, other.field ≠ check.field → other.ok (field other.field) = true) (mem : check ∈ checks)
    (fails : check.ok (field check.field) = false) : firstMismatch checks field = some check.field := by
  induction checks with
  | nil => cases mem
  | cons first rest ih =>
    rw [firstMismatch]
    split
    case isTrue ok =>
      refine ih (forall_mem_cons.mp others).2 ((mem_cons.mp mem).resolve_left ?_)
      rintro rfl
      rw [fails] at ok
      cases ok
    case isFalse refused =>
      by_contra other
      exact refused (others first mem_cons_self fun same => other (congrArg some same))

theorem firstMismatch_append (checks more : List Check) (field : LayoutField → Nat) :
    firstMismatch (checks ++ more) field = (firstMismatch checks field).or (firstMismatch more field) := by
  induction checks with
  | nil => rfl
  | cons check rest ih =>
    simp only [cons_append, firstMismatch]
    split
    · exact ih
    · rfl

/-- A storage that the checks of a record accept at an address -/
structure Sound (L : Layout) (size align address : Nat) : Prop where
  size_lt : size < 2 ^ L.target.bits
  align_lt : align < 2 ^ L.target.bits
  record : recordSize ≤ size
  power : isPowerOfTwo align = true
  aligned : address % align = 0

variable {slot₀ : Option Nat} {conf₀ : L.Config} {ctx₀ : Context} {size align address : Nat}

variable (L) in
/-- All checks of `mismatch_at` before the information -/
def mismatchChecks (ctx : Context) (address size align : Nat) : List Check :=
  inspectChecks L ctx address ++ [.equals .extent size, .equals .extentAlign align]

theorem mismatchAt_found (ready : s.status = .initialized) (found : L.storage conf = some (size, align)) :
    Prog.Alike oracle s (mismatchAt conf ctx address) (.done ((firstMismatch (mismatchChecks L ctx address size align) s.field).or
      (if s.info = some (L.info conf ctx) then none else some .info))) := by
  refine .next .read ?_
  simp only [ready, ne_eq, not_true_eq_false, if_false]
  refine .next (runChecks_alike ready _) ?_
  rw [mismatchChecks, firstMismatch_append]
  cases firstMismatch (inspectChecks L ctx address) s.field with
  | some field => exact .refl
  | none =>
    refine .next (observe_alike ready _) ?_
    simp only [found]
    refine .next (runChecks_alike ready _) ?_
    cases firstMismatch [Check.equals .extent size, .equals .extentAlign align] s.field with
    | some field => exact .refl
    | none =>
      by_cases same : s.info = some (L.info conf ctx)
      · simp only [same, not_true_eq_false, if_true, if_false]
        exact .refl
      · simp only [same, not_false_eq_true, if_true, if_false]
        exact .refl

theorem mismatchChecks_ok (wrote : ∀ f ∈ recordFields ++ headerFields, field f = expected conf₀ ctx₀ f)
    (found₀ : L.storage conf₀ = some (size, align)) (sound : Sound L size align address) :
    ∀ check ∈ mismatchChecks L ctx₀ address size align, check.ok (field check.field) = true := by
  simp only [recordFields, headerFields, cons_append, nil_append, forall_mem_cons, not_mem_nil,
    false_implies, implies_true, and_true, expected, found₀, getD_some] at wrote
  obtain ⟨format, profile, magic, revision, schema, extent, extentAlign, region', offset', headerSize, headerAlign, infoSchema,
    infoRevision, infoSize, infoAlign, bodySize, bodyAlign⟩ := wrote
  simp only [mismatchChecks, inspectChecks, recordedChecks, Check.equals, map_cons, map_nil, cons_append,
    nil_append, forall_mem_cons, not_mem_nil, false_implies, implies_true, and_true, format, profile, magic,
    revision, schema, extent, extentAlign, region', offset', headerSize, headerAlign, infoSchema, infoRevision, infoSize,
    infoAlign, bodySize, bodyAlign, sound.size_lt, sound.align_lt, sound.record, sound.power, sound.aligned, decide_true,
    beq_self_eq_true, Bool.and_self]

theorem mismatchAt_written (written : Written s slot₀ conf₀ ctx₀) (found : L.storage conf = some (size, align))
    (found₀ : L.storage conf₀ = some (size, align)) (region : ctx.region = ctx₀.region) (offset : ctx.offset = ctx₀.offset)
    (sound : Sound L size align address) : Prog.Alike oracle s (mismatchAt conf ctx address)
      (.done (if s.info = some (L.info conf ctx) then none else some .info)) := by
  have same : mismatchChecks L ctx address size align = mismatchChecks L ctx₀ address size align := by
    simp only [mismatchChecks, inspectChecks, region, offset]
  have alike : Prog.Alike oracle s (mismatchAt conf ctx address) _ := mismatchAt_found written.status found
  rwa [same, firstMismatch_eq_none (mismatchChecks_ok written.field found₀ sound), none_or] at alike

theorem bit_and_bit {i j : Nat} (ne : i ≠ j) : (bit i &&& bit j : BitVec L.target.bits) = 0 := by
  refine BitVec.eq_of_getLsbD_eq fun k lt => ?_
  simp only [bit, BitVec.getLsbD_and, BitVec.getLsbD_twoPow]
  by_cases hi : i = k
  · simp [hi, Ne.symm (hi ▸ ne)]
  · simp [hi]

/-- **Opening.** A participant whose slot the creator does not have, and which the body accepts, is admitted to a written
header exactly if its information is the recorded one. -/
theorem admit_written_post (written : Written s slot₀ conf₀ ctx₀) (found : L.storage conf = some (size, align))
    (found₀ : L.storage conf₀ = some (size, align)) (region : ctx.region = ctx₀.region) (offset : ctx.offset = ctx₀.offset)
    (sound : Sound L size align address) (consents : ∀ n, Status.ofChoice (oracle n) = .initialized)
    (member : ∀ i, slot = some i → i < L.target.participantCapacity) (apart : ∀ i, slot = some i → slot₀ ≠ some i)
    (member₀ : ∀ i, slot₀ = some i → i < L.target.participantCapacity) (rounds : Nat) :
    (admitHeader slot conf ctx address (rounds + 1)).Post oracle s fun _ r => r = .ok () ↔ s.info = some (L.info conf ctx) := by
  unfold admitHeader
  simp only [found]
  refine .after_read ?_
  rw [written.status]
  refine .after_alike (mismatchAt_written written found found₀ region offset sound) ?_
  by_cases same : s.info = some (L.info conf ctx)
  · rw [if_pos same]
    have attached : ∀ s', ((do
        let status := Status.ofChoice (← Prog.pick)
        Prog.write () fun s =>
          let s := { s with early := s.early || decide (s.status ≠ .initialized) }
          if status = .initialized then s.admitMember slot conf ctx else s
        if status = .initialized then return .ok ()
        dropMembership slot
        return .error (if status = .initializing then .contention else .invalidHeader)) :
          HeaderProg L (Except AdmitError Unit)).Post oracle s' fun _ r => r = .ok () ↔ s.info = some (L.info conf ctx) := by
      intro s'
      refine .after_pick fun n => .after_write ?_
      simp only [consents n, if_true]
      exact .done ⟨fun _ => same, fun _ => rfl⟩
    cases slot with
    | none => exact attached s
    | some i =>
      have open' : s.members &&& closed = 0 := by
        rw [written.members]
        cases slot₀ with
        | none => exact BitVec.zero_and
        | some j =>
          have := member₀ j rfl
          refine bit_and_bit ?_
          unfold Target.participantCapacity at this
          omega
      have free : s.members &&& bit i = 0 := by
        rw [written.members]
        cases slot₀ with
        | none => exact BitVec.zero_and
        | some j => exact bit_and_bit fun eq => apart i rfl (congrArg some eq)
      refine .bind (R := fun _ r => r = .ok ()) ?_ ?_
      · refine .after_read ?_
        simp only [open', free, ne_eq, not_true_eq_false, if_false]
        refine .after_action ?_
        simp only [if_true]
        exact .done rfl
      · rintro s' _ rfl
        exact attached s'
  · rw [if_neg same]
    exact .done ⟨nofun, fun h => absurd h same⟩

/-! ### Every field -/

theorem equals_mem {f : LayoutField} (mem : f ∈ recordFields ++ headerFields) (found : L.storage conf = some (size, align)) :
    Check.equals f (expected conf ctx f) ∈ mismatchChecks L ctx address size align := by
  simp only [recordFields, headerFields, cons_append, nil_append, mem_cons, not_mem_nil, or_false] at mem
  rcases mem with rfl | rfl | rfl | rfl | rfl | rfl | rfl | rfl | rfl | rfl | rfl | rfl | rfl | rfl | rfl | rfl | rfl <;>
    simp [mismatchChecks, inspectChecks, recordedChecks, expected, found]

theorem refused_of_mismatch {field : LayoutField} (ready : s.status = .initialized) (found : L.storage conf = some (size, align))
    (finds : Prog.Alike oracle s (mismatchAt conf ctx address) (.done (some field))) (rounds : Nat) :
    (admitHeader slot conf ctx address (rounds + 1)).Post oracle s fun _ r => r = .error (.mismatch field) := by
  unfold admitHeader
  simp only [found]
  refine .after_read ?_
  rw [ready]
  exact .after_alike finds (.done rfl)

/-- **What was recorded is what is admitted.** A header that was written is accepted at any address with the recorded
alignment for the same region, offset, storage and information, and for nothing else; and whatever field of it is altered,
the refusal names that field. -/
theorem admits_what_was_recorded {s : Shared L} {rounds₀ address₀ size₀ align₀ : Nat} {oracle₀ : Nat → Nat}
    (ran : (admitHeader slot₀ conf₀ ctx₀ address₀ rounds₀).solo oracle₀ 0 (.init L) = (s, .ok ()))
    (found₀ : L.storage conf₀ = some (size₀, align₀)) (sound : Sound L size₀ align₀ address) (oracle : Nat → Nat) :
    (∀ conf ctx size align, L.storage conf = some (size, align) →
      (((mismatchAt conf ctx address).solo oracle 0 s).2 = none ↔ ctx.region = ctx₀.region ∧ ctx.offset = ctx₀.offset ∧
        size = size₀ ∧ align = align₀ ∧ L.info conf ctx = L.info conf₀ ctx₀)) ∧
    (∀ f ∈ recordFields ++ headerFields, ∀ value ≠ s.field f, ∀ slot rounds,
      (admitHeader slot conf₀ ctx₀ address (rounds + 1)).Post oracle
        { s with field := Function.update s.field f value } fun _ r =>
        r = .error (.mismatch f)) ∧
    ∀ info ≠ L.info conf₀ ctx₀, ∀ slot rounds,
      (admitHeader slot conf₀ ctx₀ address (rounds + 1)).Post oracle { s with info := some info } fun _ r =>
        r = .error (.mismatch .info) := by
  have post : (admitHeader slot₀ conf₀ ctx₀ address₀ rounds₀).Post oracle₀ (.init L) _ := admit_zero_post
  have post := post 0
  rw [ran] at post
  have written : Written s slot₀ conf₀ ctx₀ := (post rfl).2
  have accepted := mismatchChecks_ok written.field found₀ sound
  refine ⟨?_, ?_, ?_⟩
  · intro conf ctx size align found
    rw [(mismatchAt_found written.status found).solo]
    show Option.or _ _ = none ↔ _
    rw [or_eq_none_iff, written.info]
    constructor
    · rintro ⟨clear, info⟩
      have agree {f : LayoutField} (mem : f ∈ recordFields ++ headerFields) : expected conf ctx f = expected conf₀ ctx₀ f :=
        (beq_iff_eq.mp (ok_of_firstMismatch clear _ (equals_mem mem found))).symm.trans (written.field f mem)
      have extent := @agree .extent (by decide)
      have extentAlign := @agree .extentAlign (by decide)
      simp only [expected, found, found₀, getD_some] at extent extentAlign
      refine ⟨@agree .region (by decide), @agree .offset (by decide), extent, extentAlign, ?_⟩
      by_contra other
      rw [if_neg fun same => other (Option.some.inj same).symm] at info
      cases info
    · rintro ⟨region, offset, rfl, rfl, info⟩
      rw [if_pos (congrArg some info.symm)]
      simp only [mismatchChecks, inspectChecks, region, offset] at accepted ⊢
      exact ⟨firstMismatch_eq_none accepted, trivial⟩
  · intro f mem value other slot rounds
    refine refused_of_mismatch (by exact written.status) found₀ ?_ rounds
    have finds : Prog.Alike oracle { s with field := Function.update s.field f value } (mismatchAt conf₀ ctx₀ address) _ :=
      mismatchAt_found (by exact written.status) found₀
    have altered : firstMismatch (mismatchChecks L ctx₀ address size₀ align₀) (Function.update s.field f value) = some f := by
      refine firstMismatch_eq_some (fun check mem ne => ?_) (equals_mem mem found₀) ?_
      · rw [Function.update_of_ne (show check.field ≠ f from ne)]
        exact accepted check mem
      · show (Function.update s.field f value f == _) = false
        rw [Function.update_self, ← written.field f mem]
        exact beq_false_of_ne other
    rwa [altered] at finds
  · intro info other slot rounds
    refine refused_of_mismatch (by exact written.status) found₀ ?_ rounds
    have finds : Prog.Alike oracle { s with info := some info } (mismatchAt conf₀ ctx₀ address) _ :=
      mismatchAt_found (by exact written.status) found₀
    rwa [firstMismatch_eq_none accepted, if_neg fun same => other (Option.some.inj same)] at finds

/-- A magic that is not the recorded one, seen at another address -/
theorem admits_what_was_recorded_plain :
    let s := ((admitHeader (L := plainLayout) none () plainContext 4096 1).solo (fun _ => 0) 0 (.init plainLayout)).1
    (admitHeader none () plainContext 8192 1).Post (fun _ => 0) { s with field := Function.update s.field .magic 5 } fun _ r =>
      r = .error (.mismatch .magic) :=
  (admits_what_was_recorded (show (admitHeader (L := plainLayout) none () plainContext 4096 1).solo (fun _ => 0) 0 _ =
    (_, .ok ()) from rfl) rfl ⟨by decide, by decide, by decide, by decide, rfl⟩ fun _ => 0).2.1 .magic (by decide) 5
      (by decide) none 0

end Evering.Header
