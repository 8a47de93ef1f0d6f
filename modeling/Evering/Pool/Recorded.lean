import Evering.Pool.Create
import Evering.Pool.Model

/-!
# Opening a recorded geometry

The opener of a Pool reads three numbers and the extent from the shared header and rebuilds the geometry. It compares the size and
the numbers of what it has built, but neither the number of classes nor the slots that are left for the last class are
checked. The model of `recorded` is refined here by the places where the source panics.
-/

namespace Evering.Pool.Extent

open Header List Option

inductive Panic
  /-- `self.classes[0]` -/
  | indexOutOfBounds
  /-- `% class.slots` -/
  | divisionByZero
  /-- `Vec::with_capacity` -/
  | capacityOverflow
  deriving DecidableEq

/-- `size_of::<Class>()`: four words -/
def classBytes (target : Target) : Nat := 4 * (target.bits / 8)

/-- `Geometry::recorded`, with its panics; `try_from` refuses what is no `usize` or no `u32`. -/
def recordedRun (target : Target) (header : AllocLayout) (info : Info) (extent : Nat) : Except Panic (Option Geometry) :=
  if 2 ^ target.bits ≤ info.min ∨ 2 ^ 32 ≤ info.classes ∨ 2 ^ target.bits ≤ info.base then .ok none
  else if 2 ^ (target.bits - 1) ≤ info.classes * classBytes target then .error .capacityOverflow
  else
    match build target header info.min info.classes info.base with
    | none => .ok none
    | some geometry =>
      if geometry.layout.size ≠ extent then .ok none
      else
        match geometry.info with
        | none => .error .indexOutOfBounds
        | some info' => .ok (if info' = info then some geometry else none)

def Geometry.storage (geometry : Geometry) (target : Target) (id : Nat) : Storage :=
  ⟨target, id, geometry.classes.map fun cls => ⟨cls.bytes, cls.slots⟩⟩

/-- The slots of the classes that `claim` goes through, from one class on -/
def probesRun (target : Target) : List (Pool.Class × Nat) → Except Panic (List (Nat × Nat))
  | [] => .ok []
  | (cls, index) :: rest =>
    if cls.slots = 0 then .error .divisionByZero
    else
      let start := index * 0x9e37 % 2 ^ target.bits % cls.slots
      (probesRun target rest).map ((List.range cls.slots).map (fun probe => (index, (start + probe) % cls.slots)) ++ ·)

/-- The slots that `PoolRef::claim` goes through if none of them is free, with its panics -/
def claimRun (pool : Storage) (size align : Nat) : Except Panic (Except ReserveError (List (Nat × Nat))) :=
  if size = 0 then .ok (.ok [])
  else
    match pool.target.checkedNextPowerOfTwo (max size align) with
    | none => .ok (.error .blockTooLarge)
    | some needed =>
      match pool.classes with
      | [] => .error .indexOutOfBounds
      | first :: _ =>
        let preferred := (max needed first.bytes).log2 - first.bytes.log2
        if preferred ≥ pool.classes.length then .ok (.error .blockTooLarge)
        else (probesRun pool.target (pool.classes.zipIdx.drop preferred)).map .ok

/-! ### The refinement -/

section Refine

variable {target : Target} {header : AllocLayout} {info : Info} {extent min base count index : Nat} {geometry : Geometry}

theorem addClasses_count_le {start : Geometry} (built : addClasses target min base count index start = some geometry)
    (pos : 0 < count) : index + count ≤ target.bits := by
  induction count generalizing index start with
  | zero => cases pos
  | succ count ih =>
    obtain ⟨middle, added, rest⟩ := bind_eq_some_iff.mp built
    have shift := (addClass_some_iff.mp added).1.shift
    by_cases last : count = 0
    · omega
    · have := ih rest (by omega)
      omega

theorem build_count_le (built : build target header min count base = some geometry) : count ≤ target.bits := by
  obtain ⟨unpadded, added, -⟩ := map_eq_some_iff.mp built
  by_cases none : count = 0
  · omega
  · have := addClasses_count_le added (by omega)
    omega

theorem build_base_lt (pos : 0 < count) (built : build target header min count base = some geometry) :
    base < 2 ^ target.bits := by
  obtain ⟨unpadded, added, -⟩ := map_eq_some_iff.mp built
  obtain ⟨rest, rfl⟩ := Nat.exists_eq_succ_of_ne_zero (Nat.ne_of_gt pos)
  obtain ⟨middle, first, -⟩ := bind_eq_some_iff.mp added
  have words : 4 * base ≤ 2 ^ (target.bits - 1) - 4 := (addClass_some_iff.mp first).1.words
  have half : 2 ^ (target.bits - 1) ≤ 2 ^ target.bits := Nat.pow_le_pow_right (by decide) (Nat.sub_le ..)
  have some_ := Nat.two_pow_pos (target.bits - 1)
  omega

theorem recorded_fits (h : recorded target header info extent = some geometry) :
    info.min < 2 ^ target.bits ∧ info.classes < 2 ^ 32 ∧ info.base < 2 ^ target.bits := by
  obtain ⟨built, accepted⟩ := filter_eq_some_iff.mp h
  obtain ⟨-, same⟩ := decide_eq_true_eq.mp accepted
  obtain ⟨first, head, eq⟩ := map_eq_some_iff.mp same
  have count := build_count_le built
  have pos : 0 < info.classes := by
    rw [← eq]
    exact length_pos_of_mem (mem_of_mem_head? head)
  obtain ⟨-, shaped, -⟩ := build_laid pos built
  refine ⟨?_, ?_, build_base_lt pos built⟩
  · rw [List.head?_eq_getElem?] at head
    rw [← eq, (shaped 0 first head).1]
    exact Nat.mod_lt _ (Nat.two_pow_pos _)
  · have bits := target.supported
    omega

theorem recordedRun_ok {result : Option Geometry} (ran : recordedRun target header info extent = .ok result) :
    recorded target header info extent = result := by
  unfold recordedRun at ran
  split at ran
  · rename_i large
    cases ran
    refine eq_none_iff_forall_ne_some.mpr fun geometry some_ => ?_
    have := recorded_fits some_
    omega
  split at ran
  · cases ran
  unfold recorded
  match built : build target header info.min info.classes info.base with
  | none =>
    rw [built] at ran
    cases ran
    rfl
  | some geometry =>
    rw [built] at ran
    dsimp only at ran
    rw [filter_some]
    split at ran
    · rename_i other
      cases ran
      exact if_neg fun accepted => other (decide_eq_true_eq.mp accepted).1
    · rename_i size
      match same : geometry.info with
      | none =>
        rw [same] at ran
        cases ran
      | some info' =>
        rw [same] at ran
        cases ran
        rw [Decidable.not_not.mp size]
        simp only [true_and, Option.some.injEq, decide_eq_true_eq]

theorem info_of_build (built : build target header info.min info.classes info.base = some geometry)
    (small : info.min < 2 ^ target.bits) : geometry.info = if info.classes = 0 then none else some info := by
  split
  · rename_i none_
    rw [none_] at built
    cases built
    rfl
  · rename_i some_
    obtain ⟨length, shaped, -⟩ := build_laid (Nat.pos_of_ne_zero some_) built
    obtain ⟨first, rest, classes⟩ := List.exists_cons_of_length_pos (length ▸ Nat.pos_of_ne_zero some_)
    obtain ⟨bytes, slots⟩ := shaped 0 first (by rw [classes]; rfl)
    rw [Geometry.info, classes, List.head?_cons, Option.map_some, ← classes, length, bytes, slots]
    simp [Nat.mod_eq_of_lt small]

/-- Numbers that are refused before anything is built -/
abbrev Info.Refused (target : Target) (info : Info) : Prop :=
  2 ^ target.bits ≤ info.min ∨ 2 ^ 32 ≤ info.classes ∨ 2 ^ target.bits ≤ info.base

theorem recordedRun_refused (refused : info.Refused target) : recordedRun target header info extent = .ok none := if_pos refused

theorem recordedRun_built (kept : ¬info.Refused target) (few : info.classes * classBytes target < 2 ^ (target.bits - 1))
    (built : build target header info.min info.classes info.base = some geometry) (size : geometry.layout.size = extent) :
    recordedRun target header info extent = if info.classes = 0 then .error .indexOutOfBounds else .ok (some geometry) := by
  have small : info.min < 2 ^ target.bits := Nat.lt_of_not_le fun le => kept (.inl le)
  unfold recordedRun
  rw [if_neg kept, if_neg (Nat.not_le.mpr few), built]
  dsimp only
  rw [if_neg (not_not_intro size), info_of_build built small]
  by_cases none_ : info.classes = 0
  · rw [if_pos none_, if_pos none_]
  · rw [if_neg none_, if_neg none_]
    exact congrArg Except.ok (if_pos rfl)

theorem recordedRun_other (kept : ¬info.Refused target) (few : info.classes * classBytes target < 2 ^ (target.bits - 1))
    (other : ¬∃ geometry, build target header info.min info.classes info.base = some geometry ∧ geometry.layout.size = extent) :
    recordedRun target header info extent = .ok none := by
  unfold recordedRun
  rw [if_neg kept, if_neg (Nat.not_le.mpr few)]
  match built : build target header info.min info.classes info.base with
  | none => rfl
  | some geometry => exact if_pos fun size => other ⟨geometry, built, size⟩

end Refine

/-! ### A Pool that was opened -/

section Opened

variable {target : Target} {header : AllocLayout} {info : Info} {extent : Nat} {geometry : Geometry}

theorem probesRun_ok (target : Target) {rest : List (Pool.Class × Nat)} (slots : ∀ x ∈ rest, 0 < x.1.slots) :
    ∃ found, probesRun target rest = .ok found ∧ ∀ x ∈ found, ∃ cls, (cls, x.1) ∈ rest ∧ x.2 < cls.slots := by
  induction rest with
  | nil => exact ⟨[], rfl, nofun⟩
  | cons entry rest ih =>
    obtain ⟨cls, index⟩ := entry
    obtain ⟨found, ran, inside⟩ := ih fun x mem => slots x (mem_cons_of_mem _ mem)
    have some_ : 0 < cls.slots := slots _ (mem_cons_self ..)
    unfold probesRun
    rw [if_neg (Nat.ne_of_gt some_), ran]
    refine ⟨_, rfl, fun x mem => ?_⟩
    rcases mem_append.mp mem with here | there
    · obtain ⟨probe, -, rfl⟩ := mem_map.mp here
      exact ⟨cls, mem_cons_self .., Nat.mod_lt _ some_⟩
    · obtain ⟨cls', mem', lt⟩ := inside x there
      exact ⟨cls', mem_cons_of_mem _ mem', lt⟩

/-- What the operations of a Pool need of its geometry. -/
structure Usable (target : Target) (extent : Nat) (geometry : Geometry) : Prop where
  some_ : geometry.classes ≠ []
  classes : ∀ cls ∈ geometry.classes, 1 ≤ cls.slots ∧ isPowerOfTwo cls.bytes = true
  /-- `claim` goes through slots of the Pool. -/
  claims : ∀ id size align, ∃ result, claimRun (geometry.storage target id) size align = .ok result ∧
    ∀ slots, result = .ok slots → ∀ x ∈ slots, ∃ cls, geometry.classes[x.1]? = some cls ∧ x.2 < cls.slots
  /-- Words and blocks of slots, which `adopt` checks and `recover` enumerates, are inside of the extent. -/
  inside : ∀ cls ∈ geometry.classes, ∀ slot < cls.slots,
    cls.controls + 4 * slot + 4 ≤ extent ∧ cls.payload + slot * cls.bytes + cls.bytes ≤ extent

theorem claimRun_ok (some_ : geometry.classes ≠ []) (slots : ∀ cls ∈ geometry.classes, 1 ≤ cls.slots) (id size align : Nat) :
    ∃ result, claimRun (geometry.storage target id) size align = .ok result ∧
      ∀ slots, result = .ok slots → ∀ x ∈ slots, ∃ cls, geometry.classes[x.1]? = some cls ∧ x.2 < cls.slots := by
  unfold claimRun
  split
  · exact ⟨_, rfl, fun slots ok => by cases ok; nofun⟩
  split
  · exact ⟨_, rfl, nofun⟩
  split
  · rename_i none
    exact absurd (map_eq_nil_iff.mp none) some_
  dsimp only
  split
  · exact ⟨_, rfl, nofun⟩
  · rename_i first rest classes _
    generalize (max _ first.bytes).log2 - first.bytes.log2 = preferred
    have listed {cls : Pool.Class} {i : Nat} (mem : (cls, i) ∈ (geometry.storage target id).classes.zipIdx.drop preferred) :
        ∃ cls', geometry.classes[i]? = some cls' ∧ cls'.slots = cls.slots := by
      have at_i := mem_zipIdx_iff_getElem?.mp (mem_of_mem_drop mem)
      obtain ⟨cls', at_i', rfl⟩ := map_eq_some_iff.mp ((List.getElem?_map ..).symm.trans at_i)
      exact ⟨cls', at_i', rfl⟩
    have some_slots : ∀ x ∈ (geometry.storage target id).classes.zipIdx.drop preferred, 0 < x.1.slots := by
      intro x mem
      obtain ⟨cls, at_i, same⟩ := listed mem
      exact same ▸ slots cls (mem_of_getElem? at_i)
    obtain ⟨found, ran, inside⟩ := probesRun_ok target some_slots
    refine ⟨.ok found, congrArg (Except.map Except.ok) ran, fun slots ok x mem => ?_⟩
    cases ok
    obtain ⟨cls, mem', lt⟩ := inside x mem
    obtain ⟨cls', at_i, same⟩ := listed mem'
    exact ⟨cls', at_i, same ▸ lt⟩

theorem usable_of_build (some_ : 1 ≤ info.classes) (built : build target header info.min info.classes info.base = some geometry)
    (size : geometry.layout.size = extent) : Usable target extent geometry ↔ 1 ≤ info.base >>> ((info.classes - 1) / 2) := by
  obtain ⟨length, shaped, laid⟩ := build_laid some_ built
  have nonempty : geometry.classes ≠ [] := ne_nil_of_length_pos (by omega)
  have last : ∃ cls, geometry.classes[info.classes - 1]? = some cls := ⟨_, List.getElem?_eq_getElem (by omega)⟩
  constructor
  · intro usable
    obtain ⟨cls, at_last⟩ := last
    have slots := (usable.classes cls (mem_of_getElem? at_last)).1
    rwa [(shaped _ cls at_last).2, Nat.zero_add] at slots
  intro left
  have slots : ∀ cls ∈ geometry.classes, 1 ≤ cls.slots := by
    intro cls mem
    obtain ⟨i, lt, rfl⟩ := getElem_of_mem mem
    rw [(shaped i _ (List.getElem?_eq_getElem lt)).2, Nat.zero_add, Nat.shiftRight_eq_div_pow]
    rw [Nat.shiftRight_eq_div_pow] at left
    refine Nat.le_trans left (Nat.div_le_div_left (Nat.pow_le_pow_right (by decide) ?_) (Nat.two_pow_pos _))
    omega
  refine ⟨nonempty, fun cls mem => ⟨slots cls mem, (laid.aligned cls mem).1⟩, claimRun_ok nonempty slots, ?_⟩
  intro cls mem slot lt
  have words := (laid.inside (cls.controls, 4 * cls.slots) (mem_flatMap.mpr ⟨cls, mem, by simp⟩)).2
  have blocks := (laid.inside (cls.payload, cls.bytes * cls.slots) (mem_flatMap.mpr ⟨cls, mem, by simp⟩)).2
  have block : slot * cls.bytes + cls.bytes ≤ cls.bytes * cls.slots := by
    rw [← Nat.succ_mul, Nat.mul_comm]
    exact Nat.mul_le_mul_left _ lt
  dsimp only at words blocks
  omega

/-- **Recorded numbers are validated** exactly if they are refused before anything is built, or if a vector can hold their classes
and, should the extent be that of the geometry they build, they name a class and leave a slot for the last one. -/
theorem recorded_validated (target : Target) (header : AllocLayout) (info : Info) (extent : Nat) :
    (∃ result, recordedRun target header info extent = .ok result ∧ recorded target header info extent = result ∧
      ∀ geometry, result = some geometry → Usable target extent geometry) ↔
    info.Refused target ∨ info.classes * classBytes target < 2 ^ (target.bits - 1) ∧
      ((∃ geometry, build target header info.min info.classes info.base = some geometry ∧ geometry.layout.size = extent) →
        1 ≤ info.classes ∧ 1 ≤ info.base >>> ((info.classes - 1) / 2)) := by
  constructor
  · rintro ⟨result, ran, -, usable⟩
    by_cases refused : info.Refused target
    · exact .inl refused
    refine .inr ?_
    have few : info.classes * classBytes target < 2 ^ (target.bits - 1) := by
      by_contra many
      rw [recordedRun, if_neg refused, if_pos (Nat.le_of_not_lt many)] at ran
      cases ran
    refine ⟨few, ?_⟩
    rintro ⟨geometry, built, size⟩
    rw [recordedRun_built refused few built size] at ran
    split at ran
    · cases ran
    · rename_i some_
      cases ran
      have some_ := Nat.one_le_iff_ne_zero.mpr some_
      exact ⟨some_, (usable_of_build some_ built size).mp (usable geometry rfl)⟩
  · intro condition
    have done {result : Option Geometry} (ran : recordedRun target header info extent = .ok result)
        (usable : ∀ geometry, result = some geometry → Usable target extent geometry) :
        ∃ result, recordedRun target header info extent = .ok result ∧ recorded target header info extent = result ∧
          ∀ geometry, result = some geometry → Usable target extent geometry := ⟨result, ran, recordedRun_ok ran, usable⟩
    by_cases refused : info.Refused target
    · exact done (recordedRun_refused refused) nofun
    obtain ⟨few, sound⟩ := condition.resolve_left refused
    by_cases same : ∃ geometry, build target header info.min info.classes info.base = some geometry ∧
      geometry.layout.size = extent
    · have ⟨some_, left⟩ := sound same
      obtain ⟨geometry, built, size⟩ := same
      have ran := recordedRun_built refused few built size
      rw [if_neg (Nat.ne_of_gt some_)] at ran
      refine done ran fun geometry' is_some => ?_
      cases is_some
      exact (usable_of_build some_ built size).mpr left
    · exact done (recordedRun_other refused few same) nofun

/-- The numbers and the extent of a Pool with one class of 64 blocks of 64 bytes -/
theorem recorded_validated_one : ∃ result, recordedRun ⟨64, .inr rfl⟩ headerLayout ⟨64, 64, 1⟩ 4544 = .ok result ∧
    recorded ⟨64, .inr rfl⟩ headerLayout ⟨64, 64, 1⟩ 4544 = result ∧
    ∀ geometry, result = some geometry → Usable ⟨64, .inr rfl⟩ 4544 geometry :=
  (recorded_validated ..).mpr (.inr ⟨by decide, fun _ => ⟨by decide, by decide⟩⟩)

/-- Three records that are not refused: without a class the opener panics; with a class without slots it returns a Pool whose
first `claim` divides by zero; and on a 32-bit target a large number of classes overflows the capacity of a vector. -/
theorem recorded_trusted :
    recordedRun ⟨64, .inr rfl⟩ headerLayout ⟨64, 0, 0⟩ 160 = .error .indexOutOfBounds ∧
    recordedRun ⟨64, .inr rfl⟩ headerLayout ⟨64, 0, 1⟩ 192 = .ok (some ⟨⟨192, 64⟩, [⟨64, 0, 160, 192⟩]⟩) ∧
    claimRun (Geometry.storage ⟨⟨192, 64⟩, [⟨64, 0, 160, 192⟩]⟩ ⟨64, .inr rfl⟩ 0) 1 1 = .error .divisionByZero ∧
    recordedRun ⟨32, .inl rfl⟩ headerLayout ⟨64, 64, 2 ^ 27⟩ 4544 = .error .capacityOverflow := by
  exact ⟨by decide, by decide, rfl, by decide⟩

end Opened

end Evering.Pool.Extent
