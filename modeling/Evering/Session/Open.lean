import Evering.Header.Record
import Evering.Talc.Model

/-!
# Creating and opening a session

`create_with` and `open` build the same three layouts one after the other: the root, the directory and the heap. Each is
reserved behind the one before and admitted. What the heap records is computed from the caller's configuration: the bytes
behind its header, and the geometry of the options or, without one, the geometry that `Geometry::auto` finds. `open` has no
options.
-/

namespace Evering.Session.Opening

open Interleave Header

structure HeaderSize (target : Target) where
  size : Nat
  align : Nat
  record : recordSize ≤ size
  small : size < 2 ^ target.bits
  power : isPowerOfTwo align = true
  page : align ∣ pageSize

structure Sizes where
  target : Target
  root : HeaderSize target
  dir : HeaderSize target
  heap : HeaderSize target
  /-- where `TalcMeta` begins in the header of the heap -/
  inner : Nat

/-- A mapping of the region; it begins at a page, and the last page of the address space is not part of it. -/
structure Map (target : Target) where
  base : Nat
  size : Nat
  page : pageSize ∣ base
  room : base + size + pageSize ≤ 2 ^ target.bits

/-! ### The layouts -/

/-- A layout whose configuration and information are `()` -/
def plain (target : Target) (header : HeaderSize target) (magic : Nat) : Header.Layout where
  target := target
  Config := Unit
  Info := Unit
  sameInfo := inferInstance
  storage := fun _ => some (header.size, header.align)
  info := fun _ _ => ()
  fixed := fun field => if field = .magic then magic else if field = .headerSize then header.size
    else if field = .headerAlign then header.align else 1

structure TalcInfo where
  geometry : Talc.Geometry
  usableOffset : Nat
  usableLength : Nat
  deriving DecidableEq

/-- The geometry that `info` records for a configuration that has none -/
def noGeometry : Talc.Geometry := ⟨1, 1, 0, 0, 0, 0⟩

def talc (target : Target) (header : HeaderSize target) : Header.Layout where
  target := target
  Config := Talc.Config
  Info := TalcInfo
  sameInfo := inferInstance
  storage := fun _ => some (header.size, header.align)
  info := fun conf _ => ⟨(conf.validated target).getD noGeometry, conf.forward, conf.size⟩
  fixed := fun field => if field = .magic then 0x1234 else if field = .headerSize then header.size
    else if field = .headerAlign then header.align else 1

/-! ### Building -/

section Build

variable (S : Sizes)

inductive SessionError
  | arithmeticOverflow
  | unenoughSpace
  | participantExhausted
  /-- the assertion of `with_bound` -/
  | assertion
  | admission (error : AdmitError)
  deriving DecidableEq

abbrev rootLayout : Header.Layout := plain S.target S.root 0xABCD

abbrev dirLayout : Header.Layout := plain S.target S.dir 0xD1EC

abbrev heapLayout : Header.Layout := talc S.target S.heap

structure Heads where
  root : Header.Shared (rootLayout S)
  dir : Header.Shared (dirLayout S)
  heap : Header.Shared (heapLayout S)

def Heads.zero : Heads S := ⟨.init _, .init _, .init _⟩

variable {S}

/-- `Map::reserve` behind `offset`: where the header is and what comes next -/
def reserve (M : Map S.target) (header : HeaderSize S.target) (offset : Nat) : Except SessionError (Nat × Nat) :=
  let limit := 2 ^ S.target.bits
  if limit ≤ M.base + offset then .error .arithmeticOverflow
  else if limit ≤ M.base + offset + (header.align - 1) then .error .arithmeticOverflow
  else
    let address := (M.base + offset + (header.align - 1)) / header.align * header.align
    if limit ≤ address + header.size ∨ address < M.base then .error .arithmeticOverflow
    else if M.size < address + header.size - M.base then .error .unenoughSpace
    else .ok (address - M.base, address + header.size - M.base)

/-- The heap's configuration, bounded by what is left behind its header -/
def config (size bound : Nat) (geometry : Option Talc.Geometry) : Talc.Config := ⟨0, min size bound, geometry⟩

/-- `TalckMeta::init` succeeds. -/
def claims (M : Map S.target) (heapOffset : Nat) (conf : Talc.Config) : Bool :=
  (Talc.claim ⟨S.target, M.base + heapOffset + S.inner⟩ (.null S.target fun _ => 0) conf).isSome

/-- `Session::admit`. `join` is what `Root::join` returns. The bodies of root and directory always consent; that of the heap
consents to be attached to, and to be initialized if it can claim its memory. -/
def admitSession (M : Map S.target) (region : Nat) (allowInit : Bool) (geometry : Option Talc.Geometry) (join : Option Nat)
    (heads : Heads S) : Heads S × Except SessionError Unit :=
  match reserve M S.root 0 with
  | .error error => (heads, .error error)
  | .ok (offset, next) =>
    match (admitHeader none () ⟨region, offset, allowInit⟩ (M.base + offset) 2).solo (fun _ => 0) 0 heads.root with
    | (root, .error error) => ({ heads with root }, .error (.admission error))
    | (root, .ok ()) =>
      match join with
      | none => ({ heads with root }, .error .participantExhausted)
      | some slot =>
        match reserve M S.dir next with
        | .error error => ({ heads with root }, .error error)
        | .ok (offset, next) =>
          match (admitHeader (some slot) () ⟨region, offset, allowInit⟩ (M.base + offset) 2).solo (fun _ => 0) 0 heads.dir with
          | (dir, .error error) => ({ heads with root, dir }, .error (.admission error))
          | (dir, .ok ()) =>
            match reserve M S.heap next with
            | .error error => ({ heads with root, dir }, .error error)
            | .ok (offset, next) =>
              if M.size - next = 0 then ({ heads with root, dir }, .error .assertion)
              else
                let conf := config M.size (M.size - next) geometry
                let consents := heads.heap.status ≠ .uninitialized ∨ claims M offset conf = true
                match (admitHeader (some slot) (show (heapLayout S).Config from conf) ⟨region, offset, allowInit⟩
                  (M.base + offset) 2).solo
                    (fun _ => if consents then 0 else 3) 0 heads.heap with
                | (heap, .error error) => (⟨root, dir, heap⟩, .error (.admission error))
                | (heap, .ok ()) => (⟨root, dir, heap⟩, .ok ())

/-- `Session::create_with` -/
def createWith (M : Map S.target) (region : Nat) (options : Option Talc.Geometry) (join : Option Nat) (heads : Heads S) :
    Heads S × Except SessionError Unit := admitSession M region true options join heads

/-- `Session::open` -/
def openSession (M : Map S.target) (region : Nat) (join : Option Nat) (heads : Heads S) : Heads S × Except SessionError Unit :=
  admitSession M region false none join heads

end Build

/-! ### Reservations -/

section Reserve

variable {S : Sizes} {M : Map S.target} {header : HeaderSize S.target} {offset : Nat}

theorem align_pos (header : HeaderSize S.target) : 0 < header.align := by
  have eq : header.align = 2 ^ header.align.log2 := beq_iff_eq.mp header.power
  rw [eq]
  exact Nat.two_pow_pos _

/-- Behind `offset`, rounded up to the alignment -/
def place (header : HeaderSize S.target) (offset : Nat) : Nat :=
  (offset + (header.align - 1)) / header.align * header.align

theorem le_place (header : HeaderSize S.target) (offset : Nat) : offset ≤ place header offset := by
  have pos := align_pos header
  have split := Nat.div_add_mod (offset + (header.align - 1)) header.align
  have lt := Nat.mod_lt (offset + (header.align - 1)) pos
  unfold place
  rw [Nat.mul_comm] at split
  omega

theorem reserve_eq_ok {o next : Nat} (inside : offset ≤ M.size) : reserve M header offset = .ok (o, next) ↔
      o = place header offset ∧ next = place header offset + header.size ∧ next ≤ M.size := by
  have pos := align_pos header
  have le : header.align ≤ pageSize := Nat.le_of_dvd (by decide) header.page
  have room := M.room
  obtain ⟨q, eq⟩ := header.page.trans M.page
  have address : (M.base + offset + (header.align - 1)) / header.align * header.align = M.base + place header offset := by
    rw [eq, Nat.add_assoc, Nat.mul_add_div pos, Nat.add_mul, Nat.mul_comm q]
    rfl
  unfold reserve
  simp only [address]
  rw [if_neg (by omega), if_neg (by omega)]
  by_cases fits : place header offset + header.size ≤ M.size
  · rw [if_neg (by have : 0 < pageSize := by decide
                   omega), if_neg (by omega)]
    simp only [Except.ok.injEq, Prod.mk.injEq]
    omega
  · split
    · simp only [reduceCtorEq, false_iff]
      omega
    · rw [if_pos (by omega)]
      simp only [reduceCtorEq, false_iff]
      omega

end Reserve

/-! ### What creation records -/

section Create

variable {S : Sizes} {M M' : Map S.target} {region a b : Nat} {options : Option Talc.Geometry}

variable (S) in
def rootEnd : Nat := place S.root 0 + S.root.size

variable (S) in
def dirEnd : Nat := place S.dir (rootEnd S) + S.dir.size

variable (S) in
def heapEnd : Nat := place S.heap (dirEnd S) + S.heap.size

variable (S) in
/-- The bytes of the heap in a region of this size -/
def heapBytes (size : Nat) : Nat := min size (size - heapEnd S)

/-- What a session that was created has left in the region -/
structure Created (M : Map S.target) (region a : Nat) (options : Option Talc.Geometry) (heads : Heads S) : Prop where
  fits : heapEnd S < M.size
  root : Written heads.root none () ⟨region, place S.root 0, true⟩
  dir : Written heads.dir (some a) () ⟨region, place S.dir (rootEnd S), true⟩
  heap : Written heads.heap (some a) (show (heapLayout S).Config from ⟨0, heapBytes S M.size, options⟩)
    ⟨region, place S.heap (dirEnd S), true⟩
  valid : ((⟨0, heapBytes S M.size, options⟩ : Talc.Config).validated S.target).isSome = true

theorem validated_of_claims {heapOffset : Nat} {conf : Talc.Config} (ok : claims M heapOffset conf = true) :
    (conf.validated S.target).isSome = true := by
  unfold claims Talc.claim at ok
  simp only at ok
  split at ok
  · cases ok
  · rename_i valid
    rw [valid]
    rfl

theorem written_of_ran {L : Header.Layout} {slot : Option Nat} {conf : L.Config} {ctx : Context} {address rounds : Nat}
    {oracle : Nat → Nat} {s : Header.Shared L} (ran : (admitHeader slot conf ctx address rounds).solo oracle 0 (.init L) =
      (s, .ok ())) :
    (∃ n, Status.ofChoice (oracle n) = .initialized) ∧ Written s slot conf ctx := by
  have post : (admitHeader slot conf ctx address rounds).Post oracle (.init L) _ := admit_zero_post
  have post := post 0
  rw [ran] at post
  exact post rfl

theorem createWith_ok (created : (createWith M region options (some a) (.zero S)).2 = .ok ()) :
    Created M region a options (createWith M region options (some a) (.zero S)).1 := by
  unfold createWith admitSession at created ⊢
  rcases first : reserve M S.root 0 with error | ⟨offset₁, next₁⟩
  · simp [first] at created
  obtain ⟨rfl, end₁, le₁⟩ := (reserve_eq_ok (Nat.zero_le _)).mp first
  obtain rfl : next₁ = rootEnd S := end₁
  simp only [first] at created ⊢
  rcases root : (admitHeader none () ⟨region, place S.root 0, true⟩ (M.base + place S.root 0) 2).solo (fun _ => 0) 0
    (Heads.zero S).root with ⟨root', error | _⟩
  · simp [root] at created
  simp only [root] at created ⊢
  rcases second : reserve M S.dir (rootEnd S) with error | ⟨offset₂, next₂⟩
  · simp [second] at created
  obtain ⟨rfl, end₂, le₂⟩ := (reserve_eq_ok le₁).mp second
  obtain rfl : next₂ = dirEnd S := end₂
  simp only [second] at created ⊢
  rcases dir : (admitHeader (some a) () ⟨region, place S.dir (rootEnd S), true⟩ (M.base + place S.dir (rootEnd S)) 2).solo
    (fun _ => 0) 0
    (Heads.zero S).dir with ⟨dir', error | _⟩
  · simp [dir] at created
  simp only [dir] at created ⊢
  rcases third : reserve M S.heap (dirEnd S) with error | ⟨offset₃, next₃⟩
  · simp [third] at created
  obtain ⟨rfl, end₃, le₃⟩ := (reserve_eq_ok le₂).mp third
  obtain rfl : next₃ = heapEnd S := end₃
  simp only [third] at created ⊢
  by_cases full : M.size - heapEnd S = 0
  · simp [full] at created
  simp only [full, if_false] at created ⊢
  split at created
  · cases created
  · rename_i heap' ran
    obtain ⟨⟨n, consents⟩, wrote⟩ := written_of_ran ran
    have claimed : claims M (place S.heap (dirEnd S)) (config M.size (M.size - heapEnd S) options) = true := by
      by_contra refused
      simp only [Heads.zero, Header.Shared.init, ne_eq, not_true_eq_false, false_or, refused, if_false] at consents
      cases consents
    exact ⟨by omega, (written_of_ran root).2, (written_of_ran dir).2, wrote, validated_of_claims claimed⟩

theorem sound_at (header : HeaderSize S.target) (L : Header.Layout) (target : L.target = S.target) (M : Map S.target)
    (offset : Nat) :
    Header.Sound L header.size header.align (M.base + place header offset) := by
  have le : header.align ≤ pageSize := Nat.le_of_dvd (by decide) header.page
  refine ⟨by rw [target]; exact header.small, ?_, header.record, header.power, ?_⟩
  · rw [target]
    have large : pageSize < 2 ^ S.target.bits := by
      rcases S.target.supported with h | h <;> rw [h] <;> decide
    omega
  · refine Nat.mod_eq_zero_of_dvd (Nat.dvd_add (header.page.trans M.page) ?_)
    exact Nat.dvd_mul_left ..

theorem opens {L : Header.Layout} {s : Header.Shared L} {slot₀ : Option Nat} {conf₀ : L.Config}
    {offset size align address : Nat} (slot : Option Nat) (conf : L.Config)
    (written : Written s slot₀ conf₀ ⟨region, offset, true⟩) (found : ∀ conf, L.storage conf = some (size, align))
    (sound : Header.Sound L size align address) (member : ∀ i, slot = some i → i < L.target.participantCapacity)
    (apart : ∀ i, slot = some i → slot₀ ≠ some i) (member₀ : ∀ i, slot₀ = some i → i < L.target.participantCapacity)
    (oracle : Nat → Nat) (consents : ∀ n, Status.ofChoice (oracle n) = .initialized) :
    ∃ s' r, (admitHeader slot conf ⟨region, offset, false⟩ address 2).solo oracle 0 s = (s', r) ∧
      (r = .ok () ↔ L.info conf₀ ⟨region, offset, true⟩ = L.info conf ⟨region, offset, false⟩) := by
  refine ⟨_, _, rfl, ?_⟩
  have post : (admitHeader slot conf ⟨region, offset, false⟩ address (1 + 1)).Post oracle s fun _ r =>
      r = .ok () ↔ s.info = some (L.info conf ⟨region, offset, false⟩) :=
    admit_written_post written (found conf) (found conf₀) (by rfl) (by rfl) sound consents member apart member₀ 1
  refine (post 0).trans ?_
  rw [written.info, Option.some.injEq]

/-- The geometry that `open` expects in a region of this size -/
def expectedGeometry (S : Sizes) (size : Nat) : Talc.Geometry := (Talc.Geometry.auto S.target (heapBytes S size)).getD noGeometry

/-- **What creation records, opening accepts without options.** After a successful `create_with`, another participant that
maps as many bytes anywhere opens the region exactly if the options had no geometry, or had the one that `open` computes. -/
theorem open_after_create (S : Sizes) (M M' : Map S.target) (same : M'.size = M.size) (region a b : Nat)
    (options : Option Talc.Geometry) (memberA : a < S.target.participantCapacity) (memberB : b < S.target.participantCapacity)
    (apart : a ≠ b) (created : (createWith M region options (some a) (.zero S)).2 = .ok ()) :
    (openSession M' region (some b) (createWith M region options (some a) (.zero S)).1).2 = .ok () ↔
      options = none ∨ options = some (expectedGeometry S M.size) := by
  have left := createWith_ok created
  generalize (createWith M region options (some a) (.zero S)).1 = heads at left
  have fits := left.fits
  have dirFits : dirEnd S ≤ heapEnd S := (le_place S.heap _).trans (Nat.le_add_right ..)
  have rootFits : rootEnd S ≤ dirEnd S := (le_place S.dir _).trans (Nat.le_add_right ..)
  have first : reserve M' S.root 0 = .ok (place S.root 0, rootEnd S) :=
    (reserve_eq_ok (Nat.zero_le _)).mpr ⟨rfl, rfl, by omega⟩
  have second : reserve M' S.dir (rootEnd S) = .ok (place S.dir (rootEnd S), dirEnd S) :=
    (reserve_eq_ok (by omega)).mpr ⟨rfl, rfl, by omega⟩
  have third : reserve M' S.heap (dirEnd S) = .ok (place S.heap (dirEnd S), heapEnd S) :=
    (reserve_eq_ok (by omega)).mpr ⟨rfl, rfl, by omega⟩
  have memberB' : ∀ i, some b = some i → i < S.target.participantCapacity := fun i h => Option.some.inj h ▸ memberB
  have memberA' : ∀ i, some a = some i → i < S.target.participantCapacity := fun i h => Option.some.inj h ▸ memberA
  have apart' : ∀ i, some b = some i → some a ≠ some i := fun i h h' =>
    apart ((Option.some.inj h').trans (Option.some.inj h).symm)
  obtain ⟨root, rootResult, rootRan, rootOk⟩ := opens none () left.root (fun _ => rfl)
    (sound_at S.root (rootLayout S) rfl M' 0) nofun nofun nofun (fun _ => 0) fun _ => rfl
  obtain ⟨dir, dirResult, dirRan, dirOk⟩ := opens (some b) () left.dir (fun _ => rfl)
    (sound_at S.dir (dirLayout S) rfl M' (rootEnd S)) memberB' apart' memberA' (fun _ => 0) fun _ => rfl
  obtain ⟨heap, heapResult, heapRan, heapOk⟩ := opens (some b)
    (show (heapLayout S).Config from config M'.size (M'.size - heapEnd S) none) left.heap (fun _ => rfl)
    (sound_at S.heap (heapLayout S) rfl M' (dirEnd S)) memberB' apart' memberA' (fun _ => 0) fun _ => rfl
  obtain rfl := rootOk.mpr rfl
  obtain rfl := dirOk.mpr rfl
  have ready : heads.heap.status ≠ .uninitialized := by rw [left.heap.status]; decide
  have opened : (openSession M' region (some b) heads).2 = .ok () ↔ heapResult = .ok () := by
    unfold openSession admitSession
    simp only [first, rootRan, second, dirRan, third]
    rw [if_neg (by omega)]
    simp only [ready, ne_eq, not_false_eq_true, true_or, if_true, heapRan]
    cases heapResult with
    | error error => simp
    | ok _ => simp
  rw [opened, heapOk]
  -- the two informations agree but for the geometry
  obtain ⟨geometry, valid⟩ := Option.isSome_iff_exists.mp left.valid
  have recorded : (heapLayout S).info (show (heapLayout S).Config from ⟨0, heapBytes S M.size, options⟩)
      ⟨region, place S.heap (dirEnd S), true⟩ = (⟨geometry, 0, heapBytes S M.size⟩ : TalcInfo) := by
    show (⟨(Talc.Config.validated S.target ⟨0, heapBytes S M.size, options⟩).getD noGeometry, 0, heapBytes S M.size⟩ : TalcInfo)
      = _
    rw [valid]
    rfl
  have asked : (heapLayout S).info (show (heapLayout S).Config from config M'.size (M'.size - heapEnd S) none)
      ⟨region, place S.heap (dirEnd S), false⟩ = (⟨expectedGeometry S M.size, 0, heapBytes S M.size⟩ : TalcInfo) := by
    rw [same]
    rfl
  rw [recorded, asked]
  have only : (⟨geometry, 0, heapBytes S M.size⟩ : TalcInfo) = ⟨expectedGeometry S M.size, 0, heapBytes S M.size⟩ ↔
      geometry = expectedGeometry S M.size := by simp
  refine Iff.trans only ?_
  cases options with
  | none =>
    have auto : Talc.Geometry.auto S.target (heapBytes S M.size) = some geometry := valid
    simp [expectedGeometry, auto]
  | some explicit =>
    have kept : explicit = geometry := by
      unfold Talc.Config.validated at valid
      simp only at valid
      split at valid
      · exact Option.some.inj valid
      · cases valid
    simp [kept]

end Create

/-! ### A region of one mebibyte -/

/-- `RcHeader` with its three bodies on a 64-bit target: 136 bytes of fields, then `Root` with 63 words, `Directory` with 71, or
24 bytes of `TalcInfo` and `TalckMeta` with four words -/
def pageHeaders : Sizes where
  target := ⟨64, Target.supported_64⟩
  root := ⟨640, 8, by decide, by decide, by decide, by decide⟩
  dir := ⟨704, 8, by decide, by decide, by decide, by decide⟩
  heap := ⟨192, 8, by decide, by decide, by decide, by decide⟩
  inner := 168

def mebibyte : Map pageHeaders.target := ⟨0x100000, 0x100000, by decide, by decide⟩

/-- The same region, mapped by another process -/
def elsewhere : Map pageHeaders.target := ⟨0x700000, 0x100000, by decide, by decide⟩

/-- Without options the second participant opens what the first created. -/
theorem open_after_create_mebibyte :
    (openSession elsewhere 7 (some 1) (createWith mebibyte 7 none (some 0) (.zero pageHeaders)).1).2 = .ok () :=
  (open_after_create pageHeaders mebibyte elsewhere rfl 7 0 1 none (by decide) (by decide) (by decide)
    (by decide +kernel)).mpr (.inl rfl)

/-- `Geometry::new(extent, 5, 10, 2)`, which has four divisions of an octave where `auto` has two -/
def fourDivisions : Talc.Geometry := .candidate 19 10 5 2

/-- The same region, created with a geometry of its own, is refused. -/
theorem explicit_geometry_not_opened :
    (createWith mebibyte 7 (some fourDivisions) (some 0) (.zero pageHeaders)).2 = .ok () ∧
      (openSession elsewhere 7 (some 1) (createWith mebibyte 7 (some fourDivisions) (some 0) (.zero pageHeaders)).1).2 =
        .error (.admission (.mismatch .info)) := by
  decide +kernel

end Evering.Session.Opening
