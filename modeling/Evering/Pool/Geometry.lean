import Evering.Header.Mapped

/-!
# The extent of a Pool

A Pool is one allocation: the header, then for each block class the control words and the blocks. The blocks of a class are
aligned to their own size, so the alignment of the whole is that of the largest class.
-/

namespace Evering.Pool.Extent

open Interleave Header

/-- `core::alloc::Layout` -/
structure AllocLayout where
  size : Nat
  align : Nat
  deriving DecidableEq

def roundUp (n align : Nat) : Nat := (n + align - 1) / align * align

section Layouts

variable (target : Target)

/-- `Layout::from_size_align`; a size rounded up to the alignment fits in `isize`. -/
def fromSizeAlign (size align : Nat) : Option AllocLayout :=
  if isPowerOfTwo align ∧ size ≤ 2 ^ (target.bits - 1) - align then some ⟨size, align⟩ else none

/-- `Layout::extend`: the layout of both and the offset of the second -/
def AllocLayout.extend (layout next : AllocLayout) : Option (AllocLayout × Nat) :=
  let offset := roundUp layout.size next.align
  (fromSizeAlign target (offset + next.size) (max layout.align next.align)).map (·, offset)

def AllocLayout.padToAlign (layout : AllocLayout) : AllocLayout := { layout with size := roundUp layout.size layout.align }

structure Class where
  bytes : Nat
  slots : Nat
  controls : Nat
  payload : Nat
  deriving DecidableEq

structure Geometry where
  layout : AllocLayout
  classes : List Class
  deriving DecidableEq

/-- `usize::checked_shl`: only the shift is checked. -/
def checkedShl (n shift : Nat) : Option Nat := if shift < target.bits then some ((n <<< shift) % 2 ^ target.bits) else none

/-- One round of `Geometry::build` -/
def addClass (min base index : Nat) (geometry : Geometry) : Option Geometry := do
  let bytes ← checkedShl target min index
  let slots := base >>> (index / 2)
  let (layout, controls) ← geometry.layout.extend target (← fromSizeAlign target (4 * slots) 4)
  let size := bytes * slots
  if 2 ^ target.bits ≤ size then none
  let (layout, payload) ← layout.extend target (← fromSizeAlign target size bytes)
  return ⟨layout, geometry.classes ++ [⟨bytes, slots, controls, payload⟩]⟩

/-- The rounds of `Geometry::build` from `index` on -/
def addClasses (min base : Nat) : Nat → Nat → Geometry → Option Geometry
  | 0, _, geometry => some geometry
  | count + 1, index, geometry => (addClass target min base index geometry).bind (addClasses min base count (index + 1))

/-- `Geometry::build` after a header of this layout -/
def build (header : AllocLayout) (min count base : Nat) : Option Geometry :=
  (addClasses target min base count 0 ⟨header, []⟩).map fun geometry =>
    { geometry with layout := geometry.layout.padToAlign }

end Layouts

structure Info where
  min : Nat
  base : Nat
  classes : Nat
  deriving DecidableEq

/-- `Geometry::info`; a geometry has at least one class. -/
def Geometry.info (geometry : Geometry) : Option Info :=
  geometry.classes.head?.map fun first => ⟨first.bytes, first.slots, geometry.classes.length⟩

/-- `Geometry::recorded` -/
def recorded (target : Target) (header : AllocLayout) (info : Info) (extent : Nat) : Option Geometry :=
  (build target header info.min info.classes info.base).filter fun geometry =>
    decide (geometry.layout.size = extent ∧ geometry.info = some info)

/-! ### Pools in mappings -/

section Layouts

/-- `RcHeader<Storage>` on a 64-bit target -/
def headerLayout : AllocLayout := ⟨160, 8⟩

/-- `Storage` as a layout; its configuration is the information and the layout of a geometry. -/
abbrev poolLayout : Header.Layout where
  target := ⟨64, Target.supported_64⟩
  Config := Info × AllocLayout
  Info := Info
  sameInfo := inferInstance
  storage := fun conf => some (conf.2.size, conf.2.align)
  info := fun conf _ => conf.1
  fixed := fun field =>
    match field with
    | .headerSize => headerLayout.size
    | .headerAlign => headerLayout.align
    | .magic => 0xB100
    | _ => 1

/-- `pool::open` -/
def openPool (M : Mapping) (offset rounds : Nat) : HeaderProg poolLayout (Option poolLayout.Config) :=
  openRecorded M offset (fun info extent => (recorded poolLayout.target headerLayout info extent).map fun geometry =>
    (info, geometry.layout)) rounds

/-- A Pool whose blocks are all of the size of two pages, as `BlockRange::new(8192, 8192)` asks for -/
def largeBlocks : Info × AllocLayout := (⟨8192, 64, 1⟩, ⟨532480, 8192⟩)

/-- A Pool whose blocks are all of the size of a page -/
def pageBlocks : Info × AllocLayout := (⟨4096, 64, 1⟩, ⟨266240, 4096⟩)

def mappingAt (slot base : Nat) : Mapping := ⟨base, 2 ^ 24, true, 7, slot⟩

/-- The header after participant 0 has created the Pool at `offset` in its mapping -/
def created (conf : poolLayout.Config) (base offset : Nat) : Header.Shared poolLayout :=
  ((admitAt (mappingAt 0 base) offset conf true 2).solo (fun _ => 0) 0 (.init poolLayout)).1

end Layouts

end Evering.Pool.Extent

/-! ### Mappings at other pages -/

namespace Evering.Header

open Interleave Option

/-- **Admission and the mapping base.** Let every alignment divide the page: that of the header, of the layout as recorded,
of the configuration and of all layouts of the region. Then at any two bases that are multiples of the page, opening does
the same and so does a scan. If a recorded alignment does not divide the page and the layout opens at one such base, it
does not open at the next page, and a scan that comes to it fails there. -/
theorem admission_base_independent {L : Layout} (s : Shared L) (M : Mapping) (base offset rounds : Nat)
    (oracle : Nat → Nat) (n : Nat)
    (discover : L.Info → Nat → Option L.Config) (here : pageSize ∣ M.base) (header : L.fixed .headerAlign ∣ pageSize) :
    (pageSize ∣ base → s.field .extentAlign ∣ pageSize →
      (openRecorded { M with base } offset discover rounds).solo oracle n s =
        (openRecorded M offset discover rounds).solo oracle n s ∧
      ∀ conf, (∀ size align, L.storage conf = some (size, align) → align ∣ pageSize) →
        (openAt { M with base } offset conf rounds).solo oracle n s = (openAt M offset conf rounds).solo oracle n s) ∧
    (pageSize ∣ base → ∀ (S : Directory.Setup) (raw : Nat → Option Raw) (profile : Nat)
      (visit : Directory.Id → RecordedLayout → Unit → Directory.DirProg (Unit × Bool)),
      (∀ offset header, raw offset = some header → header.field .extentAlign ∣ pageSize) →
      Directory.scan S (recordOf L.target profile raw { M with base }) visit () =
        Directory.scan S (recordOf L.target profile raw M) visit ()) ∧
    (((openRecorded M offset discover rounds).solo oracle n s).2.isSome = true → ¬s.field .extentAlign ∣ pageSize →
      ((openRecorded { M with base := M.base + pageSize } offset discover rounds).solo oracle n s).2 = none) ∧
    ∀ (S : Directory.Setup) (raw : Nat → Option Raw) (profile : Nat) (x : Directory.Shared) (k e : Nat) (header : Raw),
      x.dir.Linked k → e < Directory.capacity → (x.dir.entry k e).word.state = .published →
      raw (x.dir.entry k e).offset = some header → (recordOf L.target profile raw M (x.dir.entry k e).offset).isSome = true →
      ¬header.field .extentAlign ∣ pageSize →
      ∃ error, ((Directory.scan S (recordOf L.target profile raw { M with base := M.base + pageSize })
        (fun _ _ found => pure (found, true)) ()).solo oracle n x).2 = .error error := by
  refine ⟨fun there fits => ⟨?_, fun conf fits' => ?_⟩, fun there S raw profile visit fits => ?_, fun opened apart => ?_,
    fun S raw profile x k e header linked inside published found recorded apart => ?_⟩
  · exact (openRecorded_alike (fun _ => mod_of_page here there fits) (mod_of_page here there header) discover rounds).symm.solo n
  · exact (admitAt_alike (fun _ => mod_of_page here there fits)
      (fun size align storage => mod_of_page here there (fits' size align storage)) rounds).symm.solo n
  · rw [recordOf_base here there fits]
  · obtain ⟨conf, opened⟩ := isSome_iff_exists.mp opened
    by_contra other
    obtain ⟨conf', opened'⟩ := ne_none_iff_exists'.mp other
    exact apart (apart_of_page (dvd_of_openRecorded opened) (dvd_of_openRecorded opened'))
  · rcases Directory.scanFrom_goes (fun _ _ _ => rfl) Directory.maxSlabs 0 () n with failed | all
    · exact failed
    · have there := isSome_iff_ne_none.mpr (all k e (Nat.zero_le k) linked inside published)
      exact absurd (apart_of_page (dvd_of_recordOf found recorded) (dvd_of_recordOf found there)) apart

end Evering.Header

namespace Evering.Pool.Extent

open Interleave Header

/-- Blocks of a page: the Pool opens at the base where it was created and in a mapping that begins one page later. -/
theorem page_blocks_next_page :
    ((openPool (mappingAt 1 65536) 4096 2).solo (fun _ => 0) 0 (created pageBlocks 65536 4096)).2 = some pageBlocks ∧
    (openPool (mappingAt 1 (65536 + pageSize)) 4096 2).solo (fun _ => 0) 0 (created pageBlocks 65536 4096) =
      (openPool (mappingAt 1 65536) 4096 2).solo (fun _ => 0) 0 (created pageBlocks 65536 4096) :=
  ⟨by decide +kernel, ((admission_base_independent (created pageBlocks 65536 4096) (mappingAt 1 65536) (65536 + pageSize) 4096 2
    (fun _ => 0) 0 _ (by decide) (by decide)).1 (by decide) (by decide +kernel)).1⟩

/-- The Pool is created at a multiple of its alignment and opens there for others. In a mapping that begins one page later
it does not open, and a scan of the region fails at it. -/
theorem large_blocks_next_page :
    build poolLayout.target headerLayout 8192 1 64 = some ⟨largeBlocks.2, [⟨8192, 64, 160, 8192⟩]⟩ ∧
    ((admitAt (mappingAt 0 65536) 8192 largeBlocks true 2).solo (fun _ => 0) 0 (.init poolLayout)).2 = .ok () ∧
    ((openPool (mappingAt 1 65536) 8192 2).solo (fun _ => 0) 0 (created largeBlocks 65536 8192)).2 = some largeBlocks ∧
    ((openPool (mappingAt 1 (65536 + pageSize)) 8192 2).solo (fun _ => 0) 0 (created largeBlocks 65536 8192)).2 = none ∧
    ∀ raw : Nat → Option Raw,
      raw 8192 = some ⟨(created largeBlocks 65536 8192).status, (created largeBlocks 65536 8192).field⟩ →
      (recordOf poolLayout.target 1 raw (mappingAt 1 65536) 8192).isSome = true ∧
      recordOf poolLayout.target 1 raw (mappingAt 1 (65536 + pageSize)) 8192 = none := by
  refine ⟨by decide +kernel, by decide +kernel, by decide +kernel, by decide +kernel, fun raw there => ?_⟩
  unfold recordOf
  rw [there]
  decide +kernel

end Evering.Pool.Extent
