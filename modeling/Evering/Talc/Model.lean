import Evering.Memory.Bitmap
import Evering.Memory.Links
import Evering.Target

/-!
# The shared heap

The heap is a memory of words with the header `TalcMeta` at offset 0. All data of the heap are offsets from there, so
that every process may map it at an address of its own; a pointer of a process is modelled by its offset, which wraps
around with the address space, and two pointers are compared by their addresses. Behind the header come a tag, the
words that say which bins are not empty, the bins, and the tag of the metadata; the rest is divided into chunks. A
chunk in use ends in a tag with its base; a free chunk begins with a node of its bin's list and with its size and ends
in its size.
-/

namespace Evering.Talc

open Memory

/-! ### Words and pointers -/

/-- Number of addresses -/
def span (T : Target) : Nat := 2 ^ T.bits

/-- `size_of::<Word>()`, also `WORD_ALIGN`, `Tag::SIZE` and `FreeTail::SIZE` -/
def wordBytes (T : Target) : Nat := T.bits / 8

/-- `FreeNode::SIZE`: a nullable link takes two words -/
def nodeBytes (T : Target) : Nat := 3 * wordBytes T

/-- `Chunk::MIN_CHUNK_SIZE` -/
def minChunkSize (T : Target) : Nat := nodeBytes T + wordBytes T

def add (T : Target) (p n : Nat) : Nat := (p + n) % span T

def sub (T : Target) (p n : Nat) : Nat := (p + span T - n) % span T

/-- A process that has mapped the heap. -/
structure Mapping where
  target : Target
  /-- address of `TalcMeta` -/
  origin : Nat

namespace Mapping

variable (V : Mapping)

def addr (p : Nat) : Nat := (V.origin + p) % span V.target

def rel (address : Nat) : Nat := (address + span V.target - V.origin) % span V.target

/-- `AlignPtr::align_up` for a power of two -/
def alignUp (p align : Nat) : Nat := V.rel ((V.addr p + align - 1) % span V.target / align * align)

end Mapping

/-! ### Tags -/

namespace Tag

/-- `Tag::init` -/
def new (base : Nat) (aboveFree : Bool) : Nat := base ||| if aboveFree then 3 else 1

def toBaseRel (T : Target) (tag : Nat) : Nat := tag &&& (span T - 1 - 3)

def isAllocated (tag : Nat) : Bool := tag.testBit 0

def isAboveFree (tag : Nat) : Bool := tag.testBit 1

def setAboveFree (tag : Nat) : Nat := tag ||| 2

def clearAboveFree (T : Target) (tag : Nat) : Nat := tag &&& (span T - 1 - 2)

end Tag

/-! ### Geometry -/

structure Geometry where
  bins : Nat
  linear : Nat
  linearShift : Nat
  exponentialLog : Nat
  divisionsLog : Nat
  reserved : Nat
  deriving DecidableEq

namespace Geometry

def minMetadata : Nat := 512
def maxMetadata : Nat := 16 * 1024
def metadataRatioShift : Nat := 10
def minLinearShift : Nat := 4
def maxDivisionsLog : Nat := 3
def defaultExponentialLog : Nat := 10
def canonicalBinBits : Nat := 129

variable (T : Target) (G : Geometry)

def divisions : Nat := 2 ^ G.divisionsLog

def availabilityWords (wordBits : Nat) : Nat := (G.bins + wordBits - 1) / wordBits

def metadataBytes : Nat := G.bins * (2 * wordBytes T) + G.availabilityWords T.bits * wordBytes T

def bin (size : Nat) : Nat :=
  let size := max size 1
  let index :=
    if size < 2 ^ G.exponentialLog then (size - 1) >>> G.linearShift
    else
      let octave := size.log2
      let division := ((size - 2 ^ octave) <<< G.divisionsLog % span T) >>> octave
      G.linear + (octave - G.exponentialLog) * G.divisions + division
  min index (G.bins - 1)

/-- `validate(extent)` is `Ok`. -/
def validate (extent : Nat) : Bool :=
  let exponential := G.bins - G.linear
  -- the subtraction wraps for the geometry of one bin
  let coveredLog := (G.exponentialLog + exponential / G.divisions + span T - 1) % span T
  !(extent < minChunkSize T || G.reserved != 0 || G.bins == 0 || G.linear == 0 ||
    G.linearShift > G.exponentialLog || G.exponentialLog ≥ T.bits || G.divisionsLog > maxDivisionsLog ||
    G.availabilityWords T.bits > T.bits || G.metadataBytes T + minMetadata > extent) &&
  !(G.linear != 2 ^ (G.exponentialLog - G.linearShift) || G.bins < 2 ^ (G.exponentialLog - G.linearShift)) &&
  !(extent.log2 < G.exponentialLog) &&
  !(exponential % G.divisions != 0) &&
  !(coveredLog < extent.log2 || G.bin T extent ≥ G.bins)

def budget (extent : Nat) : Nat :=
  let budget := extent >>> metadataRatioShift
  if budget < minMetadata then minMetadata else if budget > maxMetadata then maxMetadata else budget

/-- The geometry that `auto` tries with a shift and a number of divisions. -/
def candidate (maxLog exponentialLog linearShift divisionsLog : Nat) : Geometry :=
  let linear := 2 ^ (exponentialLog - linearShift)
  ⟨linear + (maxLog - exponentialLog + 1) * 2 ^ divisionsLog, linear, linearShift, exponentialLog, divisionsLog, 0⟩

/-- The inner loop of `auto`, from a number of divisions down. -/
def autoDivisions (maxLog exponentialLog maxBins linearShift : Nat) : Nat → Option Geometry
  | 0 =>
    let geometry := candidate maxLog exponentialLog linearShift 0
    if geometry.bins ≤ maxBins then some geometry else none
  | divisionsLog + 1 =>
    let geometry := candidate maxLog exponentialLog linearShift (divisionsLog + 1)
    if geometry.bins ≤ maxBins then some geometry
    else autoDivisions maxLog exponentialLog maxBins linearShift divisionsLog

/-- The outer loop of `auto`, which tries `n` more shifts. -/
def autoShifts (maxLog exponentialLog maxBins : Nat) : Nat → Nat → Option Geometry
  | 0, _ => none
  | n + 1, linearShift =>
    match autoDivisions maxLog exponentialLog maxBins linearShift maxDivisionsLog with
    | some geometry => some geometry
    | none => autoShifts maxLog exponentialLog maxBins n (linearShift + 1)

def auto (extent : Nat) : Option Geometry :=
  if extent < minChunkSize T then none
  else
    let maxLog := extent.log2
    let exponentialLog := min maxLog defaultExponentialLog
    let maxBins := min (min (budget extent * 8 / canonicalBinBits) (T.bits * T.bits)) (2 ^ 16 - 1)
    let linearShift := min minLinearShift exponentialLog
    (autoShifts maxLog exponentialLog maxBins (exponentialLog + 1 - linearShift) linearShift).filter
      (validate T · extent)

end Geometry

structure Config where
  forward : Nat
  size : Nat
  geometry : Option Geometry

def Config.validated (T : Target) (conf : Config) : Option Geometry :=
  match conf.geometry with
  | some geometry => if geometry.validate T conf.size then some geometry else none
  | none => Geometry.auto T conf.size

/-! ### Free chunks -/

structure TalcMeta where
  summary : Nat
  avails : Nat
  bins : Nat
  mem : Words

namespace TalcMeta

variable (T : Target) (G : Geometry) (st : TalcMeta)

/-- `TalcMeta::null`, in front of memory that is to be claimed -/
def null (mem : Words) : TalcMeta := ⟨0, span T - 1, span T - 1, mem⟩

def write (p word : Nat) : TalcMeta := { st with mem := Function.update st.mem p word }

/-- `bin_by_idx` -/
def slot (idx : Nat) : Nat := st.bins + idx * (2 * wordBytes T)

def availPtr (j : Nat) : Nat := st.avails + j * wordBytes T

def toggleAvail (idx : Nat) : TalcMeta :=
  let j := idx / T.bits
  let before := st.mem (st.availPtr T j)
  let after := flipBit before (idx % T.bits)
  { st.write (st.availPtr T j) after with summary := summarise T.bits st.summary j before after }

def nextAvailBinIdx (idx : Nat) : Option Nat :=
  if idx ≥ G.bins then none
  else
    let j := idx / T.bits
    let shifted := st.mem (st.availPtr T j) >>> (idx % T.bits)
    if shifted ≠ 0 then some (idx + trailingZeros T.bits shifted)
    else if j + 1 ≥ G.availabilityWords T.bits then none
    else
      let summary := st.summary &&& ((2 ^ T.bits - 1) <<< (j + 1) % 2 ^ T.bits)
      if summary = 0 then none
      else
        let next := trailingZeros T.bits summary
        some (next * T.bits + trailingZeros T.bits (st.mem (st.availPtr T next)))

/-- `(*head).size_low` -/
def sizeLow (head : Nat) : Nat := st.mem (head + nodeBytes T)

def insertFree (head size : Nat) : TalcMeta :=
  let idx := G.bin T size
  let next := readLink (wordBytes T) st.mem (st.slot T idx)
  let st := if next.isNone then st.toggleAvail T idx else st
  -- `FreeHead::init`, `FreeTail::init`
  let mem := link (wordBytes T) st.mem head next (st.slot T idx)
  let st := { st with mem := Function.update mem (head + nodeBytes T) size }
  st.write (sub T (add T head size) (wordBytes T)) size

def removeFree (head idx : Nat) : TalcMeta :=
  let st := { st with mem := unlink (wordBytes T) st.mem head }
  if (readLink (wordBytes T) st.mem (st.slot T idx)).isNone then st.toggleAvail T idx else st

def removeFreeByHead (head : Nat) : TalcMeta := st.removeFree T head (G.bin T (st.sizeLow T head))

end TalcMeta

/-! ### Allocating -/

structure Chunk where
  base : Nat
  acme : Nat
  deriving DecidableEq

/-- `Chunk::chunk_size` -/
def chunkSize (T : Target) (size : Nat) : Nat :=
  if size ≤ nodeBytes T then minChunkSize T
  else (size + wordBytes T + wordBytes T - 1) % span T / wordBytes T * wordBytes T

structure Acquired where
  chunk : Chunk
  allocBase : Nat
  allocAcme : Nat

section Allocate

variable (V : Mapping) (G : Geometry) (st : TalcMeta)

def isChunk (chunk : Chunk) : Bool :=
  !(V.addr chunk.acme < V.addr chunk.base) && minChunkSize V.target ≤ sub V.target chunk.acme chunk.base

/-- The list of one bin, from a node on. The first argument bounds the nodes that are looked at, and the result is
`none` if the bound does not suffice. -/
def acquireIn (size align : Nat) : Nat → Option Nat → Option (Option Acquired)
  | 0, _ => none
  | _ + 1, none => some none
  | n + 1, some head =>
    let T := V.target
    let found := fun allocBase =>
      some (some ⟨⟨head, add T head (st.sizeLow T head)⟩, allocBase, V.alignUp (add T allocBase size) (wordBytes T)⟩)
    if chunkSize T size ≤ st.sizeLow T head ∧ align ≤ wordBytes T then found head
    else
      let allocBase := V.alignUp head align
      if V.addr (add T allocBase (chunkSize T size)) ≤ V.addr (add T head (st.sizeLow T head)) then found allocBase
      else acquireIn size align n (readLink (wordBytes T) st.mem head)

def acquireFrom (size align : Nat) : Nat → Nat → Option (Option (Acquired × Nat))
  | 0, _ => none
  | n + 1, idx =>
    match st.nextAvailBinIdx V.target G idx with
    | none => some none
    | some idx =>
      match acquireIn V st size align (span V.target) (readLink (wordBytes V.target) st.mem (st.slot V.target idx)) with
      | none => none
      | some (some found) => some (some (found, idx))
      | some none => acquireFrom size align n (idx + 1)

/-- `acquire_chunk` before the chunk is taken out of its bin. -/
def acquireChunk (size align : Nat) : Option (Option (Acquired × Nat)) :=
  acquireFrom V G st size align (G.bins + 1) (G.bin V.target (chunkSize V.target size))

def splitPrefix (chunk : Chunk) (allocBase : Nat) : Option Chunk × Chunk :=
  let last := sub V.target chunk.acme (minChunkSize V.target)
  let acme := if V.addr allocBase ≤ V.addr last then allocBase else last
  if isChunk V ⟨chunk.base, acme⟩ then (some ⟨chunk.base, acme⟩, ⟨acme, chunk.acme⟩) else (none, chunk)

def splitSuffix (chunk : Chunk) (allocAcme : Nat) : Option Chunk × Chunk × Nat :=
  let least := add V.target chunk.base (nodeBytes V.target)
  let tag := if V.addr least ≤ V.addr allocAcme then allocAcme else least
  let base := add V.target tag (wordBytes V.target)
  if isChunk V ⟨base, chunk.acme⟩ then (some ⟨base, chunk.acme⟩, ⟨chunk.base, base⟩, tag)
  else (none, chunk, sub V.target chunk.acme (wordBytes V.target))

/-- The part of `allocate` that puts the front of the chunk back. -/
def keepFront (front : Option Chunk) (chunk : Chunk) : TalcMeta :=
  match front with
  | some front => st.insertFree V.target G front.base (sub V.target front.acme front.base)
  | none =>
    let tag := sub V.target chunk.base (wordBytes V.target)
    st.write tag (Tag.clearAboveFree V.target (st.mem tag))

/-- The part of `allocate` that puts the rest of the chunk back and writes the tag. -/
def keepRest (rest : Option Chunk) (chunk : Chunk) (tag : Nat) : TalcMeta :=
  match rest with
  | some rest =>
    (st.insertFree V.target G rest.base (sub V.target rest.acme rest.base)).write tag (Tag.new chunk.base true)
  | none => st.write tag (Tag.new chunk.base false)

/-- `Tag::acme_tag` -/
def acmeTag (tag acme : Nat) : TalcMeta := if tag ≠ acme then st.write acme tag else st

/-- `allocate` with the chunk found. -/
def carve (found : Acquired) : TalcMeta :=
  let (front, chunk) := splitPrefix V found.chunk found.allocBase
  let st := keepFront V G st front chunk
  let (rest, chunk, tag) := splitSuffix V chunk found.allocAcme
  acmeTag (keepRest V G st rest chunk tag) tag found.allocAcme

/-- `allocate`; `none` if the bound on a loop does not suffice, and no pointer for `Err`. -/
def allocate (size align : Nat) : Option (TalcMeta × Option Nat) :=
  -- `NonNull::dangling()`
  if size = 0 then some (st, some (V.rel 1))
  else
    match acquireChunk V G st size align with
    | none => none
    | some none => some (st, none)
    | some (some (found, idx)) =>
      some (carve V G (st.removeFree V.target found.chunk.base idx) found, some found.allocBase)

end Allocate

/-! ### Releasing -/

section Deallocate

variable (V : Mapping) (G : Geometry) (st : TalcMeta)

/-- `Tag::from_alloc_base` -/
def fromAllocBase (ptr size : Nat) : Nat :=
  let post := V.alignUp (add V.target ptr size) (wordBytes V.target)
  if st.mem post > post then st.mem post else post

/-- The part of `deallocate` that looks at the chunk below; the result says where the free chunk begins. -/
def joinBelow (base : Nat) : TalcMeta × Nat :=
  let T := V.target
  let prev := sub T base (wordBytes T)
  if !Tag.isAllocated (st.mem prev) then
    -- `FreeTail::to_head`
    let head := sub T prev (sub T (st.mem prev) (wordBytes T))
    (st.removeFreeByHead T G head, head)
  else (st.write prev (Tag.setAboveFree (st.mem prev)), base)

/-- The part of `deallocate` that looks at the chunk above; the result says where the free chunk ends. -/
def joinAbove (tag acme : Nat) : TalcMeta × Nat :=
  let T := V.target
  if Tag.isAboveFree (st.mem tag) then (st.removeFreeByHead T G acme, add T acme (st.sizeLow T acme))
  else (st, acme)

def deallocate (ptr size : Nat) : TalcMeta :=
  if size = 0 then st
  else
    let T := V.target
    let tag := fromAllocBase V st ptr size
    let (below, base) := joinBelow V G st (Tag.toBaseRel T (st.mem tag))
    let (above, acme) := joinAbove V G below tag (add T tag (wordBytes T))
    above.insertFree T G base (sub T acme base)

end Deallocate

/-! ### Claiming -/

section Claim

variable (T : Target)

/-- The first loop of `claim_metadata` -/
def zeroWords (m : Words) (p : Nat) : Nat → Words
  | 0 => m
  | n + 1 => Function.update (zeroWords m p n) (p + n * wordBytes T) 0

/-- The second loop of `claim_metadata` -/
def emptySlots (m : Words) (p : Nat) : Nat → Words
  | 0 => m
  | n + 1 => writeLink (wordBytes T) (emptySlots m p n) (p + n * (2 * wordBytes T)) none

/-- `claim_metadata`, with the end of the metadata. -/
def claimMetadata (G : Geometry) (st : TalcMeta) (ptr : Nat) : TalcMeta × Nat :=
  let words := G.availabilityWords T.bits
  let bins := ptr + words * wordBytes T
  let mem := emptySlots T (zeroWords T st.mem ptr words) bins G.bins
  ({ st with avails := ptr, bins, mem }, bins + G.bins * (2 * wordBytes T))

def claim (V : Mapping) (st : TalcMeta) (conf : Config) : Option TalcMeta :=
  let T := V.target
  let w := wordBytes T
  match conf.validated T with
  | none => none
  | some G =>
    let base := V.alignUp (add T (3 * w) conf.forward) w
    let size := conf.size / w * w
    if st.bins ≠ span T - 1 then
      if size ≤ minChunkSize T + w then none
      else some ((st.write base (Tag.new 0 true)).insertFree T G (base + w) size)
    else if size < G.metadataBytes T + 2 * w then none
    else
      let (st, acme) := claimMetadata T G (st.write base (Tag.new 0 true)) (base + w)
      let freeSize := size - (acme + w - base)
      if minChunkSize T ≤ freeSize then
        some ((st.insertFree T G (acme + w) freeSize).write acme (Tag.new base true))
      else
        -- one chunk, with the word behind it
        let tag := base + size - w
        some ((st.write tag (Tag.new base false)).write (base + size) tag)

end Claim

end Evering.Talc
