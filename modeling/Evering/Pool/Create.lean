import Evering.Bisect
import Evering.Pool.Geometry

/-!
# Creating the geometry of a Pool

`Geometry::create` takes the largest number of block classes whose smallest geometry fits in the extent, and then the largest
number of slots for it. Both searches rest on one fact: a geometry with fewer slots can be built whenever one with more slots can,
and is no larger. The opener of the Pool builds the same geometry from the three numbers that are recorded.
-/

namespace Evering.Pool.Extent

open Header List

/-! ### The source -/

def minBlock : Nat := 64

def defaultMax : Nat := 64 * 1024

/-- `BlockRange`; its fields are private, so that every value is made by `BlockRange::new`. -/
structure BlockRange (target : Target) where
  min : Nat
  max : Nat
  minPower : isPowerOfTwo min = true
  maxPower : isPowerOfTwo max = true
  least : minBlock ≤ min
  ordered : min ≤ max
  fits : max < 2 ^ target.bits

theorem isPowerOfTwo_two_pow (k : Nat) : isPowerOfTwo (2 ^ k) = true := by
  rw [isPowerOfTwo, Nat.log2_two_pow, beq_self_eq_true]

theorem nextPowerOfTwo_power (n : Nat) : isPowerOfTwo (nextPowerOfTwo n) = true := by
  unfold nextPowerOfTwo
  split
  · decide
  · exact isPowerOfTwo_two_pow _

theorem le_nextPowerOfTwo (n : Nat) : n ≤ nextPowerOfTwo n := by
  unfold nextPowerOfTwo
  split
  · assumption
  · have := @Nat.lt_log2_self (n - 1)
    omega

/-- `BlockRange::new` -/
def BlockRange.new (target : Target) (min max : Nat) : Option (BlockRange target) :=
  let min := nextPowerOfTwo (Nat.max min minBlock)
  let max := nextPowerOfTwo (Nat.max max minBlock)
  if h : max < 2 ^ target.bits ∧ min ≤ max then
    some ⟨min, max, nextPowerOfTwo_power _, nextPowerOfTwo_power _,
      Nat.le_trans (Nat.le_max_right ..) (le_nextPowerOfTwo _), h.2, h.1⟩
  else none

inductive CreateError
  | invalidExtent
  | requiredExtent (required available : Nat)
  deriving DecidableEq

section Create

variable (target : Target) (header : AllocLayout) (bound min : Nat)

/-- The condition of the binary search -/
def fitsIn (count base : Nat) : Bool := (build target header min count base).any fun geometry => geometry.layout.size ≤ bound

/-- One round of the loop of `create`: a geometry, or the extent that this number of classes requires -/
def tryCount (count : Nat) : Except CreateError (Geometry ⊕ Nat) :=
  match checkedShl target 64 ((count - 1) / 2) with
  | none => .error .invalidExtent
  | some minimum =>
    match build target header min count minimum with
    | none => .error .invalidExtent
    | some required =>
      if required.layout.size ≤ bound then
        let high := bound / (minBlock + 1) + 1
        let low := bisect (fitsIn target header bound min count) (high.log2 + 1) minimum high
        match build target header min count low with
        | none => .error .invalidExtent
        | some geometry => .ok (.inl geometry)
      else .ok (.inr required.layout.size)

/-- The loop of `create`, with `rest` classes more than one -/
def createFrom (exact : Bool) : Nat → Except CreateError Geometry
  | 0 =>
    match tryCount target header bound min 1 with
    | .error error => .error error
    | .ok (.inl geometry) => .ok geometry
    | .ok (.inr required) => .error (.requiredExtent required bound)
  | rest + 1 =>
    match tryCount target header bound min (rest + 2) with
    | .error error => .error error
    | .ok (.inl geometry) => .ok geometry
    | .ok (.inr required) => if exact then .error (.requiredExtent required bound) else createFrom exact rest

end Create

def rangeOf {target : Target} (range : Option (BlockRange target)) : Nat × Nat :=
  match range with
  | some range => (range.min, range.max)
  | none => (minBlock, defaultMax)

/-- `Geometry::create` -/
def create (target : Target) (header : AllocLayout) (bound : Nat) (range : Option (BlockRange target)) :
    Except CreateError Geometry :=
  createFrom target header bound (rangeOf range).1 range.isSome ((rangeOf range).2.log2 - (rangeOf range).1.log2)

/-! ### One class -/

theorem le_roundUp {n align : Nat} (pos : 0 < align) : n ≤ roundUp n align := by
  have split := Nat.div_add_mod (n + align - 1) align
  have small := Nat.mod_lt (n + align - 1) pos
  unfold roundUp
  rw [Nat.mul_comm]
  omega

theorem roundUp_mono {n n' : Nat} (align : Nat) (le : n ≤ n') : roundUp n align ≤ roundUp n' align :=
  Nat.mul_le_mul_right _ (Nat.div_le_div_right (by omega))

theorem dvd_roundUp (n align : Nat) : align ∣ roundUp n align := Nat.dvd_mul_left ..

theorem pos_of_isPowerOfTwo {n : Nat} (power : isPowerOfTwo n = true) : 0 < n := by
  have eq : n = 2 ^ n.log2 := beq_iff_eq.mp power
  rw [eq]
  exact Nat.two_pow_pos _

section Class

variable (target : Target) (min base index size align : Nat)

/-- The class that a round of `build` adds to a layout of this size -/
def classAt : Class :=
  let bytes := (min <<< index) % 2 ^ target.bits
  let slots := base >>> (index / 2)
  ⟨bytes, slots, roundUp size 4, roundUp (roundUp size 4 + 4 * slots) bytes⟩

def Class.stop (cls : Class) : Nat := cls.payload + cls.bytes * cls.slots

/-- What a round of `build` checks -/
structure Admits : Prop where
  shift : index < target.bits
  power : isPowerOfTwo (classAt target min base index size).bytes = true
  words : 4 * (classAt target min base index size).slots ≤ 2 ^ (target.bits - 1) - 4
  headerPower : isPowerOfTwo (max align 4) = true
  controls : roundUp size 4 + 4 * (classAt target min base index size).slots ≤ 2 ^ (target.bits - 1) - max align 4
  product : (classAt target min base index size).bytes * (classAt target min base index size).slots < 2 ^ target.bits
  blocks : (classAt target min base index size).bytes * (classAt target min base index size).slots ≤
    2 ^ (target.bits - 1) - (classAt target min base index size).bytes
  wholePower : isPowerOfTwo (max (max align 4) (classAt target min base index size).bytes) = true
  whole : (classAt target min base index size).stop ≤
    2 ^ (target.bits - 1) - max (max align 4) (classAt target min base index size).bytes

end Class

section Build

variable {target : Target} {header : AllocLayout} {bound min base base' index count : Nat} {geometry geometry' : Geometry}

theorem fromSizeAlign_eq_some {size align : Nat} {layout : AllocLayout} : fromSizeAlign target size align = some layout ↔
    isPowerOfTwo align = true ∧ size ≤ 2 ^ (target.bits - 1) - align ∧ layout = ⟨size, align⟩ := by
  unfold fromSizeAlign
  rw [Option.ite_none_right_eq_some, Option.some.injEq, and_assoc, eq_comm (a := layout)]

theorem extend_eq_some {layout next : AllocLayout} {result : AllocLayout × Nat} : layout.extend target next = some result ↔
    isPowerOfTwo (max layout.align next.align) = true ∧
      roundUp layout.size next.align + next.size ≤ 2 ^ (target.bits - 1) - max layout.align next.align ∧
      result = (⟨roundUp layout.size next.align + next.size, max layout.align next.align⟩, roundUp layout.size next.align) := by
  unfold AllocLayout.extend
  simp only [Option.map_eq_some_iff, fromSizeAlign_eq_some]
  constructor
  · rintro ⟨_, ⟨power, fits, rfl⟩, rfl⟩
    exact ⟨power, fits, rfl⟩
  · rintro ⟨power, fits, rfl⟩
    exact ⟨_, ⟨power, fits, rfl⟩, rfl⟩

theorem checkedShl_eq_some {n shift m : Nat} : checkedShl target n shift = some m ↔
    shift < target.bits ∧ m = (n <<< shift) % 2 ^ target.bits := by
  unfold checkedShl
  rw [Option.ite_none_right_eq_some, Option.some.injEq, eq_comm (a := m)]

theorem addClass_some_iff : addClass target min base index geometry = some geometry' ↔
    Admits target min base index geometry.layout.size geometry.layout.align ∧
      geometry' = ⟨⟨(classAt target min base index geometry.layout.size).stop,
          max (max geometry.layout.align 4) (classAt target min base index geometry.layout.size).bytes⟩,
        geometry.classes ++ [classAt target min base index geometry.layout.size]⟩ := by
  unfold addClass
  simp only [Option.bind_eq_bind, Option.bind_eq_some_iff, checkedShl_eq_some, fromSizeAlign_eq_some, extend_eq_some]
  constructor
  · rintro ⟨_, ⟨shift, rfl⟩, _, ⟨-, words, rfl⟩, _, ⟨headerPower, controls, rfl⟩, rest⟩
    simp only at rest
    split at rest
    · cases rest
    · rename_i product
      simp only [Option.bind_eq_some_iff, fromSizeAlign_eq_some, extend_eq_some] at rest
      obtain ⟨_, ⟨power, blocks, rfl⟩, _, ⟨wholePower, whole, rfl⟩, made⟩ := rest
      cases made
      exact ⟨⟨shift, power, words, headerPower, controls, Nat.lt_of_not_le product, blocks, wholePower, whole⟩, rfl⟩
  · rintro ⟨fits, rfl⟩
    refine ⟨_, ⟨fits.shift, rfl⟩, _, ⟨by decide, fits.words, rfl⟩, _, ⟨fits.headerPower, fits.controls, rfl⟩, ?_⟩
    have product : (min <<< index) % 2 ^ target.bits * (base >>> (index / 2)) < 2 ^ target.bits := fits.product
    rw [if_neg (Nat.not_le.mpr product)]
    simp only [Option.bind_eq_some_iff, fromSizeAlign_eq_some, extend_eq_some]
    exact ⟨_, ⟨fits.power, fits.blocks, rfl⟩, _, ⟨fits.wholePower, fits.whole, rfl⟩, rfl⟩

/-! ### Fewer slots -/

theorem Admits.mono {size size' align : Nat} (admits : Admits target min base index size align) (fewer : base' ≤ base)
    (smaller : size' ≤ size) : Admits target min base' index size' align ∧
      (classAt target min base' index size').stop ≤ (classAt target min base index size).stop := by
  have slots : base' >>> (index / 2) ≤ base >>> (index / 2) := by
    rw [Nat.shiftRight_eq_div_pow, Nat.shiftRight_eq_div_pow]
    exact Nat.div_le_div_right fewer
  have words : roundUp size' 4 + 4 * (base' >>> (index / 2)) ≤ roundUp size 4 + 4 * (base >>> (index / 2)) :=
    Nat.add_le_add (roundUp_mono 4 smaller) (Nat.mul_le_mul_left 4 slots)
  have blocks : (classAt target min base' index size').bytes * (classAt target min base' index size').slots ≤
      (classAt target min base index size).bytes * (classAt target min base index size).slots := Nat.mul_le_mul_left _ slots
  have stop : (classAt target min base' index size').stop ≤ (classAt target min base index size).stop :=
    Nat.add_le_add (roundUp_mono _ words) blocks
  exact ⟨⟨admits.shift, admits.power, Nat.le_trans (Nat.mul_le_mul_left 4 slots) admits.words, admits.headerPower,
    Nat.le_trans words admits.controls, Nat.lt_of_le_of_lt blocks admits.product, Nat.le_trans blocks admits.blocks,
    admits.wholePower, Nat.le_trans stop admits.whole⟩, stop⟩

variable {start : Geometry}

theorem addClasses_mono (start' : Geometry) (built : addClasses target min base count index start = some geometry)
    (fewer : base' ≤ base) (smaller : start'.layout.size ≤ start.layout.size) (same : start'.layout.align = start.layout.align) :
    ∃ geometry', addClasses target min base' count index start' = some geometry' ∧
      geometry'.layout.size ≤ geometry.layout.size ∧ geometry'.layout.align = geometry.layout.align := by
  induction count generalizing index start start' with
  | zero =>
    cases built
    exact ⟨start', rfl, smaller, same⟩
  | succ count ih =>
    obtain ⟨middle, added, rest⟩ := Option.bind_eq_some_iff.mp built
    obtain ⟨admits, rfl⟩ := addClass_some_iff.mp added
    obtain ⟨admits', stop⟩ := admits.mono fewer smaller
    rw [← same] at admits'
    have align : max (max start'.layout.align 4) (classAt target min base' index start'.layout.size).bytes =
        max (max start.layout.align 4) (classAt target min base index start.layout.size).bytes := by
      rw [same]
      rfl
    obtain ⟨geometry', built', results⟩ := ih ⟨⟨_, _⟩, _⟩ rest stop align
    exact ⟨geometry', Option.bind_eq_some_iff.mpr ⟨_, addClass_some_iff.mpr ⟨admits', rfl⟩, built'⟩, results⟩

theorem build_mono (built : build target header min count base = some geometry) (fewer : base' ≤ base) :
    ∃ geometry', build target header min count base' = some geometry' ∧ geometry'.layout.size ≤ geometry.layout.size := by
  obtain ⟨unpadded, added, rfl⟩ := Option.map_eq_some_iff.mp built
  obtain ⟨unpadded', added', size, align⟩ := addClasses_mono ⟨header, []⟩ added fewer (Nat.le_refl _) rfl
  refine ⟨_, Option.map_eq_some_iff.mpr ⟨unpadded', added', rfl⟩, ?_⟩
  show roundUp unpadded'.layout.size unpadded'.layout.align ≤ roundUp unpadded.layout.size unpadded.layout.align
  rw [align]
  exact roundUp_mono _ size

theorem fitsIn_iff : fitsIn target header bound min count base = true ↔
    ∃ geometry, build target header min count base = some geometry ∧ geometry.layout.size ≤ bound := by
  unfold fitsIn
  rw [Option.any_eq_true]
  simp only [decide_eq_true_eq]

theorem fitsIn_down (fewer : base' ≤ base) (fits : fitsIn target header bound min count base = true) :
    fitsIn target header bound min count base' = true := by
  obtain ⟨geometry, built, size⟩ := fitsIn_iff.mp fits
  obtain ⟨geometry', built', smaller⟩ := build_mono built fewer
  exact fitsIn_iff.mpr ⟨geometry', built', Nat.le_trans smaller size⟩

/-! ### Where the arrays are -/

/-- The arrays of the classes follow each other from `start` to `stop`. -/
def Laid : Nat → List Class → Nat → Prop
  | start, [], stop => start ≤ stop
  | start, cls :: classes, stop =>
    start ≤ cls.controls ∧ cls.controls + 4 * cls.slots ≤ cls.payload ∧ cls.bytes ∣ cls.payload ∧
      isPowerOfTwo cls.bytes = true ∧ Laid cls.stop classes stop

/-- The classes that `build` makes from `index` on -/
def Shaped (target : Target) (min base index : Nat) (classes : List Class) : Prop :=
  ∀ i cls, classes[i]? = some cls →
    cls.bytes = (min <<< (index + i)) % 2 ^ target.bits ∧ cls.slots = base >>> ((index + i) / 2)

theorem addClasses_laid (built : addClasses target min base count index start = some geometry) :
    ∃ classes, geometry.classes = start.classes ++ classes ∧ classes.length = count ∧ Shaped target min base index classes ∧
      Laid start.layout.size classes geometry.layout.size := by
  induction count generalizing index start with
  | zero =>
    cases built
    exact ⟨[], (append_nil _).symm, rfl, nofun, Nat.le_refl _⟩
  | succ count ih =>
    obtain ⟨middle, added, rest⟩ := Option.bind_eq_some_iff.mp built
    obtain ⟨admits, rfl⟩ := addClass_some_iff.mp added
    obtain ⟨classes, same, length, shaped, laid⟩ := ih rest
    refine ⟨classAt target min base index start.layout.size :: classes, ?_, by rw [length_cons, length], ?_, ?_⟩
    · rw [same, append_assoc]
      rfl
    · intro i cls at_i
      cases i with
      | zero =>
        cases at_i
        exact ⟨rfl, rfl⟩
      | succ i =>
        have := shaped i cls at_i
        rwa [show index + 1 + i = index + (i + 1) by omega] at this
    · exact ⟨le_roundUp (by decide), le_roundUp (pos_of_isPowerOfTwo admits.power), dvd_roundUp .., admits.power, laid⟩

theorem addClasses_align_pos (built : addClasses target min base count index start = some geometry)
    (pos : 0 < count ∨ 0 < start.layout.align) : 0 < geometry.layout.align := by
  induction count generalizing index start with
  | zero =>
    cases built
    exact pos.resolve_left (Nat.lt_irrefl 0)
  | succ count ih =>
    obtain ⟨middle, added, rest⟩ := Option.bind_eq_some_iff.mp built
    obtain ⟨-, rfl⟩ := addClass_some_iff.mp added
    exact ih rest (.inr (by dsimp only; omega))

variable {classes : List Class}

theorem Laid.mono {start stop stop' : Nat} (laid : Laid start classes stop) (le : stop ≤ stop') :
    Laid start classes stop' := by
  induction classes generalizing start with
  | nil => exact Nat.le_trans laid le
  | cons cls classes ih => exact ⟨laid.1, laid.2.1, laid.2.2.1, laid.2.2.2.1, ih laid.2.2.2.2⟩

theorem build_laid (pos : 0 < count) (built : build target header min count base = some geometry) :
    geometry.classes.length = count ∧ Shaped target min base 0 geometry.classes ∧
      Laid header.size geometry.classes geometry.layout.size := by
  obtain ⟨unpadded, added, rfl⟩ := Option.map_eq_some_iff.mp built
  obtain ⟨classes, same, length, shaped, laid⟩ := addClasses_laid added
  rw [nil_append] at same
  rw [same]
  exact ⟨length, shaped, laid.mono (le_roundUp (addClasses_align_pos added (.inl pos)))⟩

theorem addClasses_align (built : addClasses target min base count index start = some geometry)
    (kept : ∀ cls ∈ start.classes, cls.bytes ≤ start.layout.align) (power : 0 < count ∨ isPowerOfTwo start.layout.align = true) :
    isPowerOfTwo geometry.layout.align = true ∧ ∀ cls ∈ geometry.classes, cls.bytes ≤ geometry.layout.align := by
  induction count generalizing index start with
  | zero =>
    cases built
    exact ⟨power.resolve_left (Nat.lt_irrefl 0), kept⟩
  | succ count ih =>
    obtain ⟨middle, added, rest⟩ := Option.bind_eq_some_iff.mp built
    obtain ⟨admits, rfl⟩ := addClass_some_iff.mp added
    refine ih rest (fun cls mem => ?_) (.inr admits.wholePower)
    rcases mem_append.mp mem with before | here
    · exact Nat.le_trans (kept cls before) (Nat.le_trans (Nat.le_max_left ..) (Nat.le_max_left ..))
    · rw [mem_singleton.mp here]
      exact Nat.le_max_right ..

/-- The arrays of the classes, each with its length in bytes -/
def arrays (classes : List Class) : List (Nat × Nat) :=
  classes.flatMap fun cls => [(cls.controls, 4 * cls.slots), (cls.payload, cls.bytes * cls.slots)]

theorem Laid.le {start stop : Nat} (laid : Laid start classes stop) : start ≤ stop := by
  induction classes generalizing start with
  | nil => exact laid
  | cons cls classes ih =>
    obtain ⟨first, second, -, -, rest⟩ := laid
    have := ih rest
    unfold Class.stop at this
    omega

theorem Laid.inside {start stop : Nat} (laid : Laid start classes stop) :
    ∀ x ∈ arrays classes, start ≤ x.1 ∧ x.1 + x.2 ≤ stop := by
  induction classes generalizing start with
  | nil => nofun
  | cons cls classes ih =>
    obtain ⟨first, second, -, -, rest⟩ := laid
    have past := rest.le
    have later := ih rest
    unfold Class.stop at past later
    intro x mem
    rw [arrays, flatMap_cons, mem_append] at mem
    rcases mem with mem | mem
    · simp only [mem_cons, not_mem_nil, or_false] at mem
      rcases mem with rfl | rfl <;> dsimp only <;> omega
    · have := later x mem
      omega

theorem Laid.apart {start stop : Nat} (laid : Laid start classes stop) :
    (arrays classes).Pairwise fun x y => x.1 + x.2 ≤ y.1 := by
  induction classes generalizing start with
  | nil => exact List.Pairwise.nil
  | cons cls classes ih =>
    obtain ⟨first, second, -, -, rest⟩ := laid
    have later := rest.inside
    unfold Class.stop at later
    rw [arrays, flatMap_cons]
    refine pairwise_cons.mpr ⟨fun y mem => ?_, pairwise_cons.mpr ⟨fun y mem => (later y mem).1, ih rest⟩⟩
    rcases mem_cons.mp mem with rfl | mem
    · exact second
    · have := (later y mem).1
      omega

theorem Laid.aligned {start stop : Nat} (laid : Laid start classes stop) :
    ∀ cls ∈ classes, isPowerOfTwo cls.bytes = true ∧ ∀ slot, cls.bytes ∣ cls.payload + slot * cls.bytes := by
  induction classes generalizing start with
  | nil => nofun
  | cons cls classes ih =>
    obtain ⟨-, -, divides, power, rest⟩ := laid
    exact forall_mem_cons.mpr ⟨⟨power, fun slot => Nat.dvd_add divides (Nat.dvd_mul_left ..)⟩, ih rest⟩

theorem bytes_dvd_align (pos : 0 < count) (built : build target header min count base = some geometry) {cls : Class}
    (mem : cls ∈ geometry.classes) : cls.bytes ∣ geometry.layout.align := by
  have power := ((build_laid pos built).2.2.aligned cls mem).1
  obtain ⟨unpadded, added, rfl⟩ := Option.map_eq_some_iff.mp built
  obtain ⟨power', le⟩ := addClasses_align added nofun (.inl pos)
  have is_power : cls.bytes = 2 ^ cls.bytes.log2 := beq_iff_eq.mp power
  have is_power' : unpadded.layout.align = 2 ^ unpadded.layout.align.log2 := beq_iff_eq.mp power'
  have le := le cls mem
  show cls.bytes ∣ unpadded.layout.align
  rw [is_power, is_power'] at le ⊢
  exact Nat.pow_dvd_pow 2 ((Nat.pow_le_pow_iff_right (by decide)).mp le)

end Build

/-! ### The searches -/

/-- The slots of the smallest class that leave 64 for the largest -/
def leastSlots (count : Nat) : Nat := 64 * 2 ^ ((count - 1) / 2)

section Search

variable {target : Target} {header : AllocLayout} {bound min base count : Nat} {geometry : Geometry}

theorem checkedShl_leastSlots (le : count ≤ target.bits) :
    checkedShl target 64 ((count - 1) / 2) = some (leastSlots count) := by
  have bits := target.supported
  refine checkedShl_eq_some.mpr ⟨by omega, ?_⟩
  rw [Nat.shiftLeft_eq, leastSlots, Nat.mod_eq_of_lt]
  calc 64 * 2 ^ ((count - 1) / 2) = 2 ^ (6 + (count - 1) / 2) := (Nat.pow_add 2 6 _).symm
    _ < 2 ^ target.bits := Nat.pow_lt_pow_right (by decide) (by omega)

theorem first_class (pos : 0 < count) (lt : min < 2 ^ target.bits) (built : build target header min count base = some geometry) :
    ∃ first rest, geometry.classes = first :: rest ∧ first.bytes = min ∧ first.slots = base ∧
      4 * base + min * base ≤ geometry.layout.size := by
  obtain ⟨length, shaped, laid⟩ := build_laid pos built
  match same : geometry.classes with
  | [] =>
    rw [same] at length
    exact absurd length (by simp only [length_nil]; omega)
  | first :: rest =>
    rw [same] at shaped laid
    obtain ⟨bytes, slots⟩ := shaped 0 first rfl
    rw [Nat.shiftLeft_zero, Nat.mod_eq_of_lt lt] at bytes
    have slots : first.slots = base := slots
    obtain ⟨controls, payload, -, -, later⟩ := laid
    have stop := later.le
    unfold Class.stop at stop
    rw [bytes, slots] at stop
    rw [slots] at payload
    exact ⟨first, rest, rfl, bytes, slots, by omega⟩

theorem fitsIn_high (header : AllocLayout) (bound : Nat) (pos : 0 < count) (least : minBlock ≤ min) (lt : min < 2 ^ target.bits) :
    fitsIn target header bound min count (bound / (minBlock + 1) + 1) = false := by
  rw [← Bool.not_eq_true, fitsIn_iff]
  rintro ⟨geometry, built, size⟩
  obtain ⟨-, -, -, -, -, large⟩ := first_class pos lt built
  have blocks := Nat.mul_le_mul_right (bound / (minBlock + 1) + 1) least
  unfold minBlock at *
  omega

/-- What the binary search finds. -/
structure Largest (target : Target) (header : AllocLayout) (bound min count : Nat) (geometry : Geometry) (base : Nat) : Prop where
  enough : leastSlots count ≤ base
  built : build target header min count base = some geometry
  size : geometry.layout.size ≤ bound
  most : ∀ {b}, base < b → fitsIn target header bound min count b = false

theorem tryCount_spec (header : AllocLayout) (bound : Nat) (pos : 0 < count) (le : count ≤ target.bits) (least : minBlock ≤ min)
    (lt : min < 2 ^ target.bits) :
    match tryCount target header bound min count with
    | .error error => error = .invalidExtent
    | .ok (.inl geometry) => ∃ base, Largest target header bound min count geometry base
    | .ok (.inr _) => fitsIn target header bound min count (leastSlots count) = false := by
  unfold tryCount
  rw [checkedShl_leastSlots le]
  dsimp only
  match built : build target header min count (leastSlots count) with
  | none => rfl
  | some required =>
    dsimp only
    by_cases fits : required.layout.size ≤ bound
    · rw [if_pos fits]
      have first : fitsIn target header bound min count (leastSlots count) = true := fitsIn_iff.mpr ⟨required, built, fits⟩
      have last := fitsIn_high header bound pos least lt
      have below : leastSlots count < bound / (minBlock + 1) + 1 := by
        by_contra above
        rw [fitsIn_down (Nat.le_of_not_lt above) first] at last
        cases last
      have steps : bound / (minBlock + 1) + 1 - leastSlots count ≤ 2 ^ ((bound / (minBlock + 1) + 1).log2 + 1) :=
        Nat.le_trans (Nat.sub_le ..) (Nat.le_of_lt Nat.lt_log2_self)
      obtain ⟨ge, found, -⟩ := bisect_spec first last below steps
      obtain ⟨geometry, built', size⟩ := fitsIn_iff.mp found
      rw [built']
      exact ⟨_, ge, built', size, bisect_greatest first last below steps fitsIn_down⟩
    · rw [if_neg fits]
      rw [← Bool.not_eq_true, fitsIn_iff]
      rintro ⟨geometry, built', size⟩
      rw [built] at built'
      cases built'
      exact fits size

theorem createFrom_spec (header : AllocLayout) (bound : Nat) (exact : Bool) {rest : Nat} (le : rest < target.bits)
    (least : minBlock ≤ min)
    (lt : min < 2 ^ target.bits) : match createFrom target header bound min exact rest with
    | .ok geometry => ∃ n base, n ≤ rest ∧ (exact = true → n = rest) ∧ Largest target header bound min (n + 1) geometry base ∧
        ∀ m, n < m → m ≤ rest → fitsIn target header bound min (m + 1) (leastSlots (m + 1)) = false
    | .error .invalidExtent => True
    | .error (.requiredExtent _ available) => available = bound ∧
        ∀ n ≤ rest, (exact = true → n = rest) → fitsIn target header bound min (n + 1) (leastSlots (n + 1)) = false := by
  induction rest with
  | zero =>
    have one := tryCount_spec header bound Nat.one_pos le least lt
    unfold createFrom
    match tried : tryCount target header bound min 1 with
    | .error error =>
      rw [tried] at one
      dsimp only at one ⊢
      rw [one]
      trivial
    | .ok (.inl geometry) =>
      rw [tried] at one
      obtain ⟨base, largest⟩ := one
      exact ⟨0, base, Nat.le_refl 0, fun _ => rfl, largest, fun m lt le => absurd lt (by omega)⟩
    | .ok (.inr required) =>
      rw [tried] at one
      refine ⟨rfl, fun n le _ => ?_⟩
      obtain rfl : n = 0 := by omega
      exact one
  | succ rest ih =>
    have one := tryCount_spec header bound (Nat.succ_pos (rest + 1)) le least lt
    unfold createFrom
    match tried : tryCount target header bound min (rest + 2) with
    | .error error =>
      rw [tried] at one
      dsimp only at one ⊢
      rw [one]
      trivial
    | .ok (.inl geometry) =>
      rw [tried] at one
      obtain ⟨base, largest⟩ := one
      exact ⟨rest + 1, base, Nat.le_refl _, fun _ => rfl, largest, fun m lt le => absurd lt (by omega)⟩
    | .ok (.inr required) =>
      rw [tried] at one
      have none : fitsIn target header bound min (rest + 2) (leastSlots (rest + 2)) = false := one
      dsimp only
      cases exact with
      | true =>
        refine ⟨rfl, fun n _ all => ?_⟩
        rw [all rfl]
        exact none
      | false =>
        have later := ih (by omega)
        rw [if_neg (by decide)]
        match created : createFrom target header bound min false rest with
        | .ok geometry =>
          rw [created] at later
          obtain ⟨n, base, le, -, largest, fails⟩ := later
          refine ⟨n, base, by omega, nofun, largest, fun m lt le => ?_⟩
          by_cases top : m = rest + 1
          · rw [top]
            exact none
          · exact fails m lt (by omega)
        | .error .invalidExtent => trivial
        | .error (.requiredExtent required available) =>
          rw [created] at later
          refine ⟨later.1, fun n le _ => ?_⟩
          by_cases top : n = rest + 1
          · rw [top]
            exact none
          · exact later.2 n (by omega) nofun

end Search

/-! ### The geometry that is created -/

section Created

variable {target : Target} {header : AllocLayout} {bound : Nat} {geometry : Geometry} {range : Option (BlockRange target)}

theorem rangeOf_spec (range : Option (BlockRange target)) :
    isPowerOfTwo (rangeOf range).1 = true ∧ isPowerOfTwo (rangeOf range).2 = true ∧ minBlock ≤ (rangeOf range).1 ∧
      (rangeOf range).1 ≤ (rangeOf range).2 ∧ (rangeOf range).2 < 2 ^ target.bits := by
  cases range with
  | some range => exact ⟨range.minPower, range.maxPower, range.least, range.ordered, range.fits⟩
  | none =>
    show isPowerOfTwo minBlock = true ∧ isPowerOfTwo defaultMax = true ∧ minBlock ≤ minBlock ∧ minBlock ≤ defaultMax ∧
      defaultMax < 2 ^ target.bits
    rcases target.supported with bits | bits <;>
    · rw [bits]
      decide

/-- The number of classes up to the largest block -/
def fullCount (range : Option (BlockRange target)) : Nat := (rangeOf range).2.log2 - (rangeOf range).1.log2 + 1

theorem fullCount_le (range : Option (BlockRange target)) : fullCount range ≤ target.bits := by
  obtain ⟨-, power, least, ordered, lt⟩ := rangeOf_spec range
  have := (Nat.log2_lt (Nat.ne_of_gt (pos_of_isPowerOfTwo power))).mpr lt
  unfold fullCount
  omega

/-- The sizes of the classes double from the smallest block on; the last of all classes has the largest. -/
theorem bytes_of_index (range : Option (BlockRange target)) {i : Nat} (lt : i < fullCount range) :
    ((rangeOf range).1 <<< i) % 2 ^ target.bits = (rangeOf range).1 * 2 ^ i ∧
      (i + 1 = fullCount range → (rangeOf range).1 * 2 ^ i = (rangeOf range).2) := by
  obtain ⟨minPower, maxPower, least, ordered, fits⟩ := rangeOf_spec range
  have low : (rangeOf range).1 = 2 ^ (rangeOf range).1.log2 := beq_iff_eq.mp minPower
  have high : (rangeOf range).2 = 2 ^ (rangeOf range).2.log2 := beq_iff_eq.mp maxPower
  have logs : (rangeOf range).1.log2 ≤ (rangeOf range).2.log2 := by
    rw [low, high] at ordered
    exact (Nat.pow_le_pow_iff_right (by decide)).mp ordered
  have product : (rangeOf range).1 * 2 ^ i = 2 ^ ((rangeOf range).1.log2 + i) := by
    rw [Nat.pow_add, ← low]
  unfold fullCount at lt ⊢
  have inside : 2 ^ ((rangeOf range).1.log2 + i) ≤ (rangeOf range).2 := by
    rw [high]
    exact Nat.pow_le_pow_right (by decide) (by omega)
  refine ⟨?_, fun last => ?_⟩
  · rw [Nat.shiftLeft_eq, Nat.mod_eq_of_lt (by omega)]
  · rw [product, show (rangeOf range).1.log2 + i = (rangeOf range).2.log2 by omega, ← high]

/-- A number of classes that `create` may use -/
def Admissible (range : Option (BlockRange target)) (count : Nat) : Prop :=
  1 ≤ count ∧ count ≤ fullCount range ∧ (range.isSome = true → count = fullCount range)

structure WellFormed (target : Target) (header : AllocLayout) (bound : Nat) (range : Option (BlockRange target))
    (geometry : Geometry) : Prop where
  size : geometry.layout.size ≤ bound
  some_ : 0 < geometry.classes.length
  /-- consecutive powers of two from the smallest block on -/
  power : isPowerOfTwo (rangeOf range).1 = true
  bytes : ∀ i cls, geometry.classes[i]? = some cls → cls.bytes = (rangeOf range).1 * 2 ^ i
  /-- up to the largest block of the range that was given -/
  reaches : ∀ r, range = some r → ∃ cls, geometry.classes.getLast? = some cls ∧ cls.bytes = r.max
  /-- otherwise as many classes as fit with the least numbers of slots -/
  longest : range = none → fitsIn target header bound minBlock geometry.classes.length
    (leastSlots geometry.classes.length) = true ∧
    ∀ count, geometry.classes.length < count → Admissible range count →
      fitsIn target header bound minBlock count (leastSlots count) = false
  slots : ∀ cls ∈ geometry.classes, 64 ≤ cls.slots
  /-- control words and blocks of all classes, in order -/
  apart : (arrays geometry.classes).Pairwise fun x y => x.1 + x.2 ≤ y.1
  inside : ∀ x ∈ arrays geometry.classes, header.size ≤ x.1 ∧ x.1 + x.2 ≤ geometry.layout.size
  aligned : ∀ cls ∈ geometry.classes, ∀ slot, cls.bytes ∣ cls.payload + slot * cls.bytes
  /-- more slots do not fit -/
  most : ∀ first base, geometry.classes.head? = some first → first.slots < base →
    fitsIn target header bound (rangeOf range).1 geometry.classes.length base = false
  /-- the opener builds the same geometry -/
  recorded : ∃ info, geometry.info = some info ∧ Extent.recorded target header info geometry.layout.size = some geometry

theorem Largest.wellFormed {n base : Nat} (le : n < fullCount range) (exact : range.isSome = true → n + 1 = fullCount range)
    (largest : Largest target header bound (rangeOf range).1 (n + 1) geometry base)
    (longest : ∀ m, n < m → m < fullCount range →
      fitsIn target header bound (rangeOf range).1 (m + 1) (leastSlots (m + 1)) = false) :
    WellFormed target header bound range geometry := by
  obtain ⟨minPower, -, least, ordered, fits⟩ := rangeOf_spec range
  obtain ⟨length, shaped, laid⟩ := build_laid (Nat.succ_pos n) largest.built
  obtain ⟨first, rest, classes, bytes, slots, -⟩ := first_class (Nat.succ_pos n) (Nat.lt_of_le_of_lt ordered fits) largest.built
  have index {i : Nat} {cls : Class} (at_i : geometry.classes[i]? = some cls) : i ≤ n := by
    have := (List.getElem?_eq_some_iff.mp at_i).1
    omega
  have sizes : ∀ i cls, geometry.classes[i]? = some cls → cls.bytes = (rangeOf range).1 * 2 ^ i := by
    intro i cls at_i
    have := index at_i
    rw [(shaped i cls at_i).1, Nat.zero_add, (bytes_of_index range (by omega)).1]
  refine {
    size := largest.size, some_ := by omega, power := minPower, bytes := sizes, reaches := ?_, longest := ?_, slots := ?_,
    apart := laid.apart, inside := laid.inside, aligned := fun cls mem => (laid.aligned cls mem).2, most := ?_, recorded := ?_ }
  · rintro r rfl
    have full := exact rfl
    obtain ⟨cls, last⟩ : ∃ cls, geometry.classes[n]? = some cls :=
      ⟨_, List.getElem?_eq_getElem (by omega)⟩
    refine ⟨cls, ?_, ?_⟩
    · rw [List.getLast?_eq_getElem?, length]
      exact last
    · rw [sizes n cls last]
      exact (bytes_of_index (some r) le).2 full
  · rintro rfl
    rw [length]
    refine ⟨?_, fun count lt admissible => ?_⟩
    · exact fitsIn_down largest.enough (fitsIn_iff.mpr ⟨geometry, largest.built, largest.size⟩)
    · obtain ⟨-, high, -⟩ := admissible
      have := longest (count - 1) (by omega) (by omega)
      rwa [Nat.sub_add_cancel (by omega)] at this
  · intro cls mem
    obtain ⟨i, lt, rfl⟩ := getElem_of_mem mem
    have at_i := List.getElem?_eq_getElem lt
    have := index at_i
    rw [(shaped i _ at_i).2, Nat.zero_add, Nat.shiftRight_eq_div_pow, Nat.le_div_iff_mul_le (Nat.two_pow_pos _)]
    exact Nat.le_trans (Nat.mul_le_mul_left 64 (Nat.pow_le_pow_right (by decide) (by omega))) largest.enough
  · intro first' base' head above
    rw [classes] at head
    cases head
    rw [length]
    exact largest.most (slots ▸ above)
  · refine ⟨⟨(rangeOf range).1, base, n + 1⟩, ?_, ?_⟩
    · unfold Geometry.info
      rw [length, classes, List.head?_cons, Option.map_some, bytes, slots]
    · unfold Extent.recorded
      rw [largest.built]
      refine Option.filter_some.trans (if_pos (decide_eq_true ⟨rfl, ?_⟩))
      unfold Geometry.info
      rw [length, classes, List.head?_cons, Option.map_some, bytes, slots]

theorem create_wellFormed (created : create target header bound range = .ok geometry) :
    WellFormed target header bound range geometry := by
  obtain ⟨-, -, least, ordered, fits⟩ := rangeOf_spec range
  have counts : (rangeOf range).2.log2 - (rangeOf range).1.log2 < target.bits := fullCount_le range
  have spec := createFrom_spec header bound range.isSome counts least (Nat.lt_of_le_of_lt ordered fits)
  unfold create at created
  rw [created] at spec
  obtain ⟨n, base, le, exact, largest, longest⟩ := spec
  exact largest.wellFormed (Nat.lt_succ_of_le le) (fun given => congrArg (· + 1) (exact given))
    fun m lt lt' => longest m lt (Nat.le_of_lt_succ lt')

theorem create_refused {required available : Nat} (refused : create target header bound range =
    .error (.requiredExtent required available))
    {count base : Nat} (admissible : Admissible range count) (ge : leastSlots count ≤ base) :
    fitsIn target header bound (rangeOf range).1 count base = false := by
  obtain ⟨-, -, least, ordered, fits⟩ := rangeOf_spec range
  have counts : (rangeOf range).2.log2 - (rangeOf range).1.log2 < target.bits := fullCount_le range
  have spec := createFrom_spec header bound range.isSome counts least (Nat.lt_of_le_of_lt ordered fits)
  unfold create at refused
  rw [refused] at spec
  obtain ⟨one, high, exact⟩ := admissible
  have none := spec.2 (count - 1) (Nat.sub_le_of_le_add high) fun given => by
    rw [exact given]
    rfl
  rw [Nat.sub_add_cancel one] at none
  rw [← Bool.not_eq_true] at none ⊢
  exact fun fits => none (fitsIn_down ge fits)

/-- **The geometry of a Pool** is well formed and as large as the extent allows, and the extent is refused only if it is too small
for every number of classes. -/
theorem creation_spec (target : Target) (header : AllocLayout) (bound : Nat) (range : Option (BlockRange target)) :
    match create target header bound range with
    | .ok geometry => WellFormed target header bound range geometry
    | .error (.requiredExtent _ _) => ∀ count base, Admissible range count → leastSlots count ≤ base →
        fitsIn target header bound (rangeOf range).1 count base = false
    | .error .invalidExtent => True := by
  match created : create target header bound range with
  | .ok geometry => exact create_wellFormed created
  | .error (.requiredExtent _ _) => exact fun _ _ => create_refused created
  | .error .invalidExtent => trivial

example : (create ⟨64, .inr rfl⟩ headerLayout 20000 none).toOption.map (·.classes.map fun cls => (cls.bytes, cls.slots)) =
    some [(64, 98), (128, 98)] := by
  decide

end Created

end Evering.Pool.Extent
