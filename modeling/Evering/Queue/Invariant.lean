import Evering.Interleave.Protocol
import Evering.Queue.Model
import Mathlib.Data.Nat.ModEq

/-!
# What holds of a queue at every step

`Ring` ties the cursors to the positions that head and tail have passed and says what became of the
positions; `SlotOk` ties one slot to them. A slot's turn stands for a position of the present or of the
next lap. While the control word is `EMPTY` that position is not reserved yet; `PRODUCER` may be a stale
producer that came to the wrong lap or the one whose reservation moved tail; `AVAILABLE` is a reserved
position that head has not passed; `CONSUMER` may be stale as well, or have moved head, or have moved head
and turn. `strict` excludes runs in which a repair threw a position away.
-/

namespace Evering.Queue

open Interleave Cursor

/-! ### Cursors -/

namespace Geometry

variable (G : Geometry)

theorem lap_room : 2 ^ (G.capacity.log2 + 1) * 8 ≤ 2 ^ G.bits := by
  have le : 2 ^ G.capacity.log2 ≤ G.capacity := Nat.log2_self_le (Nat.ne_of_gt G.capacity_pos)
  have fits := G.fits
  have bytes := G.slot_bytes
  have six : 6 ≤ G.slotBytes := by
    have := G.target.supported
    omega
  have area : 2 * G.capacity * 6 ≤ 2 * G.capacity * G.slotBytes := Nat.mul_le_mul_left _ six
  have double : 2 ^ G.target.bits = 2 * 2 ^ (G.target.bits - 1) := by
    rw [← Nat.pow_succ']
    have := G.target.supported
    congr 1
    omega
  rw [Nat.pow_succ, bits]
  omega

def laps : Laps where
  bits := G.bits
  capacity := G.capacity
  shift := G.capacity.log2 + 1
  capacity_pos := G.capacity_pos
  capacity_lt := Nat.lt_log2_self
  room := G.lap_room

def cursor (p : Nat) : G.Word := G.laps.cursor p

theorem oneLap_eq : G.oneLap = G.laps.lap := by
  have := G.capacity_pos
  rw [oneLap, nextPowerOfTwo, if_neg (by omega)]
  rfl

variable {G} {p q : Nat}

theorem index_cursor : G.index (G.cursor p) = p % G.capacity := by
  rw [index, oneLap_eq]
  exact Laps.index_cursor (L := G.laps)

theorem next_cursor : G.next (G.cursor p) = G.cursor (p + 1) := by
  rw [next, index, lapWord, oneLap_eq]
  exact Laps.next_cursor (L := G.laps)

theorem cursor_add_lap : G.cursor p + G.lapWord = G.cursor (p + G.capacity) := by
  rw [lapWord, oneLap_eq]
  exact Laps.cursor_add_lap (L := G.laps)

theorem cursor_of_lt {i : Nat} (lt : i < G.capacity) : G.cursor i = BitVec.ofNat G.bits i := by
  rw [cursor, Laps.cursor, Laps.raw, show G.laps.capacity = G.capacity from rfl, Nat.div_eq_of_lt lt,
    Nat.mod_eq_of_lt lt, Nat.zero_mul, Nat.zero_add]
  rfl

theorem cursor_inj (h : q ≤ p + 2 * G.capacity) (h' : p ≤ q + 2 * G.capacity) : G.cursor p = G.cursor q ↔ p = q :=
  Laps.cursor_inj (L := G.laps) h h'

theorem distance_lt_half (h : q ≤ p + 2 * G.capacity) (h' : p ≤ q + 2 * G.capacity) :
    (G.cursor q - G.cursor p).toNat < G.half ↔ p ≤ q :=
  Laps.distance_lt_half (L := G.laps) h h'

theorem distance_eq_zero (h : q ≤ p + 2 * G.capacity) (h' : p ≤ q + 2 * G.capacity) : G.cursor q - G.cursor p = 0 ↔ p = q :=
  Laps.distance_eq_zero (L := G.laps) h h'

end Geometry

/-! ### Positions -/

section State

variable {G : Geometry} {α : Type}

/-- What the control word of a slot says. -/
def Shared.ctl (s : Shared G α) (i : Nat) : Control := Control.ofWord (s.slot i).control

/-- The bytes of a slot and what they are for: a complete position was published with this value, one
that is not complete was skipped. -/
def Payload (s : Shared G α) (i p : Nat) (complete : Bool) : Prop :=
  if complete then
    ∃ v, s.trail.fate p = .published v ∧ (s.slot i).value = some v ∧ s.trail.content i = p
  else s.trail.fate p = .skipped

/-- The position of the slot is not reserved, or it is lost. -/
def Vacant (s : Shared G α) (i : Nat) : Prop :=
  s.trail.tailPos ≤ s.trail.turnPos i ∨ s.trail.fate (s.trail.turnPos i) = .lost

/-- A producer's reservation of the slot's position stands. -/
def Reserved (s : Shared G α) (i : Nat) (complete : Bool) : Prop :=
  s.trail.fate (s.trail.turnPos i) = .reserved ∧
    (complete = true → (s.slot i).value.isSome ∧ s.trail.content i = s.trail.turnPos i)

/-- The turn of the slot has moved on from a position that was consumed. -/
def Turned (s : Shared G α) (i : Nat) (complete : Bool) : Prop :=
  s.trail.tailPos ≤ s.trail.turnPos i ∧ G.capacity ≤ s.trail.turnPos i ∧
    Payload s i (s.trail.turnPos i - G.capacity) complete

def Control.isConsumer : Control → Bool
  | consumer .. => true
  | _ => false

def Phase (s : Shared G α) (i : Nat) : Control → Prop
  | .empty => Vacant s i
  | .producer complete _ _ => (complete = false ∧ Vacant s i) ∨ Reserved s i complete
  | .available complete => s.trail.headPos ≤ s.trail.turnPos i ∧ Payload s i (s.trail.turnPos i) complete
  | .consumer complete _ _ => Payload s i (s.trail.turnPos i) complete ∨ Turned s i complete

structure SlotOk (s : Shared G α) (i : Nat) : Prop where
  turn : (s.slot i).turn = G.cursor (s.trail.turnPos i)
  mod : s.trail.turnPos i % G.capacity = i
  behind : s.trail.tailPos ≤ s.trail.turnPos i + G.capacity
  ahead : s.trail.turnPos i < s.trail.headPos + G.capacity
  fits : (s.ctl i).Fits G.participants
  word : (s.slot i).control = (s.ctl i).word
  phase : Phase s i (s.ctl i)
  recycled : ∀ p, p % G.capacity = i → (s.trail.recycled p = true ↔
    p + G.capacity ≤ s.trail.turnPos i ∧
      ¬(p + G.capacity = s.trail.turnPos i ∧ s.trail.tailPos ≤ s.trail.turnPos i ∧
        (s.ctl i).isConsumer = true))

structure Ring (strict : Prop) (s : Shared G α) : Prop where
  head : s.head = G.cursor s.trail.headPos
  tail : s.tail = G.cursor s.trail.tailPos
  order : s.trail.headPos ≤ s.trail.tailPos
  unreserved : ∀ p, s.trail.fate p = .unreserved ↔ s.trail.tailPos ≤ p
  past : ∀ p, p < s.trail.headPos → s.trail.fate p = .skipped ∨ ∃ v, s.trail.fate p = .published v
  claims : s.trail.claims = (List.range s.trail.headPos).filter fun p => (s.trail.fate p).isPublished
  takes : ∀ p x, (p, x) ∈ s.trail.takes →
    p < s.trail.headPos ∧ ∃ v, x = some v ∧ s.trail.fate p = .published v
  takes_nodup : (s.trail.takes.map Prod.fst).Nodup
  kept : strict → ∀ p, s.trail.fate p ≠ .lost
  released : strict → ∀ p ∈ s.trail.released, p < s.trail.headPos ∨ s.trail.fate p = .skipped ∨
    (s.trail.fate p = .reserved ∧ ∃ c d r, s.ctl (p % G.capacity) = .producer c d (r + 1))

variable {strict : Prop} {s s' : Shared G α} {i j : Nat}
variable {p : Nat} {complete : Bool}

theorem Ring.lt_tail (ring : Ring strict s) (h : s.trail.fate p ≠ .unreserved) : p < s.trail.tailPos := by
  by_contra late
  exact h ((ring.unreserved p).mpr (by omega))

theorem Ring.taken (ring : Ring strict s) {x : Option α} (mem : (p, x) ∈ s.trail.takes) :
    p ∈ s.trail.claims ∧ ∃ v, x = some v ∧ s.trail.fate p = .published v := by
  obtain ⟨passed, v, rfl, published⟩ := ring.takes p x mem
  refine ⟨?_, v, rfl, published⟩
  rw [ring.claims, List.mem_filter, List.mem_range, published]
  exact ⟨passed, rfl⟩

theorem Payload.ne_unreserved (h : Payload s i p complete) : s.trail.fate p ≠ .unreserved := by
  cases complete with
  | false =>
    have skipped : s.trail.fate p = .skipped := h
    simp [skipped]
  | true =>
    obtain ⟨v, published, -⟩ := h
    simp [published]

theorem lap_apart {c q : Nat} (same : p % c = q % c) (lt : p < q) : p + c ≤ q := by
  obtain ⟨k, hk⟩ := (Nat.modEq_iff_dvd' (Nat.le_of_lt lt)).mp same
  rcases Nat.eq_zero_or_pos k with rfl | pos
  · omega
  · have := Nat.le_mul_of_pos_right c pos
    omega

theorem SlotOk.turnPos_of_reserved (ring : Ring strict s) (slot : SlotOk s i)
    (mod : p % G.capacity = i) (reserved : s.trail.fate p = .reserved) : p = s.trail.turnPos i := by
  have lt := ring.lt_tail (p := p) (by simp [reserved])
  have mod' := slot.mod
  have behind := slot.behind
  have ahead := slot.ahead
  have late : s.trail.headPos ≤ p := by
    by_contra early
    rcases ring.past p (by omega) with h | ⟨v, h⟩ <;> simp [h] at reserved
  rcases Nat.lt_trichotomy p (s.trail.turnPos i) with h | h | h
  · have := lap_apart (mod.trans mod'.symm) h
    omega
  · exact h
  · have := lap_apart (mod'.trans mod.symm) h
    omega

/-! ### Steps that concern one slot -/

/-- Nothing that is said of slot `j` has changed. -/
structure Same (s s' : Shared G α) (j : Nat) : Prop where
  slot : s'.slot j = s.slot j
  turnPos : s'.trail.turnPos j = s.trail.turnPos j
  content : s'.trail.content j = s.trail.content j
  fate : ∀ p, p % G.capacity = j → s'.trail.fate p = s.trail.fate p
  recycled : ∀ p, p % G.capacity = j → s'.trail.recycled p = s.trail.recycled p
  takes : ∀ p, p % G.capacity = j → p ∈ s'.trail.takes.map Prod.fst → p ∈ s.trail.takes.map Prod.fst
  head : ∀ p, p % G.capacity = j → (s'.trail.headPos ≤ p ↔ s.trail.headPos ≤ p)
  tail : ∀ p, p % G.capacity = j → (s'.trail.tailPos ≤ p ↔ s.trail.tailPos ≤ p)

/-- A step that concerns slot `i` only. -/
structure Frame (s s' : Shared G α) (i : Nat) : Prop where
  head_le : s.trail.headPos ≤ s'.trail.headPos
  tail_le : s.trail.tailPos ≤ s'.trail.tailPos
  other : ∀ j, j < G.capacity → j ≠ i → Same s s' j

theorem Same.refl (s : Shared G α) (j : Nat) : Same s s j :=
  ⟨rfl, rfl, rfl, fun _ _ => rfl, fun _ _ => rfl, fun _ _ h => h, fun _ _ => .rfl, fun _ _ => .rfl⟩

theorem Frame.refl (s : Shared G α) (i : Nat) : Frame s s i :=
  ⟨Nat.le_refl _, Nat.le_refl _, fun j _ _ => .refl s j⟩

theorem Same.ctl (same : Same s s' j) : s'.ctl j = s.ctl j := by
  rw [Shared.ctl, Shared.ctl, same.slot]

theorem Payload.same (same : Same s s' j) (mod : p % G.capacity = j)
    (h : Payload s j p complete) : Payload s' j p complete := by
  rw [Payload, same.fate p mod, same.slot, same.content]
  exact h

theorem Turned.same (same : Same s s' j) (mod : s.trail.turnPos j % G.capacity = j)
    (h : Turned s j complete) : Turned s' j complete := by
  obtain ⟨late, lap, payload⟩ := h
  rw [Turned, same.turnPos]
  refine ⟨(same.tail _ mod).mpr late, lap, payload.same same ?_⟩
  rw [← Nat.add_mod_right, Nat.sub_add_cancel lap, mod]

theorem Phase.same (same : Same s s' j) (mod : s.trail.turnPos j % G.capacity = j) {x : Control}
    (h : Phase s j x) : Phase s' j x := by
  have vacant : Vacant s j → Vacant s' j := by
    rw [Vacant, Vacant, same.turnPos, same.fate _ mod, same.tail _ mod]
    exact id
  cases x with
  | empty => exact vacant h
  | producer complete p r =>
    refine h.imp (fun h => ⟨h.1, vacant h.2⟩) fun h => ?_
    rw [Reserved, same.turnPos, same.fate _ mod, same.slot, same.content]
    exact h
  | available complete =>
    rw [Phase, same.turnPos, same.head _ mod]
    exact ⟨h.1, h.2.same same mod⟩
  | consumer complete p r =>
    rw [Phase, same.turnPos]
    exact h.imp (·.same same mod) (·.same same mod)

theorem SlotOk.same (ok : SlotOk s j) (same : Same s s' j) (head_le : s.trail.headPos ≤ s'.trail.headPos) : SlotOk s' j where
  turn := by rw [same.slot, same.turnPos, ok.turn]
  mod := by rw [same.turnPos, ok.mod]
  behind := by
    rw [same.turnPos, same.tail]
    · exact ok.behind
    · rw [Nat.add_mod_right, ok.mod]
  ahead := by
    rw [same.turnPos]
    exact Nat.lt_of_lt_of_le ok.ahead (Nat.add_le_add_right head_le _)
  fits := by rw [same.ctl]; exact ok.fits
  word := by rw [same.ctl, same.slot, ok.word]
  phase := by rw [same.ctl]; exact ok.phase.same same ok.mod
  recycled := by
    intro p mod
    rw [same.recycled p mod, same.turnPos, same.tail _ ok.mod, same.ctl]
    exact ok.recycled p mod

end State

end Evering.Queue
