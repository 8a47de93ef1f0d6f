import Evering.Queue.Custody

/-!
# Effects of the atomic actions

One lemma per kind of action: what a store to a control word, a move of tail, head or a turn, and a write
of a value do to the ring and to the slot concerned.
-/

namespace Evering.Queue

open Interleave Cursor Function List

variable {G : Geometry} {α : Type} {strict : Prop} {s : Shared G α} {i : Nat} {x : Control}

/-- The state after a store of `x` to the control word of slot `i`. -/
def Shared.put (s : Shared G α) (i : Nat) (x : Control) (tr : Trail α) : Shared G α :=
  { s.setSlot i { s.slot i with control := x.word } with trail := tr }

section Put

variable {tr : Trail α}

theorem put_slot_self : (s.put i x tr).slot i = { s.slot i with control := x.word } :=
  update_self ..

theorem put_slot_of_ne {j : Nat} (ne : j ≠ i) : (s.put i x tr).slot j = s.slot j :=
  update_of_ne ne ..

theorem put_ctl_self (fits : x.Fits G.participants) : (s.put i x tr).ctl i = x := by
  rw [Shared.ctl, put_slot_self]
  exact Control.ofWord_word G.participants_le fits

theorem put_ctl_of_ne {j : Nat} (ne : j ≠ i) : (s.put i x tr).ctl j = s.ctl j := by
  rw [Shared.ctl, put_slot_of_ne ne, Shared.ctl]

theorem payload_put {p : Nat} {c : Bool} : Payload (s.put i x s.trail) i p c ↔ Payload s i p c := by
  rw [Payload, put_slot_self]
  rfl

theorem phase_put {y : Control} : Phase (s.put i x s.trail) i y ↔ Phase s i y := by
  cases y with
  | empty => rfl
  | producer c p r =>
    rw [Phase, Reserved, put_slot_self]
    rfl
  | available c =>
    rw [Phase, payload_put]
    rfl
  | consumer c p r =>
    rw [Phase, Turned, payload_put, payload_put]
    rfl

/-- The trails differ in what they say of the positions of slot `i`. -/
structure Mark (G : Geometry) (i : Nat) (tr tr' : Trail α) : Prop where
  headPos : tr'.headPos = tr.headPos
  tailPos : tr'.tailPos = tr.tailPos
  turnPos : tr'.turnPos = tr.turnPos
  content : tr'.content = tr.content
  takes : tr'.takes = tr.takes
  fate : ∀ p, p % G.capacity ≠ i → tr'.fate p = tr.fate p
  recycled : ∀ p, p % G.capacity ≠ i → tr'.recycled p = tr.recycled p

theorem Mark.refl (i : Nat) (tr : Trail α) : Mark G i tr tr :=
  ⟨rfl, rfl, rfl, rfl, rfl, fun _ _ => rfl, fun _ _ => rfl⟩

theorem Mark.setFate (mod : tr.turnPos i % G.capacity = i) (f : Fate α) : Mark G i tr (tr.setFate i f) := by
  refine ⟨rfl, rfl, rfl, rfl, rfl, fun p ne => update_of_ne ?_ .., fun _ _ => rfl⟩
  rintro rfl
  exact ne mod

theorem Mark.recycle (mod : tr.turnPos i % G.capacity = i) (lap : G.capacity ≤ tr.turnPos i) :
    Mark G i tr (tr.recycle G.capacity i) := by
  refine ⟨rfl, rfl, rfl, rfl, rfl, fun _ _ => rfl, fun p ne => update_of_ne ?_ ..⟩
  rintro rfl
  rw [← Nat.add_mod_right, Nat.sub_add_cancel lap] at ne
  exact ne mod

theorem Frame.put (mark : Mark G i s.trail tr) : Frame s (s.put i x tr) i := by
  refine ⟨Nat.le_of_eq mark.headPos.symm, Nat.le_of_eq mark.tailPos.symm, fun j _ ne => ?_⟩
  constructor
  case slot => exact put_slot_of_ne ne
  case turnPos => exact congrFun mark.turnPos j
  case content => exact congrFun mark.content j
  case fate => exact fun p mod => mark.fate p (mod ▸ ne)
  case recycled => exact fun p mod => mark.recycled p (mod ▸ ne)
  case takes =>
    intro p _ taken
    rwa [show (s.put i x tr).trail.takes = s.trail.takes from mark.takes] at taken
  case head =>
    intro p _
    rw [show (s.put i x tr).trail.headPos = s.trail.headPos from mark.headPos]
  case tail =>
    intro p _
    rw [show (s.put i x tr).trail.tailPos = s.trail.tailPos from mark.tailPos]

theorem Ring.put (ring : Ring strict s) (slot : SlotOk s i) (fits : x.Fits G.participants)
    (headPos : tr.headPos = s.trail.headPos) (tailPos : tr.tailPos = s.trail.tailPos)
    (fate : tr.fate = s.trail.fate) (claims : tr.claims = s.trail.claims)
    (takes : tr.takes = s.trail.takes) (released : tr.released = s.trail.released)
    (keep : ∀ c d r, s.ctl i = .producer c d (r + 1) →
      s.trail.tailPos ≤ s.trail.turnPos i ∨ ∃ c' d' r', x = .producer c' d' (r' + 1)) : Ring strict (s.put i x tr) := by
  constructor <;> simp only [Shared.put, Shared.setSlot, headPos, tailPos, fate, claims, takes, released]
  case head => exact ring.head
  case tail => exact ring.tail
  case order => exact ring.order
  case unreserved => exact ring.unreserved
  case past => exact ring.past
  case claims => exact ring.claims
  case takes => exact ring.takes
  case takes_nodup => exact ring.takes_nodup
  case kept => exact ring.kept
  case released =>
    intro st p hp
    refine (ring.released st p hp).imp_right (Or.imp_right ?_)
    rintro ⟨reserved, c, d, r, hc⟩
    refine ⟨reserved, ?_⟩
    by_cases mod : p % G.capacity = i
    · rw [mod] at hc ⊢
      rcases keep c d r hc with late | ⟨c', d', r', rfl⟩
      · have := ring.lt_tail (p := p) (by simp [reserved])
        have := slot.turnPos_of_reserved ring mod reserved
        omega
      · exact ⟨c', d', r', (put_ctl_self fits : (s.put i _ tr).ctl i = _)⟩
    · exact ⟨c, d, r, (put_ctl_of_ne mod : (s.put i x tr).ctl _ = _).trans hc⟩

theorem Ring.put_fate (ring : Ring strict s) (slot : SlotOk s i) {f : Fate α}
    (late : s.trail.headPos ≤ s.trail.turnPos i) (taken : s.trail.turnPos i < s.trail.tailPos)
    (open_ : f ≠ .unreserved) (kept : strict → f ≠ .lost)
    (rel : strict → s.trail.turnPos i ∈ s.trail.released → f = .skipped) : Ring strict (s.put i x (s.trail.setFate i f)) := by
  have other {p : Nat} (ne : p ≠ s.trail.turnPos i) : (s.trail.setFate i f).fate p = s.trail.fate p :=
    update_of_ne ne ..
  have same : (s.trail.setFate i f).fate (s.trail.turnPos i) = f := update_self ..
  have early {p : Nat} (lt : p < s.trail.headPos) :
      (s.trail.setFate i f).fate p = s.trail.fate p := other (by omega)
  constructor
  case head => exact ring.head
  case tail => exact ring.tail
  case order => exact ring.order
  case unreserved =>
    intro p
    show (s.trail.setFate i f).fate p = .unreserved ↔ s.trail.tailPos ≤ p
    by_cases h : p = s.trail.turnPos i
    · rw [h, same]
      exact iff_of_false open_ (by omega)
    · rw [other h]
      exact ring.unreserved p
  case past =>
    intro p lt
    show (s.trail.setFate i f).fate p = .skipped ∨ ∃ v, (s.trail.setFate i f).fate p = .published v
    rw [early lt]
    exact ring.past p lt
  case claims =>
    refine ring.claims.trans (filter_congr fun p hp => ?_)
    rw [← early (mem_range.mp hp)]
    rfl
  case takes =>
    intro p x hp
    obtain ⟨lt, v, hx, hv⟩ := ring.takes p x hp
    exact ⟨lt, v, hx, (early lt).trans hv⟩
  case takes_nodup => exact ring.takes_nodup
  case kept =>
    intro st p
    show (s.trail.setFate i f).fate p ≠ .lost
    by_cases h : p = s.trail.turnPos i
    · rw [h, same]
      exact kept st
    · rw [other h]
      exact ring.kept st p
  case released =>
    intro st p hp
    by_cases h : p = s.trail.turnPos i
    · subst h
      exact .inr (.inl (same.trans (rel st hp)))
    · refine (ring.released st p hp).imp_right (Or.imp (other h).trans ?_)
      rintro ⟨reserved, c, d, r, hc⟩
      have mod : p % G.capacity ≠ i := fun mod => h (slot.turnPos_of_reserved ring mod reserved)
      exact ⟨(other h).trans reserved, c, d, r, (put_ctl_of_ne mod).trans hc⟩

theorem SlotOk.put (slot : SlotOk s i) (fits : x.Fits G.participants) (mark : Mark G i s.trail tr)
    (recycled : tr.recycled = s.trail.recycled)
    (consumer : s.trail.tailPos ≤ s.trail.turnPos i → x.isConsumer = (s.ctl i).isConsumer)
    (phase : Phase (s.put i x tr) i x) : SlotOk (s.put i x tr) i := by
  have tail : (s.put i x tr).trail.tailPos = s.trail.tailPos := mark.tailPos
  have turn : (s.put i x tr).trail.turnPos i = s.trail.turnPos i := congrFun mark.turnPos i
  constructor
  case turn => rw [put_slot_self, turn]; exact slot.turn
  case mod => rw [turn]; exact slot.mod
  case behind => rw [turn, tail]; exact slot.behind
  case ahead =>
    rw [turn, show (s.put i x tr).trail.headPos = s.trail.headPos from mark.headPos]
    exact slot.ahead
  case fits => rwa [put_ctl_self fits]
  case word => rw [put_slot_self, put_ctl_self fits]
  case phase => rwa [put_ctl_self fits]
  case recycled =>
    intro p mod
    rw [turn, tail, put_ctl_self fits, show (s.put i x tr).trail.recycled = s.trail.recycled from recycled,
      slot.recycled p mod]
    constructor
    · rintro ⟨le, h⟩
      exact ⟨le, fun ⟨eq, late, hx⟩ => h ⟨eq, late, consumer late ▸ hx⟩⟩
    · rintro ⟨le, h⟩
      exact ⟨le, fun ⟨eq, late, hx⟩ => h ⟨eq, late, (consumer late).symm ▸ hx⟩⟩

theorem SlotOk.put_recycle (slot : SlotOk s i) (late : s.trail.tailPos ≤ s.trail.turnPos i)
    (lap : G.capacity ≤ s.trail.turnPos i) : SlotOk (s.put i .empty (s.trail.recycle G.capacity i)) i := by
  have ctl : (s.put i .empty (s.trail.recycle G.capacity i)).ctl i = .empty := put_ctl_self trivial
  constructor
  case turn => rw [put_slot_self]; exact slot.turn
  case mod => exact slot.mod
  case behind => exact slot.behind
  case ahead => exact slot.ahead
  case fits => rw [ctl]; trivial
  case word => rw [put_slot_self, ctl]
  case phase => rw [ctl]; exact .inl late
  case recycled =>
    intro p mod
    rw [ctl]
    show update s.trail.recycled (s.trail.turnPos i - G.capacity) true p = true ↔ p + G.capacity ≤ s.trail.turnPos i ∧ _
    by_cases h : p = s.trail.turnPos i - G.capacity
    · rw [h, update_self]
      refine iff_of_true rfl ⟨by omega, ?_⟩
      simp [Control.isConsumer]
    · rw [update_of_ne h, slot.recycled p mod]
      constructor
      · exact fun ⟨le, _⟩ => ⟨le, by simp [Control.isConsumer]⟩
      · exact fun ⟨le, _⟩ => ⟨le, fun ⟨eq, _⟩ => h (by omega)⟩

end Put

/-! ### Cursors -/

def Shared.moveTail (s : Shared G α) (i : Nat) : Shared G α :=
  { s with tail := G.next s.tail, trail := s.trail.reserve i }

theorem Frame.moveTail (slot : SlotOk s i) (here : s.trail.turnPos i = s.trail.tailPos) : Frame s (s.moveTail i) i := by
  have mod := slot.mod
  refine ⟨Nat.le_refl _, Nat.le_succ _, fun j _ ne => ?_⟩
  constructor
  case slot => rfl
  case turnPos => rfl
  case content => rfl
  case fate =>
    intro p hp
    refine update_of_ne ?_ ..
    rintro rfl
    exact ne (hp.symm.trans mod)
  case recycled => exact fun _ _ => rfl
  case takes => exact fun _ _ h => h
  case head => exact fun _ _ => .rfl
  case tail =>
    intro p hp
    show s.trail.tailPos + 1 ≤ p ↔ s.trail.tailPos ≤ p
    have : p ≠ s.trail.tailPos := by
      rintro rfl
      exact ne (hp.symm.trans (here ▸ mod))
    omega

theorem Ring.moveTail (ring : Ring strict s) (here : s.trail.turnPos i = s.trail.tailPos) : Ring strict (s.moveTail i) := by
  have order := ring.order
  have other {p : Nat} (ne : p ≠ s.trail.tailPos) :
      (s.moveTail i).trail.fate p = s.trail.fate p := by
    rw [← here] at ne
    exact update_of_ne ne ..
  have same : (s.moveTail i).trail.fate s.trail.tailPos = .reserved := by
    rw [← here]
    exact update_self ..
  have early {p : Nat} (lt : p < s.trail.headPos) : (s.moveTail i).trail.fate p = s.trail.fate p :=
    other (by omega)
  constructor
  case head => exact ring.head
  case tail =>
    show G.next s.tail = G.cursor (s.trail.tailPos + 1)
    rw [ring.tail, Geometry.next_cursor]
  case order => exact Nat.le_succ_of_le order
  case unreserved =>
    intro p
    show (s.moveTail i).trail.fate p = .unreserved ↔ s.trail.tailPos + 1 ≤ p
    by_cases h : p = s.trail.tailPos
    · rw [h, same]
      simp
    · rw [other h, ring.unreserved]
      omega
  case past =>
    intro p lt
    rw [early lt]
    exact ring.past p lt
  case claims =>
    refine ring.claims.trans (filter_congr fun p hp => ?_)
    rw [early (mem_range.mp hp)]
  case takes =>
    intro p x hp
    obtain ⟨lt, v, hx, hv⟩ := ring.takes p x hp
    exact ⟨lt, v, hx, (early lt).trans hv⟩
  case takes_nodup => exact ring.takes_nodup
  case kept =>
    intro st p
    by_cases h : p = s.trail.tailPos
    · rw [h, same]
      simp
    · rw [other h]
      exact ring.kept st p
  case released =>
    intro st p hp
    have old := ring.released st p hp
    have ne : p ≠ s.trail.tailPos := by
      rintro rfl
      have fresh := (ring.unreserved s.trail.tailPos).mpr (Nat.le_refl _)
      rw [fresh] at old
      simp at old
      omega
    rw [other ne]
    exact old

theorem SlotOk.moveTail (slot : SlotOk s i) (here : s.trail.turnPos i = s.trail.tailPos) {p r : Nat}
    (ctl : s.ctl i = .producer false p r) : SlotOk (s.moveTail i) i := by
  have ctl' : (s.moveTail i).ctl i = .producer false p r := ctl
  have pos := G.capacity_pos
  refine { slot with behind := ?behind, phase := ?phase, recycled := ?recycled }
  case behind =>
    show s.trail.tailPos + 1 ≤ s.trail.turnPos i + G.capacity
    omega
  case phase =>
    rw [ctl']
    exact .inr ⟨update_self .., fun h => by cases h⟩
  case recycled =>
    intro q mod
    refine (slot.recycled q mod).trans ?_
    rw [ctl, ctl']
    simp [Control.isConsumer, Shared.moveTail, Trail.reserve, Trail.setFate]

def Shared.moveHead (s : Shared G α) (i : Nat) (complete : Bool) : Shared G α :=
  { s with head := G.next s.head, trail := s.trail.claim i complete }

theorem Frame.moveHead (slot : SlotOk s i) (here : s.trail.turnPos i = s.trail.headPos)
    (complete : Bool) : Frame s (s.moveHead i complete) i := by
  have mod := slot.mod
  refine ⟨Nat.le_succ _, Nat.le_refl _, fun j _ ne => ?_⟩
  refine ⟨rfl, rfl, rfl, fun _ _ => rfl, fun _ _ => rfl, fun _ _ h => h, fun p hp => ?_, fun _ _ => .rfl⟩
  show s.trail.headPos + 1 ≤ p ↔ s.trail.headPos ≤ p
  have : p ≠ s.trail.headPos := by
    rintro rfl
    exact ne (hp.symm.trans (here ▸ mod))
  omega

variable {complete : Bool}

theorem Ring.moveHead (ring : Ring strict s) (here : s.trail.turnPos i = s.trail.headPos)
    (taken : s.trail.turnPos i < s.trail.tailPos)
    (payload : Payload s i (s.trail.turnPos i) complete) : Ring strict (s.moveHead i complete) := by
  refine { ring with
    head := ?head, order := ?order, past := ?past, claims := ?claims, takes := ?takes, released := ?released }
  case head =>
    show G.next s.head = G.cursor (s.trail.headPos + 1)
    rw [ring.head, Geometry.next_cursor]
  case order =>
    show s.trail.headPos + 1 ≤ s.trail.tailPos
    omega
  case past =>
    intro p lt
    rcases Nat.lt_succ_iff_lt_or_eq.mp lt with old | rfl
    · exact ring.past p old
    · rw [← here]
      cases complete with
      | false => exact .inl payload
      | true =>
        obtain ⟨v, published, -⟩ := payload
        exact .inr ⟨v, published⟩
  case claims =>
    show s.trail.claims ++ _ = (List.range (s.trail.headPos + 1)).filter fun p => (s.trail.fate p).isPublished
    rw [range_succ, filter_append, ← ring.claims, here]
    congr 1
    rw [here] at payload
    cases complete with
    | false =>
      have skipped : s.trail.fate s.trail.headPos = .skipped := payload
      simp [skipped, Fate.isPublished]
    | true =>
      obtain ⟨v, published, -⟩ := payload
      simp [published, Fate.isPublished]
  case takes =>
    intro p x hp
    obtain ⟨lt, rest⟩ := ring.takes p x hp
    exact ⟨Nat.lt_succ_of_lt lt, rest⟩
  case released =>
    exact fun st p hp => (ring.released st p hp).imp_left Nat.lt_succ_of_lt

theorem SlotOk.moveHead (slot : SlotOk s i) {p r : Nat}
    (ctl : s.ctl i = .consumer complete p r) : SlotOk (s.moveHead i complete) i := by
  have ctl' : (s.moveHead i complete).ctl i = .consumer complete p r := ctl
  refine ⟨slot.turn, slot.mod, slot.behind, ?_, slot.fits, slot.word, ?_, slot.recycled⟩
  · show s.trail.turnPos i < s.trail.headPos + 1 + G.capacity
    have := slot.ahead
    omega
  · have phase := slot.phase
    rw [ctl] at phase
    rw [ctl']
    exact phase

def Shared.moveTurn (s : Shared G α) (i : Nat) : Shared G α :=
  { s.setSlot i { s.slot i with turn := (s.slot i).turn + G.lapWord } with
    trail := s.trail.advanceTurn G.capacity i }

theorem Frame.moveTurn (s : Shared G α) (i : Nat) : Frame s (s.moveTurn i) i := by
  refine ⟨Nat.le_refl _, Nat.le_refl _, fun j _ ne => ?_⟩
  exact ⟨update_of_ne ne .., update_of_ne ne .., rfl, fun _ _ => rfl, fun _ _ => rfl,
    fun _ _ h => h, fun _ _ => .rfl, fun _ _ => .rfl⟩

theorem moveTurn_ctl (j : Nat) : (s.moveTurn i).ctl j = s.ctl j := by
  by_cases h : j = i
  · subst h
    simp [Shared.ctl, Shared.moveTurn, Shared.setSlot]
  · simp [Shared.ctl, Shared.moveTurn, Shared.setSlot, update_of_ne h]

theorem Ring.moveTurn (ring : Ring strict s) : Ring strict (s.moveTurn i) := by
  refine { ring with released := fun st p hp => ?_ }
  rw [moveTurn_ctl]
  exact ring.released st p hp

theorem moveTurn_turnPos : (s.moveTurn i).trail.turnPos i = s.trail.turnPos i + G.capacity :=
  update_self ..

theorem Turned.moveTurn (slot : SlotOk s i)
    (payload : Payload s i (s.trail.turnPos i) complete) : Turned (s.moveTurn i) i complete := by
  rw [Turned, moveTurn_turnPos, Nat.add_sub_cancel]
  refine ⟨slot.behind, Nat.le_add_left .., ?_⟩
  rw [Payload, show ((s.moveTurn i).slot i).value = (s.slot i).value by simp [Shared.moveTurn, Shared.setSlot]]
  exact payload

theorem SlotOk.moveTurn (ring : Ring strict s) (slot : SlotOk s i) {p r : Nat}
    (ctl : s.ctl i = .consumer complete p r) (passed : s.trail.turnPos i < s.trail.headPos)
    (payload : Payload s i (s.trail.turnPos i) complete) : SlotOk (s.moveTurn i) i := by
  have order := ring.order
  have behind := slot.behind
  have mod := slot.mod
  constructor
  case turn =>
    rw [moveTurn_turnPos, ← Geometry.cursor_add_lap, ← slot.turn]
    simp [Shared.moveTurn, Shared.setSlot]
  case mod => rw [moveTurn_turnPos, Nat.add_mod_right, mod]
  case behind =>
    rw [moveTurn_turnPos]
    exact Nat.le_trans behind (Nat.le_add_right ..)
  case ahead =>
    rw [moveTurn_turnPos]
    exact Nat.add_lt_add_right passed _
  case fits => rw [moveTurn_ctl]; exact slot.fits
  case word =>
    rw [moveTurn_ctl, ← slot.word]
    simp [Shared.moveTurn, Shared.setSlot]
  case phase =>
    rw [moveTurn_ctl, ctl]
    exact .inr (.moveTurn slot payload)
  case recycled =>
    intro q hq
    rw [moveTurn_turnPos, moveTurn_ctl, ctl]
    refine (slot.recycled q hq).trans ?_
    have step : q < s.trail.turnPos i → q + G.capacity ≤ s.trail.turnPos i :=
      lap_apart (hq.trans mod.symm)
    have pos := G.capacity_pos
    constructor
    · rintro ⟨le, -⟩
      exact ⟨by omega, by omega⟩
    · rintro ⟨le, other⟩
      have ne : q + G.capacity ≠ s.trail.turnPos i + G.capacity := fun eq => other ⟨eq, behind, rfl⟩
      exact ⟨step (by omega), by omega⟩

/-! ### Values -/

/-- A value is written to slot `i` for its position. -/
def Shared.fill (s : Shared G α) (i : Nat) (value : α) : Shared G α :=
  { s.setSlot i { s.slot i with value := some value } with trail := s.trail.writeValue i }

theorem Frame.fill (s : Shared G α) (i : Nat) (value : α) : Frame s (s.fill i value) i := by
  refine ⟨Nat.le_refl _, Nat.le_refl _, fun j _ ne => ?_⟩
  exact ⟨update_of_ne ne .., rfl, update_of_ne ne .., fun _ _ => rfl, fun _ _ => rfl,
    fun _ _ h => h, fun _ _ => .rfl, fun _ _ => .rfl⟩

theorem fill_slot (value : α) : (s.fill i value).slot i = { s.slot i with value := some value } :=
  update_self ..

theorem fill_content (value : α) : (s.fill i value).trail.content i = s.trail.turnPos i :=
  update_self ..

theorem fill_ctl (value : α) (j : Nat) : (s.fill i value).ctl j = s.ctl j := by
  by_cases h : j = i
  · subst h
    simp [Shared.ctl, Shared.fill, Shared.setSlot]
  · simp [Shared.ctl, Shared.fill, Shared.setSlot, update_of_ne h]

theorem Ring.fill (ring : Ring strict s) (value : α) : Ring strict (s.fill i value) := by
  refine { ring with released := fun st p hp => ?_ }
  rw [fill_ctl]
  exact ring.released st p hp

theorem SlotOk.fill (slot : SlotOk s i) {p r : Nat} (ctl : s.ctl i = .producer false p r)
    (reserved : s.trail.fate (s.trail.turnPos i) = .reserved) (value : α) : SlotOk (s.fill i value) i := by
  constructor
  case turn => rw [fill_slot]; exact slot.turn
  case mod => exact slot.mod
  case behind => exact slot.behind
  case ahead => exact slot.ahead
  case fits => rw [fill_ctl]; exact slot.fits
  case word => rw [fill_ctl, fill_slot]; exact slot.word
  case phase =>
    rw [fill_ctl, ctl]
    exact .inr ⟨reserved, fun h => by cases h⟩
  case recycled =>
    intro q mod
    rw [fill_ctl]
    exact slot.recycled q mod

/-- The value of slot `i` is taken out. -/
def Shared.logTake (s : Shared G α) (i : Nat) : Shared G α :=
  { s with trail := s.trail.take i (s.slot i).value }

theorem Frame.logTake (slot : SlotOk s i) : Frame s (s.logTake i) i := by
  refine ⟨Nat.le_refl _, Nat.le_refl _, fun j _ ne => ?_⟩
  refine ⟨rfl, rfl, rfl, fun _ _ => rfl, fun _ _ => rfl, fun p hp taken => ?_, fun _ _ => .rfl, fun _ _ => .rfl⟩
  simp only [Shared.logTake, Trail.take, map_append, map_cons, map_nil, mem_append, mem_singleton] at taken
  rcases taken with old | rfl
  · exact old
  · exact absurd (hp.symm.trans slot.mod) ne

theorem Ring.logTake (ring : Ring strict s) (passed : s.trail.turnPos i < s.trail.headPos)
    (payload : Payload s i (s.trail.turnPos i) true)
    (fresh : s.trail.turnPos i ∉ s.trail.takes.map Prod.fst) : Ring strict (s.logTake i) := by
  obtain ⟨v, published, value, -⟩ := payload
  refine { ring with takes := ?_, takes_nodup := ?_ }
  · intro p x hp
    simp only [Shared.logTake, Trail.take, mem_append, mem_singleton, Prod.mk.injEq] at hp
    rcases hp with old | ⟨rfl, rfl⟩
    · exact ring.takes p x old
    · exact ⟨passed, v, value, published⟩
  · simp only [Shared.logTake, Trail.take, map_append, map_cons, map_nil]
    refine List.Nodup.append ring.takes_nodup (nodup_singleton _) ?_
    exact disjoint_singleton.mpr fresh

theorem SlotOk.logTake (slot : SlotOk s i) : SlotOk (s.logTake i) i :=
  { slot with }

/-- The value of slot `i` is handed to a release callback. -/
def Shared.logRelease (s : Shared G α) (i : Nat) : Shared G α :=
  { s with trail := s.trail.release i }

theorem Frame.logRelease (s : Shared G α) (i : Nat) : Frame s (s.logRelease i) i :=
  ⟨Nat.le_refl _, Nat.le_refl _, fun _ _ _ => ⟨rfl, rfl, rfl, fun _ _ => rfl, fun _ _ => rfl,
    fun _ _ h => h, fun _ _ => .rfl, fun _ _ => .rfl⟩⟩

theorem Ring.logRelease (ring : Ring strict s) (spent : strict → s.trail.content i < s.trail.headPos ∨
      (s.trail.fate (s.trail.content i) = .reserved ∧
        ∃ c d r, s.ctl (s.trail.content i % G.capacity) = .producer c d (r + 1))) : Ring strict (s.logRelease i) := by
  refine { ring with released := fun st p hp => ?_ }
  rcases mem_append.mp hp with old | new
  · exact ring.released st p old
  · rw [mem_singleton.mp new]
    exact (spent st).imp_right .inr

theorem SlotOk.logRelease (slot : SlotOk s i) : SlotOk (s.logRelease i) i :=
  { slot with }

end Evering.Queue
