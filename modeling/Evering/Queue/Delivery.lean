import Evering.Interleave.Solo
import Evering.Queue.RepairSpecs

/-!
# Delivery without crashes

Every run of the queue machine keeps the invariant. Without crashes there are no repairs, so that every
published position is claimed once, in the order of the positions, and a queue on which nothing runs can
be drained.
-/

namespace Evering.Queue

open Interleave Cursor Function List Views

section Sound

variable {R : Route} {α : Type} {strict : Prop} {s : Shared R.toGeometry α} {dead : Nat → Bool}
  {views : Views (Op α) (View R.toGeometry α)} {t : Nat} {op : Op α} {v : View R.toGeometry α} {p : Nat}

theorem Ring.init (G : Geometry) (α : Type) : Ring strict (Shared.init G α) where
  head := (Geometry.cursor_of_lt G.capacity_pos).symm
  tail := (Geometry.cursor_of_lt G.capacity_pos).symm
  order := Nat.le_refl _
  unreserved := fun p => iff_of_true rfl (Nat.zero_le p)
  past := fun p lt => absurd lt (Nat.not_lt_zero p)
  claims := rfl
  takes := fun p x mem => by cases mem
  takes_nodup := nodup_nil
  kept := fun _ p h => by cases h
  released := fun _ p mem => by cases mem

theorem init_ctl (G : Geometry) (α : Type) (i : Nat) : (Shared.init G α).ctl i = .empty := by
  show Control.ofWord empty = .empty
  decide

theorem SlotOk.init (G : Geometry) (α : Type) {i : Nat} (lt : i < G.capacity) : SlotOk (Shared.init G α) i where
  turn := (Geometry.cursor_of_lt lt).symm
  mod := Nat.mod_eq_of_lt lt
  behind := Nat.zero_le _
  ahead := by
    show i < 0 + G.capacity
    omega
  fits := by
    rw [init_ctl]
    trivial
  word := by
    rw [init_ctl]
    rfl
  phase := by
    rw [init_ctl]
    exact .inl (Nat.zero_le _)
  recycled := by
    intro p _
    refine iff_of_false (by simp [Shared.init]) fun h => ?_
    have : p + G.capacity ≤ i := h.1
    omega

theorem Inv.init : Inv strict (Shared.init R.toGeometry α) (fun _ => false) fun _ => none where
  ring := .init R.toGeometry α
  slot := fun _ lt => .init R.toGeometry α lt
  custody :=
    { alive := fun h => by cases h
      repairs := fun h => by cases h
      one_repair := fun h => by cases h
      view := fun h => by cases h
      bound := fun h => by cases h
      one := fun h => by cases h
      reaped := fun _ h => by rw [init_ctl] at h; cases h
      held := fun _ h => by rw [init_ctl] at h; cases h }

section

variable (custody : Custody strict s dead views)

include custody

theorem Custody.spawn (free : views t = none) (alive : dead op.owner = false) (numbered : op.owner < R.participants)
    (gone : ∀ d i, op.repairs = some (d, i) → dead d = true)
    (single : ∀ u op' w i, views u = some (op', w) → op'.owner = op.owner →
      op.repairs.map Prod.snd = some i → op'.repairs.map Prod.snd ≠ some i) :
    Custody strict s dead (update views t (some (op, .idle))) := by
  constructor
  case alive => exact Views.put ⟨alive, numbered⟩ fun _ => custody.alive
  case repairs => exact Views.put (gone _ _) fun _ => custody.repairs
  case one_repair =>
    exact Views.put_pair (fun _ _ _ => rfl) (fun _ old owner mine mine' => (single _ _ _ _ old owner.symm mine mine').elim)
      (fun _ old owner mine mine' => (single _ _ _ _ old owner mine' mine).elim) custody.one_repair
  case view => exact Views.put trivial fun _ => custody.view
  case bound => exact Views.put nofun fun _ => custody.bound
  case one => exact Views.put_pair (fun _ _ => rfl) (fun _ _ => nofun) (fun _ _ _ => nofun) custody.one
  case reaped => exact custody.reaped
  case held =>
    intro i p r lt holder alive'
    refine (custody.held lt holder alive').imp_right ?_
    rintro ⟨u, op', w, hu, about⟩
    refine ⟨u, op', w, (update_of_ne ?_ ..).trans hu, about⟩
    rintro rfl
    rw [free] at hu
    cases hu

/-- Threads may vanish if the slots they had are left to repair or are unresolved claims. -/
theorem Custody.shrink {dead' : Nat → Bool} {views' : Views (Op α) (View R.toGeometry α)}
    (sub : ∀ {u op' w}, views' u = some (op', w) → views u = some (op', w))
    (alive : ∀ {u op' w}, views' u = some (op', w) → dead' op'.owner = false)
    (more : ∀ d, dead d = true → dead' d = true) (left : ∀ {u op' w i p r}, views u = some (op', w) → w.slot = some i →
      (s.ctl i).holder = some (p, r) → views' u = some (op', w) ∨ dead' p = true ∨
        ((s.ctl i).isConsumer = true ∧ s.trail.turnPos i < s.trail.headPos)) : Custody strict s dead' views' where
  alive := fun hu => ⟨alive hu, (custody.alive (sub hu)).2⟩
  repairs := fun hu h => more _ (custody.repairs (sub hu) h)
  one_repair := fun hu hu' => custody.one_repair (sub hu) (sub hu')
  view := fun hu => custody.view (sub hu)
  bound := fun hu => custody.bound (sub hu)
  one := fun hu hu' => custody.one (sub hu) (sub hu')
  reaped := fun lt holder => more _ (custody.reaped lt holder)
  held := by
    intro i p r lt holder alive'
    have old : dead p = false := by
      by_contra h
      rw [more p (by simpa using h)] at alive'
      cases alive'
    rcases custody.held lt holder old with claimed | ⟨u, op', w, hu, about⟩
    · exact .inl claimed
    rcases left hu about holder with kept | gone | claimed
    · exact .inr ⟨u, op', w, kept, about⟩
    · rw [gone] at alive'
      cases alive'
    · exact .inl claimed

theorem Custody.retire (ht : views t = some (op, v)) (idle : v.Idle) : Custody strict s dead (update views t none) := by
  refine custody.shrink (fun hu => (retire_some hu).2)
    (fun hu => (custody.alive (retire_some hu).2).1) (fun _ h => h) ?_
  intro u op' w i p r hu about holder
  by_cases same : u = t
  · subst same
    rw [ht, Option.some.injEq, Prod.mk.injEq] at hu
    obtain ⟨rfl, rfl⟩ := hu
    have ok := custody.view ht
    have lt := custody.bound ht about
    cases v with
    | idle => cases about
    | claimed j c turn untaken =>
      obtain rfl : j = i := Option.some.inj about
      exact .inr (.inr ⟨by rw [ok.1]; rfl, ok.2.1⟩)
    | repairing j x mend =>
      obtain rfl : j = i := Option.some.inj about
      obtain ⟨ctl, ⟨q, named⟩, -⟩ := ok
      rw [ctl, named, Option.some.injEq, Prod.mk.injEq] at holder
      exact .inr (.inl (holder.1 ▸ custody.reaped lt (ctl ▸ named)))
    | _ => cases idle
  · exact .inl ((update_of_ne same ..).trans hu)

theorem Custody.crash : Custody strict s (update dead p true)
      fun t => (views t).filter fun th => (machine R α true).owner th.1 != p := by
  refine custody.shrink (fun hu => (crash_some hu).1) ?_ (fun _ => mark_kept) ?_
  · intro u op' w hu
    obtain ⟨old, other⟩ := crash_some hu
    exact (update_of_ne other ..).trans (custody.alive old).1
  · intro u op' w i q r hu about holder
    by_cases same : op'.owner = p
    · -- the word names the thread that vanished, or somebody who was dead before
      refine .inr (.inl ?_)
      rcases (custody.view hu).holder about with h | ⟨⟨q', h⟩, -⟩ <;>
        rw [holder, Option.some.injEq, Prod.mk.injEq] at h
      · rw [h.1, same, update_self]
      · obtain ⟨rfl, rfl⟩ := h
        exact mark_kept (custody.reaped (custody.bound hu about) holder)
    · exact .inl (Option.filter_eq_some_iff.mpr ⟨hu, bne_iff_ne.mpr same⟩)

end

/-- A number is used again that no word names and for which no repair runs. -/
theorem Inv.rejoin {p : Nat} (inv : Inv strict s dead views) (unnamed : ∀ i, i < R.capacity → ∀ r, (s.ctl i).holder ≠ some (p, r))
    (unrepaired : ∀ t op v i, views t = some (op, v) → op.repairs ≠ some (p, i)) : Inv strict s (update dead p false) views := by
  have custody := inv.custody
  have same {q r i : Nat} (lt : i < R.capacity) (holder : (s.ctl i).holder = some (q, r)) : update dead p false q = dead q := by
    refine update_of_ne ?_ ..
    rintro rfl
    exact unnamed i lt r holder
  refine ⟨inv.ring, inv.slot, { custody with alive := ?_, repairs := ?_, reaped := ?_, held := ?_ }⟩
  · exact fun hu => ⟨mark_kept (custody.alive hu).1, (custody.alive hu).2⟩
  · intro t op v d i hu repairs
    rw [update_of_ne]
    · exact custody.repairs hu repairs
    · rintro rfl
      exact unrepaired t op v i hu repairs
  · exact fun lt holder => (same lt holder).trans (custody.reaped lt holder)
  · exact fun lt holder alive => custody.held lt holder ((same lt holder).symm.trans alive)

theorem Inv.spawn {ops : List (Op α)} (inv : Inv strict s dead views) (free : views t = none) (alive : dead op.owner = false)
    (within : views.Within ops) (ready : (machine R α true).ready s dead ops op = true) :
    Inv strict s dead (update views t (some (op, .idle))) ∧ ∀ d i, op.repairs = some (d, i) → d ≠ op.owner := by
  simp only [machine, Bool.and_eq_true, decide_eq_true_eq] at ready
  obtain ⟨numbered, ready⟩ := ready
  have repairs : ∀ d i, op.repairs = some (d, i) → dead d = true ∧
      ∀ op' ∈ ops, ¬(op'.owner = op.owner ∧ op'.repairs.map Prod.snd = some i) := by
    intro d i h
    rw [h] at ready
    simpa only [Bool.not_true, Bool.false_or, Bool.and_eq_true, all_eq_true, decide_eq_true_eq] using ready
  refine ⟨⟨inv.ring, inv.slot, ?_⟩, fun d i h same => ?_⟩
  · refine inv.custody.spawn free alive numbered (fun d i h => (repairs d i h).1) ?_
    intro u op' w i hu owner mine mine'
    rcases h : op.repairs with _ | ⟨d, j⟩
    · rw [h] at mine
      cases mine
    · obtain rfl : j = i := by
        rw [h] at mine
        exact Option.some.inj mine
      exact (repairs d j h).2 op' (within u op' w hu) ⟨owner, mine'⟩
  · rw [← same, (repairs d i h).1] at alive
    cases alive

theorem sound (R : Route) (α : Type) (strict : Prop) : (protocol R α strict).Sound (machine R α true) (.init R.toGeometry α) where
  init := .init
  spawn := by
    intro s dead views t op ops inv free alive within ready
    obtain ⟨inv', others⟩ := inv.spawn free alive within ready
    exact ⟨.idle, inv', code_spec others⟩
  retire := fun inv ht idle => ⟨inv.ring, inv.slot, inv.custody.retire ht idle⟩
  crash := fun inv _ => ⟨⟨inv.ring, inv.slot, inv.custody.crash⟩, Keeps.refl strict _⟩
  rejoin := fun _ _ _ h => by cases h
  refl := Keeps.refl strict

end Sound

/-! ### Draining -/

section Drain

variable {R : Route} {α : Type} {strict : Prop} {s : Shared R.toGeometry α} {dead : Nat → Bool}
  {views : Views (Op α) (View R.toGeometry α)}

theorem Inv.turnPos_waiting (inv : Inv strict s dead views) {p : Nat} (late : s.trail.headPos ≤ p)
    (taken : p < s.trail.tailPos) : s.trail.turnPos (p % R.capacity) = p := by
  have slot := inv.slot (p % R.capacity) (Nat.mod_lt _ R.capacity_pos)
  have behind := slot.behind
  have ahead := slot.ahead
  rcases Nat.lt_trichotomy (s.trail.turnPos (p % R.capacity)) p with h | h | h
  · have := lap_apart slot.mod h
    omega
  · exact h
  · have := lap_apart slot.mod.symm h
    omega

/-- When nothing runs and no word names the dead, the positions that wait for head are available. -/
theorem Inv.waiting (inv : Inv True s dead views) (idle : ∀ t, views t = none)
    (clean : ∀ i, i < R.capacity → ∀ q r, (s.ctl i).holder = some (q, r) → dead q = false) {p : Nat}
    (late : s.trail.headPos ≤ p) (taken : p < s.trail.tailPos) : ∃ c, s.ctl (p % R.capacity) = .available c := by
  have lt : p % R.capacity < R.capacity := Nat.mod_lt _ R.capacity_pos
  have here := inv.turnPos_waiting late taken
  have phase := (inv.slot _ lt).phase
  have unheld : ∀ q r, (s.ctl (p % R.capacity)).holder ≠ some (q, r) := by
    intro q r holder
    rcases inv.custody.held lt holder (clean _ lt q r holder) with ⟨-, passed⟩ | ⟨t, op, v, ht, -⟩
    · omega
    · rw [idle t] at ht
      cases ht
  rcases ctl : s.ctl (p % R.capacity) with _ | ⟨c, q, r⟩ | c | ⟨c, q, r⟩
  · rw [ctl] at phase
    rcases phase with early | lost
    · omega
    · exact absurd lost (inv.ring.kept trivial _)
  · exact absurd (by rw [ctl]; rfl) (unheld q r)
  · exact ⟨c, rfl⟩
  · exact absurd (by rw [ctl]; rfl) (unheld q r)

theorem consume_alone (s : Shared R.toGeometry α) (q : Nat) (oracle : Nat → Nat) {c : Bool}
    (receiving : (s.lifecycle >>> R.recvField) &&& 0b11 = 0)
    (control : (s.slot (R.index s.head)).control = (Control.available c).word)
    (turn : (s.slot (R.index s.head)).turn = s.head) : let s' := ((Op.code R (.consume q .take)).solo oracle 0 s).1
    s'.trail.headPos = s.trail.headPos + 1 ∧ s'.trail.tailPos = s.trail.tailPos ∧
      s'.trail.fate = s.trail.fate ∧ s'.lifecycle = s.lifecycle ∧
      ∀ i, (s'.slot i).control = if i = R.index s.head then empty else (s.slot i).control := by
  have words : ¬((Control.available c).word ≠ available ∧ (Control.available c).word ≠ available ||| completeBit) := by
    cases c <;> decide
  have bit : (Control.available c).word &&& completeBit = 0 ↔ c = false := by
    cases c <;> decide
  cases c <;>
    simp [Op.code, claim, take, recycle, fieldState, loadHead, loadHeadAt, loadControl, loadTurn,
      compareExchangeControlAt, compareExchangeHead, storeTurn, settleControl, Prog.bind_assoc, Prog.ite_bind,
      receiving, control, turn, words, bit, Shared.setSlot, Trail.claim, Trail.take, Trail.advanceTurn,
      Trail.recycle, update_apply, apply_ite Slot.control]

/-- Steps without crashes in which every judgement of a repair is sound. -/
def Quiet (strict : Prop) (c : Config (Shared R.toGeometry α) Site (Op α)) (st : Step (Op α)) : Prop :=
  Uncrashed c st ∧ Allowed (Judged strict) (fun _ _ => True) c st

/-- **Draining.** When nothing runs and no word names the dead, consumers pass every reserved position. -/
theorem drain {c : Config (Shared R.toGeometry α) Site (Op α)} (holds : (protocol R α True).Holds c)
    (idle : ∀ t, c.threads t = none)
    (clean : ∀ i, i < R.capacity → ∀ q r, (c.shared.ctl i).holder = some (q, r) → c.dead q = false)
    (receiving : (c.shared.lifecycle >>> R.recvField) &&& 0b11 = 0) {q : Nat} (numbered : q < R.participants)
    (alive : c.dead q = false) :
    ∃ c', (machine R α true).Run (Quiet True) c c' ∧ c'.shared.trail.headPos = c.shared.trail.tailPos ∧
      c'.shared.trail.tailPos = c.shared.trail.tailPos ∧ c'.shared.trail.fate = c.shared.trail.fate := by
  -- the induction is on the number of positions between head and tail
  generalize distance : c.shared.trail.tailPos - c.shared.trail.headPos = n
  induction n generalizing c with
  | zero =>
    obtain ⟨views, inv, -⟩ := holds
    have := inv.ring.order
    exact ⟨c, .refl, by omega, rfl, rfl⟩
  | succ n ih =>
    have ⟨views, inv, follows, _⟩ := holds
    have waits : c.shared.trail.headPos < c.shared.trail.tailPos := by omega
    obtain ⟨b, ctl⟩ := inv.waiting (fun t => follows.view_none (idle t)) clean (Nat.le_refl _) waits
    have here := inv.turnPos_waiting (Nat.le_refl _) waits
    have index : R.index c.shared.head = c.shared.trail.headPos % R.capacity := by
      rw [inv.ring.head, Geometry.index_cursor]
    have slot := inv.slot _ (Nat.mod_lt c.shared.trail.headPos R.capacity_pos)
    have ok : ∀ (c : Config (Shared R.toGeometry α) Site (Op α)) t prog n,
        c.threads t = some (.consume q .take, prog) → Quiet True c (.run t n) := by
      intro c t prog n ht
      refine ⟨trivial, fun op site act next h => ?_⟩
      rw [ht, Option.some.injEq, Prod.mk.injEq] at h
      exact h.1 ▸ trivial
    have ready : (machine R α true).ready c.shared c.dead [] (.consume q .take) = true := by
      simp [machine, Op.owner, Op.repairs, numbered]
    obtain ⟨c', run, shared, dead, idle'⟩ := Machine.spawn_alone (M := machine R α true)
      (fun c => ⟨trivial, trivial⟩) ok (fun _ => 0) idle alive ready
    have effect := consume_alone c.shared q (fun _ => 0) receiving
      (by rw [index, slot.word, ctl]) (by rw [index, slot.turn, here, inv.ring.head])
    have code : (machine R α true).code (.consume q .take) = Op.code R (.consume q .take) := rfl
    simp only [← code, ← shared] at effect
    obtain ⟨head, tail, fate, lifecycle, control⟩ := effect
    have clean' : ∀ i, i < R.capacity → ∀ p r, (c'.shared.ctl i).holder = some (p, r) → c'.dead p = false := by
      intro i lt p r holder
      rw [dead]
      rw [Shared.ctl, control i] at holder
      split at holder
      · rw [show Control.ofWord empty = .empty by decide] at holder
        cases holder
      · exact clean i lt p r holder
    have holds' := (sound R α True).run holds (run.mono fun _ _ h => h.2)
    obtain ⟨c'', run', head', tail', fate'⟩ := ih holds' idle' clean' (by rw [lifecycle, receiving])
      (by rw [dead, alive]) (by omega)
    exact ⟨c'', run.trans run', by rw [head', tail], by rw [tail', tail], by rw [fate', fate]⟩

end Drain

/-! ### Delivery -/

section Delivery

variable {R : Route} {α : Type} {strict : Prop} {s : Shared R.toGeometry α} {dead : Nat → Bool}
  {views : Views (Op α) (View R.toGeometry α)}
variable {p : Nat} {v : α} {c c' : Config (Shared R.toGeometry α) Site (Op α)}

/-- A reserved position that is not recycled is that of its slot's turn, or its slot is being recycled. -/
theorem Inv.unrecycled (inv : Inv strict s dead views) (taken : p < s.trail.tailPos)
    (unrecycled : s.trail.recycled p = false) : s.trail.turnPos (p % R.capacity) = p ∨
      (p + R.capacity = s.trail.turnPos (p % R.capacity) ∧ s.trail.tailPos ≤ s.trail.turnPos (p % R.capacity) ∧
        (s.ctl (p % R.capacity)).isConsumer = true) := by
  have slot := inv.slot (p % R.capacity) (Nat.mod_lt _ R.capacity_pos)
  have behind := slot.behind
  have recycled := slot.recycled p rfl
  rw [unrecycled] at recycled
  rcases Nat.lt_trichotomy (s.trail.turnPos (p % R.capacity)) p with h | h | h
  · have := lap_apart slot.mod h
    omega
  · exact .inl h
  · by_contra other
    have := lap_apart slot.mod.symm h
    exact absurd (recycled.mpr ⟨this, fun turned => other (.inr turned)⟩) (by simp)

theorem Payload.value {i : Nat} {c : Bool} (payload : Payload s i p c)
    (published : s.trail.fate p = .published v) : (s.slot i).value = some v := by
  cases c with
  | false =>
    have skipped : s.trail.fate p = .skipped := payload
    rw [published] at skipped
    cases skipped
  | true =>
    obtain ⟨w, published', value, -⟩ := payload
    rw [published, Fate.published.injEq] at published'
    rw [value, published']

theorem Inv.value_kept (inv : Inv strict s dead views)
    (published : s.trail.fate p = .published v) (unrecycled : s.trail.recycled p = false) :
    (s.slot (p % R.capacity)).value = some v := by
  have taken := inv.ring.lt_tail (p := p) (by simp [published])
  have slot := inv.slot (p % R.capacity) (Nat.mod_lt _ R.capacity_pos)
  have phase := slot.phase
  rcases inv.unrecycled taken unrecycled with here | ⟨turned, late, consumer⟩
  · rcases ctl : s.ctl (p % R.capacity) with _ | ⟨c, q, r⟩ | c | ⟨c, q, r⟩ <;>
      simp only [ctl, Phase, Vacant, Reserved, Turned, here, published, reduceCtorEq, or_false, false_and] at phase
    · omega
    · omega
    · exact phase.2.value published
    · rcases phase with payload | ⟨late, -⟩
      · exact payload.value published
      · omega
  · obtain ⟨q, r, ctl⟩ := Control.eq_consumer consumer
    rw [ctl] at phase
    rcases phase with payload | ⟨-, -, payload⟩
    · have := inv.ring.lt_tail payload.ne_unreserved
      omega
    · rw [← turned, Nat.add_sub_cancel] at payload
      exact payload.value published

theorem length_filter_recent {m n : Nat} {f : Nat → Bool} (recent : ∀ p, p < m → f p = true → m ≤ p + n) :
    ((List.range m).filter f).length ≤ n := by
  have split : List.range m = List.range (m - n) ++ (List.range (min n m)).map (m - n + ·) := by
    rw [← range_add]
    congr 1
    omega
  have none : (List.range (m - n)).filter f = [] := by
    rw [filter_eq_nil_iff]
    intro p mem selected
    have lt := mem_range.mp mem
    have := recent p (by omega) selected
    omega
  rw [split, filter_append, none, nil_append]
  refine (length_filter_le ..).trans ?_
  rw [length_map, length_range]
  exact Nat.min_le_left ..

theorem Inv.outstanding (inv : Inv strict s dead views) :
    ((List.range s.trail.tailPos).filter fun p => !s.trail.recycled p).length ≤ R.capacity := by
  refine length_filter_recent fun p taken unrecycled => ?_
  have slot := inv.slot (p % R.capacity) (Nat.mod_lt _ R.capacity_pos)
  have behind := slot.behind
  rcases inv.unrecycled taken (by simpa using unrecycled) with here | ⟨turned, late, -⟩ <;> omega

theorem Keeps.trans {s₁ s₂ s₃ : Shared R.toGeometry α} (h : Keeps strict s₁ s₂) (h' : Keeps strict s₂ s₃) :
    Keeps strict s₁ s₃ := by
  refine ⟨h.claims.trans h'.claims, fun st p settled => ?_⟩
  have first := h.settled st p settled
  exact (h'.settled st p (first ▸ settled)).trans first

def Peaceful (c : Config (Shared R.toGeometry α) Site (Op α)) : Prop :=
  (∀ p, c.dead p = false) ∧ ∀ t op prog, c.threads t = some (op, prog) → op.repairs = none

theorem settle_some {op op' : Op α} {prog prog' : Prog (Shared R.toGeometry α) Site Unit}
    (h : settle op prog = some (op', prog')) : op' = op := by
  cases prog with
  | done a => cases h
  | choose next => exact (congrArg Prod.fst (Option.some.inj h)).symm
  | atomic site act next => exact (congrArg Prod.fst (Option.some.inj h)).symm

theorem Peaceful.step {st : Step (Op α)}
    (peace : Peaceful c) (calm : Uncrashed c st) (stepped : (machine R α true).exec c st = some c') : Peaceful c' := by
  obtain ⟨alive, calmly⟩ := peace
  have enter : ∀ {t : Nat} {op : Op α} {prog : Prog (Shared R.toGeometry α) Site Unit}, op.repairs = none →
      ∀ u op' prog', update c.threads t (settle op prog) u = some (op', prog') →
        op'.repairs = none := by
    intro t op prog none u op' prog' h
    by_cases same : u = t
    · subst same
      rw [update_self] at h
      rw [settle_some h, none]
    · rw [update_of_ne same] at h
      exact calmly u op' prog' h
  cases st with
  | spawn op =>
    simp only [Machine.exec, Option.ite_none_right_eq_some, Bool.and_eq_true, Option.some.injEq] at stepped
    obtain ⟨⟨-, ready⟩, rfl⟩ := stepped
    refine ⟨alive, enter ?_⟩
    rcases repairs : op.repairs with _ | ⟨d, i⟩
    · rfl
    · simp [machine, repairs, alive d] at ready
  | run t n =>
    simp only [Machine.exec] at stepped
    rcases ht : c.threads t with _ | ⟨op, prog⟩
    · rw [ht] at stepped
      cases stepped
    rw [ht] at stepped
    cases prog with
    | done a => cases stepped
    | choose next =>
      obtain rfl := Option.some.inj stepped
      exact ⟨alive, enter (calmly t op _ ht)⟩
    | atomic site act next =>
      obtain rfl := Option.some.inj stepped
      exact ⟨alive, enter (calmly t op _ ht)⟩
  | crash p => exact calm.elim
  | rejoin p =>
    simp [Machine.exec, machine] at stepped

theorem Peaceful.run (peace : Peaceful c) (run : (machine R α true).Run Uncrashed c c') :
    (machine R α true).Run (Allowed (Judged strict) fun _ _ => True) c c' ∧ Peaceful c' := by
  refine run.restrict peace Peaceful.step fun c st peace calm => ?_
  cases st with
  | run t n =>
    intro op site act next ht
    have none := peace.2 t op _ ht
    cases op <;> trivial
  | spawn op => trivial
  | crash p => trivial
  | rejoin p => trivial

theorem Peaceful.start (s : Shared R.toGeometry α) : Peaceful (.start s : Config (Shared R.toGeometry α) Site (Op α)) :=
  ⟨fun _ => rfl, fun _ _ _ h => by cases h⟩

end Delivery

/-- **Delivery without crashes.** In every run of any number of producers and consumers: the successful claims are the
published positions that head has passed, each once and in order; what is taken is taken once and is what was published; a
value stays in its slot until this is recycled; at most `capacity` reserved positions are not recycled; no fate changes; and
when nothing runs on a queue that is open for receiving, consumers claim all that was published. -/
theorem delivery (R : Route) {α : Type} {c : Config (Shared R.toGeometry α) Site (Op α)}
    (run : (machine R α true).Run Uncrashed (.start (.init R.toGeometry α)) c) :
    (c.shared.head = R.cursor c.shared.trail.headPos ∧ c.shared.tail = R.cursor c.shared.trail.tailPos ∧
      c.shared.trail.headPos ≤ c.shared.trail.tailPos) ∧
    c.shared.trail.claims =
      (List.range c.shared.trail.headPos).filter (fun p => (c.shared.trail.fate p).isPublished) ∧
    (∀ p x, (p, x) ∈ c.shared.trail.takes →
      p ∈ c.shared.trail.claims ∧ ∃ v, x = some v ∧ c.shared.trail.fate p = .published v) ∧
    (c.shared.trail.takes.map Prod.fst).Nodup ∧
    (∀ p v, c.shared.trail.fate p = .published v → c.shared.trail.recycled p = false →
      (c.shared.slot (p % R.capacity)).value = some v) ∧
    ((List.range c.shared.trail.tailPos).filter fun p => !c.shared.trail.recycled p).length ≤ R.capacity ∧
    (∀ c', (machine R α true).Run Uncrashed c c' → ∀ p, (c.shared.trail.fate p).isSettled = true →
      c'.shared.trail.fate p = c.shared.trail.fate p) ∧
    ((∀ t, c.threads t = none) → (c.shared.lifecycle >>> R.recvField) &&& 0b11 = 0 →
      ∀ q, q < R.participants → ∃ c', (machine R α true).Run Uncrashed c c' ∧
        c'.shared.trail.tailPos = c.shared.trail.tailPos ∧
        c'.shared.trail.claims =
          (List.range c.shared.trail.tailPos).filter fun p => (c.shared.trail.fate p).isPublished) := by
  obtain ⟨run', peace⟩ : (machine R α true).Run (Allowed (Judged True) fun _ _ => True) _ c ∧ Peaceful c :=
    (Peaceful.start _).run run
  have holds := (sound R α True).run (sound R α True).start run'
  have ⟨views, inv, _⟩ := holds
  have ring := inv.ring
  refine ⟨⟨ring.head, ring.tail, ring.order⟩, ring.claims, fun p x => ring.taken, ring.takes_nodup,
    fun p v => inv.value_kept, inv.outstanding, fun c' further p settled => ?_, fun idle receiving q lt => ?_⟩
  · have keeps := (sound R α True).run_guar (fun _ _ _ => Keeps.trans) holds (peace.run further).1
    exact keeps.settled trivial p settled
  · obtain ⟨c', rest, head, tail, fate⟩ := drain holds idle (fun _ _ _ _ _ => peace.1 _) receiving lt (peace.1 q)
    have quiet : (machine R α true).Run Uncrashed c c' := rest.mono fun _ _ h => h.1
    obtain ⟨views', inv', -⟩ := (sound R α True).run holds (peace.run quiet).1
    refine ⟨c', quiet, tail, ?_⟩
    rw [inv'.ring.claims, head, fate]

/-- Threads that run to their end one after the other, each for so many steps. -/
def inTurn (ops : List (Op Nat × Nat)) : List (Step (Op Nat)) :=
  ops.zipIdx.flatMap fun ((op, n), t) => .spawn op :: List.replicate n (.run t 0)

/-- A value is published, a reservation is cancelled, and a consumer passes both. -/
theorem delivery_pair : ∃ c, (machine pairRoute Nat true).Run Uncrashed (.start (.init pairRoute.toGeometry Nat)) c ∧
    c.shared.trail.takes = [(0, some 7)] ∧ c.shared.trail.headPos = 2 ∧
    c.shared.trail.claims =
      (List.range c.shared.trail.headPos).filter fun p => (c.shared.trail.fate p).isPublished := by
  have steps : ((machine pairRoute Nat true).execIf Uncrashed (.start (.init pairRoute.toGeometry Nat))
      (inTurn [(.produce 0 7 .publish, 13), (.produce 0 8 .cancel, 14), (.consume 1 .take, 10),
        (.consume 1 .take, 9)])).map (fun c => (c.shared.trail.takes, c.shared.trail.headPos)) =
      some ([(0, some 7)], 2) := by decide +kernel
  obtain ⟨c, run, same⟩ := Machine.exists_run steps
  rw [Prod.mk.injEq] at same
  exact ⟨c, run, same.1, same.2, (delivery pairRoute run).2.1⟩

end Evering.Queue
