import Evering.Queue.Invariant

/-!
# Who has a slot

The view of a thread says which slot's control word it has taken and how far it has come. A word names its
participant only, so that of two threads of one participant at most one has a given slot is part of the
invariant. A slot that names a live participant is in the view of one of its threads, or it is a claim that
the participant left unresolved.
-/

namespace Evering.Queue

open Interleave Cursor Views

section Views

variable {G : Geometry} {α : Type}

/-- How far a repair has come with the slot it has taken. -/
inductive Mend (G : Geometry)
  | start
  | read (turn : G.Word)
  /-- the producer had not moved tail -/
  | clear
  /-- the producer had moved tail -/
  | skip
  /-- the consumer had not moved head -/
  | restore
  /-- the consumer had moved head, but not the turn -/
  | retire (turn : G.Word)
  | discard

inductive View (G : Geometry) (α : Type)
  | idle
  /-- `PRODUCER` on slot `i`, perhaps in the wrong lap, and the turn if it was read -/
  | grabbed (i : Nat) (turn : Option G.Word)
  /-- turn and tail agree -/
  | checked (i : Nat)
  /-- tail has moved; the value if it was written -/
  | reserved (i : Nat) (value : Option α)
  | staged (i : Nat) (value : α)
  /-- `CONSUMER` on slot `i`, perhaps in the wrong lap, and the turn if it was read -/
  | taken (i : Nat) (complete : Bool) (turn : Option G.Word)
  /-- turn and head agree -/
  | matched (i : Nat) (complete : Bool) (turn : G.Word)
  /-- head has moved -/
  | claimed (i : Nat) (complete : Bool) (turn : G.Word) (untaken : Bool)
  | turned (i : Nat) (complete : Bool)
  | repairing (i : Nat) (control : Control) (mend : Mend G)

def View.slot : View G α → Option Nat
  | idle => none
  | grabbed i _ => some i
  | checked i => some i
  | reserved i _ => some i
  | staged i _ => some i
  | taken i _ _ => some i
  | matched i _ _ => some i
  | claimed i _ _ _ => some i
  | turned i _ => some i
  | repairing i _ _ => some i

/-- The participant that a word names, and its reaper. -/
def Control.holder : Control → Option (Nat × Nat)
  | producer _ source reaper => some (source, reaper)
  | consumer _ source reaper => some (source, reaper)
  | _ => none

def Control.isProducer : Control → Bool
  | producer .. => true
  | _ => false

def Mend.Ok (strict : Prop) (s : Shared G α) (i : Nat) (x : Control) : Mend G → Prop
  | start => True
  | read turn => (s.slot i).turn = turn
  | clear => x.isProducer = true ∧ s.trail.tailPos ≤ s.trail.turnPos i
  | skip => x.isProducer = true ∧ s.trail.turnPos i < s.trail.tailPos
  | restore => x.isConsumer = true ∧ s.trail.headPos ≤ s.trail.turnPos i ∧
      s.trail.turnPos i < s.trail.tailPos
  | retire turn => x.isConsumer = true ∧ s.trail.turnPos i < s.trail.headPos ∧ (s.slot i).turn = turn
  | discard => x.isConsumer = true ∧ s.trail.headPos ≤ s.trail.turnPos i ∧
      (strict → s.trail.tailPos ≤ s.trail.turnPos i)

/-- What a thread may rely on. -/
def View.Ok (strict : Prop) (s : Shared G α) (op : Op α) : View G α → Prop
  | idle => True
  | grabbed i turn => s.ctl i = .producer false op.owner 0 ∧ Vacant s i ∧
      ∀ w, turn = some w → (s.slot i).turn = w
  | checked i => s.ctl i = .producer false op.owner 0 ∧ s.trail.turnPos i = s.trail.tailPos
  | reserved i value => s.ctl i = .producer false op.owner 0 ∧
      s.trail.fate (s.trail.turnPos i) = .reserved ∧
      ∀ v, value = some v → (s.slot i).value = some v ∧ s.trail.content i = s.trail.turnPos i
  | staged i value => s.ctl i = .producer true op.owner 0 ∧
      s.trail.fate (s.trail.turnPos i) = .reserved ∧
      (s.slot i).value = some value ∧ s.trail.content i = s.trail.turnPos i
  | taken i complete turn => s.ctl i = .consumer complete op.owner 0 ∧
      s.trail.headPos ≤ s.trail.turnPos i ∧ s.trail.turnPos i < s.trail.tailPos ∧
      ∀ w, turn = some w → (s.slot i).turn = w
  | matched i complete turn => s.ctl i = .consumer complete op.owner 0 ∧
      s.trail.turnPos i = s.trail.headPos ∧ s.trail.turnPos i < s.trail.tailPos ∧
      (s.slot i).turn = turn
  | claimed i complete turn untaken => s.ctl i = .consumer complete op.owner 0 ∧
      s.trail.turnPos i < s.trail.headPos ∧ (s.slot i).turn = turn ∧
      (untaken = true → s.trail.turnPos i ∉ s.trail.takes.map Prod.fst)
  | turned i complete => s.ctl i = .consumer complete op.owner 0 ∧
      s.trail.tailPos ≤ s.trail.turnPos i
  | repairing i x mend => s.ctl i = x ∧ (∃ p, x.holder = some (p, op.owner + 1)) ∧
      op.repairs.map Prod.snd = some i ∧ mend.Ok strict s i x

variable {strict : Prop} {s s' : Shared G α} {i j : Nat} {op : Op α} {v : View G α}

theorem Mend.Ok.same (same : Same s s' j) (mod : s.trail.turnPos j % G.capacity = j) {x : Control}
    {mend : Mend G} (h : mend.Ok strict s j x) : mend.Ok strict s' j x := by
  have tail := same.tail _ mod
  have head := same.head _ mod
  cases mend <;> simp only [Mend.Ok, same.slot, same.turnPos] at h ⊢ <;> grind

theorem View.Ok.same (same : Same s s' j) (mod : s.trail.turnPos j % G.capacity = j)
    (head_le : s.trail.headPos ≤ s'.trail.headPos) (tail_le : s.trail.tailPos ≤ s'.trail.tailPos)
    (about : v.slot = some j) (h : v.Ok strict s op) : v.Ok strict s' op := by
  have tail := same.tail _ mod
  have head := same.head _ mod
  have fate := same.fate _ mod
  cases v <;> simp only [View.slot, Option.some.injEq, reduceCtorEq] at about <;> subst about
  case repairing i x mend =>
    simp only [View.Ok, same.ctl] at h ⊢
    exact ⟨h.1, h.2.1, h.2.2.1, h.2.2.2.same same mod⟩
  case claimed i complete turn untaken =>
    simp only [View.Ok, same.ctl, same.slot, same.turnPos] at h ⊢
    exact ⟨h.1, by omega, h.2.2.1, fun fresh taken => h.2.2.2 fresh (same.takes _ mod taken)⟩
  all_goals
    simp only [View.Ok, Vacant, same.ctl, same.slot, same.turnPos, same.content, fate, tail, head] at h ⊢
    grind

end Views

section Custody

variable {R : Route} {α : Type}

/-- Every thread has what its view says, and has it alone. -/
structure Custody (strict : Prop) (s : Shared R.toGeometry α) (dead : Nat → Bool)
    (views : Views (Op α) (View R.toGeometry α)) : Prop where
  alive : ∀ {t op v}, views t = some (op, v) → dead op.owner = false ∧ op.owner < R.participants
  repairs : ∀ {t op v d i}, views t = some (op, v) → op.repairs = some (d, i) → dead d = true
  one_repair : ∀ {t t' op op' v v' i}, views t = some (op, v) → views t' = some (op', v') →
    op.owner = op'.owner → op.repairs.map Prod.snd = some i → op'.repairs.map Prod.snd = some i → t = t'
  view : ∀ {t op v}, views t = some (op, v) → v.Ok strict s op
  bound : ∀ {t op v i}, views t = some (op, v) → v.slot = some i → i < R.capacity
  one : ∀ {t t' op op' v v' i}, views t = some (op, v) → views t' = some (op', v') →
    v.slot = some i → v'.slot = some i → t = t'
  /-- repairs are for the dead -/
  reaped : ∀ {i p r}, i < R.capacity → (s.ctl i).holder = some (p, r + 1) → dead p = true
  /-- a slot of a live participant is in the view of a thread, or an unresolved claim -/
  held : ∀ {i p r}, i < R.capacity → (s.ctl i).holder = some (p, r) → dead p = false →
    ((s.ctl i).isConsumer = true ∧ s.trail.turnPos i < s.trail.headPos) ∨
      ∃ t op v, views t = some (op, v) ∧ v.slot = some i

structure Inv (strict : Prop) (s : Shared R.toGeometry α) (dead : Nat → Bool)
    (views : Views (Op α) (View R.toGeometry α)) : Prop where
  ring : Ring strict s
  slot : ∀ i, i < R.capacity → SlotOk s i
  custody : Custody strict s dead views

variable {strict : Prop} {s : Shared R.toGeometry α} {dead : Nat → Bool}
  {views : Views (Op α) (View R.toGeometry α)} {t i : Nat} {op : Op α} {v v' : View R.toGeometry α}

/-- **Step of one thread.** The thread acts on slot `i`, which it has or which nobody has. What is left to
show concerns the ring, this slot and the new view. -/
theorem Inv.step (inv : Inv strict s dead views) (s' : Shared R.toGeometry α)
    (ht : views t = some (op, v)) (lt : i < R.capacity)
    (mine : v.slot = some i ∨ v.slot = none ∧ ∀ u op' w, views u = some (op', w) → w.slot ≠ some i)
    (next : v'.slot = some i ∨ v'.slot = none) (frame : Frame s s' i) (ring : Ring strict s')
    (slot : SlotOk s' i) (ok : v'.Ok strict s' op) (reaped : ∀ p r, (s'.ctl i).holder = some (p, r + 1) → dead p = true)
    (held : ∀ p r, (s'.ctl i).holder = some (p, r) → dead p = true ∨ v'.slot = some i) :
    Inv strict s' dead (Function.update views t (some (op, v'))) := by
  have custody := inv.custody
  -- no other thread has slot `i`
  have alone : ∀ {u op' w}, u ≠ t → views u = some (op', w) → w.slot ≠ some i := by
    intro u op' w ne hu about
    rcases mine with mine | ⟨-, free⟩
    · exact ne (custody.one hu ht about mine)
    · exact free u op' w hu about
  have same {j : Nat} (hj : j < R.capacity) (ne : j ≠ i) : Same s s' j := frame.other j hj ne
  have other {u op' w} (ne : u ≠ t) (hu : views u = some (op', w)) : w.Ok strict s' op' := by
    rcases about : w.slot with _ | j
    · cases w <;> simp only [View.slot, reduceCtorEq] at about
      trivial
    · have hj := custody.bound hu about
      have apart : j ≠ i := fun h => alone ne hu (h ▸ about)
      exact (custody.view hu).same (same hj apart) (inv.slot j hj).mod frame.head_le frame.tail_le about
  constructor
  case ring => exact ring
  case slot =>
    intro j hj
    by_cases apart : j = i
    · exact apart ▸ slot
    · exact (inv.slot j hj).same (same hj apart) frame.head_le
  case custody =>
    constructor
    case alive => exact Views.put (custody.alive ht) fun _ => custody.alive
    case repairs => exact Views.put (custody.repairs ht) fun _ => custody.repairs
    case one_repair =>
      exact Views.put_pair (fun _ _ _ => rfl) (fun _ => custody.one_repair ht) (fun _ old => custody.one_repair old ht)
        custody.one_repair
    case view => exact Views.put ok other
    case bound =>
      intro u op' w j hu about
      rcases update_cases hu with ⟨-, -, rfl⟩ | ⟨-, old⟩
      · rcases next with next | next
        · rw [next, Option.some.injEq] at about
          exact about ▸ lt
        · rw [next] at about
          cases about
      · exact custody.bound old about
    case one =>
      intro u u' op₁ op₂ w w' j
      have mine' : v'.slot = some j → j = i := by
        intro h
        rcases next with next | next <;> rw [next] at h
        · exact (Option.some.inj h).symm
        · cases h
      refine Views.put_pair (fun _ _ => rfl) (fun ne old about about' => ?_) (fun ne old about about' => ?_) custody.one
      · exact (alone ne old (mine' about ▸ about')).elim
      · exact (alone ne old (mine' about' ▸ about)).elim
    case reaped =>
      intro j p r hj
      by_cases apart : j = i
      · exact apart ▸ reaped p r
      · rw [(same hj apart).ctl]
        exact custody.reaped hj
    case held =>
      intro j p r hj holder alive
      by_cases apart : j = i
      · subst apart
        rcases held p r holder with gone | has
        · rw [gone] at alive
          cases alive
        · exact .inr ⟨t, op, v', Function.update_self .., has⟩
      · have hs := same hj apart
        rw [hs.ctl] at holder
        rcases custody.held hj holder alive with ⟨consumer, passed⟩ | ⟨u, op', w, hu, about⟩
        · refine .inl ⟨by rwa [hs.ctl], ?_⟩
          have := frame.head_le
          rw [hs.turnPos]
          omega
        · refine .inr ⟨u, op', w, (Function.update_of_ne ?_ ..).trans hu, about⟩
          rintro rfl
          rw [ht, Option.some.injEq, Prod.mk.injEq] at hu
          rw [← hu.2] at about
          rcases mine with mine | ⟨none, -⟩
          · rw [mine, Option.some.injEq] at about
            exact apart about.symm
          · rw [none] at about
            cases about

end Custody

end Evering.Queue
