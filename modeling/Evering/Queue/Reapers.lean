import Evering.Interleave.Focus
import Evering.Interleave.Shows
import Evering.Queue.Delivery

/-!
# Several repairs of one slot

A repair takes the control word that a dead participant left by a compare-and-swap that enters its own participant as the
reaper; it goes on without one if it finds its participant entered already. Beside the queue the model notes which dead claim
of a slot the repairs have taken and not resolved, and whether a repair stored to a slot after its dead claim was resolved.
If a participant repairs a slot in one thread at a time, then no repair does, whatever else runs and whoever dies.
-/

namespace Evering.Queue.Reapers

open Interleave Function Option Views Protocol

/-! ### The queue with notes -/

structure Board (R : Route) (α : Type) where
  queue : Shared R.toGeometry α
  /-- the dead claim of a slot that a repair has taken and none has resolved -/
  taken : Nat → Option Nat
  /-- dead claims that were taken -/
  count : Nat
  /-- for every store of a repair that resolves, the dead claim it had taken -/
  resolved : List Nat
  /-- stores of repairs to turn or control of a slot whose dead claim was resolved before -/
  late : Nat

namespace Board

variable {R : Route} {α : Type} (b : Board R α)

def start (R : Route) (α : Type) : Board R α := ⟨.init R.toGeometry α, fun _ => none, 0, [], 0⟩

def word (i : Nat) : Nat := (b.queue.slot i).control

/-- The dead claim that a repair of slot `i` takes: the one that was taken before, or a new one -/
def claim (i : Nat) : Nat := (b.taken i).getD b.count

def take (i : Nat) : Board R α :=
  if b.taken i = none then { b with taken := update b.taken i (some b.count), count := b.count + 1 } else b

/-- A store for the dead claim `c` -/
def store (i c : Nat) : Board R α := if b.taken i = some c then b else { b with late := b.late + 1 }

/-- The store that resolves it -/
def resolve (i c : Nat) : Board R α :=
  { b.store i c with
    taken := if b.taken i = some c then update b.taken i none else b.taken
    resolved := c :: b.resolved }

end Board

abbrev BoardProg (R : Route) (α β : Type) : Type := Prog (Board R α) Site β

section Programs

variable {R : Route} {α β : Type}

/-- Every action of the program makes the note. -/
def noting (note : Board R α → Board R α) : QueueProg R.toGeometry α β → BoardProg R α β
  | .done a => .done a
  | .choose next => .choose fun n => noting note (next n)
  | .atomic site act next => .atomic site (fun b => { note b with queue := act b.queue }) fun b => noting note (next b.queue)

def onQueue (prog : QueueProg R.toGeometry α β) : BoardProg R α β := noting id prog

variable (R) in
/-- The repair goes on with this word without a swap. -/
def resumes (dead live control : Nat) : Bool :=
  canonical R.participants control && (base control == producer || base control == consumer) &&
    match assign dead live control with
    | .error _ => false
    | .ok next => next == control

def loadClaim (index dead live : Nat) : BoardProg R α (Nat × Nat) :=
  .action .plain fun b => (if resumes R dead live (b.word index) then b.take index else b, b.word index, b.claim index)

def swapClaim (index control next c : Nat) : BoardProg R α (Option Nat) :=
  if next ≠ control then
    .action .plain fun b =>
      if b.word index = control then
        ({ b.take index with queue := b.queue.setSlot index { b.queue.slot index with control := next } }, some (b.claim index))
      else (b, none)
  else pure (some c)

variable (R)

def advanceTurn (index : Nat) (turn head : R.Word) (c : Nat) : BoardProg R α Unit :=
  noting (·.store index c) (Queue.advanceTurn R index turn head)

/-- `repairProducer` for the dead claim `c` -/
def repairProducer (index control : Nat) (release : α → Nat → Bool) (c : Nat) : BoardProg R α Repair := do
  let turn ← onQueue (loadTurn index)
  let tail ← onQueue loadTail
  let distance := tail - turn
  if distance = 0 then
    if control &&& completeBit ≠ 0 then return .corrupted
    noting (·.resolve index c) (storeControl index empty)
    return .recovered
  else if distance.toNat < R.half then
    if !(← onQueue (releaseValue R index control release)) then return .corrupted
    noting (·.resolve index c) (settleControl index available fun tr => tr.setFate index .skipped)
    return .recovered
  else return .corrupted

/-- `repairConsumer` for the dead claim `c` -/
def repairConsumer (index control : Nat) (release : α → Nat → Bool) (c : Nat) : BoardProg R α Repair := do
  let turn ← onQueue (loadTurn index)
  let head ← onQueue (loadHeadAt (.judge index))
  if head = turn then
    noting (·.resolve index c) (storeControl index (available ||| (control &&& completeBit)))
    return .recovered
  if !(← onQueue (releaseValue R index control release)) then return .corrupted
  advanceTurn R index turn head c
  noting (·.resolve index c) (settleControl index empty fun tr => tr.discard R.capacity index)
  return .recovered

/-- `repairSlotWith` with its notes -/
def repairSlot (index dead live : Nat) (release : α → Nat → Bool) : BoardProg R α Repair := do
  if dead ≥ R.participants ∨ live ≥ R.participants then return .corrupted
  if index ≥ R.capacity then return .corrupted
  let (control, c) ← loadClaim index dead live
  if !canonical R.participants control then return .corrupted
  if base control ≠ producer ∧ base control ≠ consumer then return .none
  match assign dead live control with
  | .error result => return result
  | .ok next =>
    match ← swapClaim index control next c with
    | none => return .busy live
    | some c =>
      if base control = producer then repairProducer R index control release c
      else repairConsumer R index control release c

def code : Op α → BoardProg R α Unit
  | .repair live dead index release => do let _ ← repairSlot R index dead live release
  | op => onQueue (op.code R)

/-- `single`: a participant repairs a slot in one thread at a time. -/
def machine (α : Type) (single : Bool) : Machine (Board R α) Site (Op α) where
  owner := Op.owner
  code := code R
  ready := fun _ dead running op =>
    decide (op.owner < R.participants) &&
      match op.repairs with
      | none => true
      | some (d, index) =>
        dead d && (!single || running.all fun other =>
          decide (¬(other.owner = op.owner ∧ other.repairs.map Prod.snd = some index)))

end Programs

/-! ### The notes change nothing -/

section Shows

variable {R : Route} {α β : Type}

theorem take_queue (b : Board R α) (i : Nat) : (b.take i).queue = b.queue := by
  unfold Board.take
  split <;> rfl

theorem noting_shows (note : Board R α → Board R α) (prog : QueueProg R.toGeometry α β) :
    (noting note prog).Shows Board.queue Eq prog := by
  induction prog with
  | done a => exact rfl
  | choose next ih => exact ih
  | atomic site act next ih => exact ⟨rfl, fun b => ⟨rfl, ih b.queue⟩⟩

theorem onQueue_shows (prog : QueueProg R.toGeometry α β) : (onQueue prog).Shows Board.queue Eq prog := noting_shows id prog

theorem repairProducer_shows (index control : Nat) (release : α → Nat → Bool) (c : Nat) :
    (repairProducer R index control release c).Shows Board.queue Eq (Queue.repairProducer R index control release) := by
  refine .bind (onQueue_shows _) ?_
  rintro turn _ rfl
  refine .bind (onQueue_shows _) ?_
  rintro tail _ rfl
  dsimp only
  split
  · split
    · exact rfl
    · exact .bind (noting_shows _ _) fun _ _ _ => rfl
  · split
    · refine .bind (onQueue_shows _) ?_
      rintro freed _ rfl
      split
      · exact rfl
      · exact .bind (noting_shows _ _) fun _ _ _ => rfl
    · exact rfl

theorem repairConsumer_shows (index control : Nat) (release : α → Nat → Bool) (c : Nat) :
    (repairConsumer R index control release c).Shows Board.queue Eq (Queue.repairConsumer R index control release) := by
  refine .bind (onQueue_shows _) ?_
  rintro turn _ rfl
  refine .bind (onQueue_shows _) ?_
  rintro head _ rfl
  split
  · exact .bind (noting_shows _ _) fun _ _ _ => rfl
  refine .bind (onQueue_shows _) ?_
  rintro freed _ rfl
  split
  · exact rfl
  exact .bind (noting_shows _ _) fun _ _ _ => .bind (noting_shows _ _) fun _ _ _ => rfl

theorem loadClaim_shows (index dead live : Nat) :
    (loadClaim index dead live : BoardProg R α _).Shows Board.queue (fun a b => a.1 = b) (loadControl index) :=
  ⟨rfl, fun b => ⟨by
    show (if _ then b.take index else b).queue = b.queue
    split
    · exact take_queue b index
    · rfl, rfl⟩⟩

theorem swapClaim_shows (index control next c : Nat) :
    (swapClaim index control next c : BoardProg R α _).Shows Board.queue (fun a b => a.isSome = b)
      (swapControl R index control next) := by
  unfold swapClaim swapControl
  split
  · refine ⟨rfl, fun b => ?_⟩
    by_cases same : b.word index = control
    · have same' : (b.queue.slot index).control = control := same
      simp only [if_pos same, if_pos same']
      exact ⟨trivial, rfl⟩
    · have same' : ¬(b.queue.slot index).control = control := same
      simp only [if_neg same, if_neg same']
      exact ⟨trivial, rfl⟩
  · exact rfl

theorem repairSlot_shows (index dead live : Nat) (release : α → Nat → Bool) :
    (repairSlot R index dead live release).Shows Board.queue Eq (repairSlotWith R index dead live release) := by
  unfold repairSlot repairSlotWith
  split
  · exact rfl
  split
  · exact rfl
  refine .bind (loadClaim_shows index dead live) ?_
  rintro ⟨control, c⟩ _ rfl
  dsimp only
  split
  · exact rfl
  split
  · exact rfl
  rcases assign dead live control with result | next
  · exact rfl
  refine .bind (swapClaim_shows index control next c) ?_
  rintro (_ | c) _ rfl
  · exact rfl
  dsimp only [isSome_some]
  rw [if_neg (show ¬(!true) = true from Bool.false_ne_true)]
  split
  · exact repairProducer_shows index control release c
  · exact repairConsumer_shows index control release c

theorem machine_shows : (machine R α true).Shows Board.queue (Queue.machine R α true) where
  owner := fun _ => rfl
  code := fun op => by
    cases op with
    | repair live dead index release => exact .bind (repairSlot_shows index dead live release) fun _ _ _ => rfl
    | produce p value send => exact onQueue_shows _
    | consume p use => exact onQueue_shows _
    | closeSend p => exact onQueue_shows _
    | closeRecv p => exact onQueue_shows _
    | sendClosed p => exact onQueue_shows _
    | recvClosed p => exact onQueue_shows _
    | terminal p => exact onQueue_shows _
  crash := fun _ _ => rfl
  ready := fun _ _ _ _ h => h
  readmits := fun _ _ _ h => h

end Shows

/-! ### Who may store to a slot -/

section Words

variable {R : Route}

theorem reaper_or (w x : Nat) (small : x < 64) : reaper (w ||| (x <<< reaperShift)) = reaper w ||| x := by
  have low : x &&& 63 = x := (Nat.and_two_pow_sub_one_eq_mod x 6).trans (Nat.mod_eq_of_lt small)
  unfold reaper
  rw [Nat.and_or_distrib_right, Nat.shiftRight_or_distrib, show reaperMask = 63 <<< reaperShift from rfl,
    ← Nat.shiftLeft_and_distrib, low, Nat.shiftLeft_shiftRight]

theorem reaper_clearReaper (w : Nat) : reaper (clearReaper w) = 0 := by
  unfold reaper clearReaper
  rw [Nat.and_assoc, show (0xffff ^^^ reaperMask) &&& reaperMask = 0 by decide, Nat.and_zero, Nat.zero_shiftRight]

/-- The word that a repair takes was left by the dead, and it names the repairing participant from then on. -/
theorem assign_ok {dead live control next : Nat} (small : live < R.participants) (h : assign dead live control = .ok next) :
    reaper next = live + 1 ∧
      (next = control ∧ source control = dead + 1 ∧ reaper control = live + 1 ∨ reaper control = dead + 1 ∨
        source control = dead + 1 ∧ reaper control = 0) := by
  have lt : live + 1 < 64 := by
    have := R.participants_le
    omega
  unfold assign at h
  split at h
  · next own =>
    cases h
    exact ⟨own.2, .inl ⟨rfl, own⟩⟩
  split at h
  · next chain =>
    cases h
    rw [reaper_or _ _ lt, reaper_clearReaper, Nat.zero_or]
    exact ⟨rfl, .inr (.inl chain)⟩
  split at h
  · next vacant =>
    cases h
    refine ⟨?_, .inr (.inr vacant)⟩
    rw [reaper_or _ _ lt, vacant.2, Nat.zero_or]
  split at h <;> cases h

theorem source_owned {b p : Nat} (small : p < R.participants) (complete : Bool) (low : b < 4) :
    source (owned b complete p) = p + 1 ∧ reaper (owned b complete p) = 0 := by
  have := R.participants_le
  have := complete.toNat_le
  rw [owned_eq low, source_eq, reaper_eq]
  omega

end Words

/-- The slot of which a thread may change turn and control -/
inductive Hand
  | free
  /-- the word names the thread's participant and no reaper -/
  | owns (i : Nat)
  /-- the thread repairs, and has taken dead claim `c` -/
  | holds (i c : Nat)

def Hand.slot : Hand → Option Nat
  | free => none
  | owns i => some i
  | holds i _ => some i

section Invariant

variable {R : Route} {α β : Type}

def Hand.Ok (b : Board R α) (op : Op α) : Hand → Prop
  | free => True
  | owns i => source (b.word i) = op.owner + 1 ∧ reaper (b.word i) = 0
  | holds i c => reaper (b.word i) = op.owner + 1 ∧ b.taken i = some c ∧ op.repairs.map Prod.snd = some i

/-- The dead claims that are taken are different and not resolved. -/
structure Marks (b : Board R α) : Prop where
  named : ∀ {i c}, b.taken i = some c → reaper (b.word i) ≠ 0
  below : ∀ {i c}, b.taken i = some c → c < b.count
  one : ∀ {i j c}, b.taken i = some c → b.taken j = some c → i = j
  past : ∀ {c}, c ∈ b.resolved → c < b.count ∧ ∀ i, b.taken i ≠ some c
  once : b.resolved.Nodup
  timely : b.late = 0

structure Inv (b : Board R α) (dead : Nat → Bool) (views : Views (Op α) Hand) : Prop where
  alive : ∀ {t op v}, views t = some (op, v) → dead op.owner = false ∧ op.owner < R.participants
  repairs : ∀ {t op v d i}, views t = some (op, v) → op.repairs = some (d, i) → dead d = true
  single : ∀ {t t' op op' v v' i}, views t = some (op, v) → views t' = some (op', v') → op.owner = op'.owner →
    op.repairs.map Prod.snd = some i → op'.repairs.map Prod.snd = some i → t = t'
  hand : ∀ {t op v}, views t = some (op, v) → v.Ok b op
  one : ∀ {t t' op op' v v' i}, views t = some (op, v) → views t' = some (op', v') → v.slot = some i → v'.slot = some i →
    t = t'
  marks : Marks b

variable (R α) in
def protocol : Protocol (Board R α) Site (Op α) Hand where
  inv := Inv
  idle := fun _ => True

variable {b b' : Board R α} {dead : Nat → Bool} {views : Views (Op α) Hand} {t i c : Nat} {op : Op α} {v v' : Hand}
variable {j : Nat} {γ : Type} {prog : QueueProg R.toGeometry α β} {k : γ → QueueProg R.toGeometry α β} {site : Site}

theorem Hand.Ok.same (h : v.Ok b op) (about : v.slot = some j) (word : b'.word j = b.word j)
    (taken : b'.taken j = b.taken j) : v.Ok b' op := by
  cases v with
  | free => trivial
  | owns i =>
    cases about
    exact ⟨word ▸ h.1, word ▸ h.2⟩
  | holds i c =>
    cases about
    exact ⟨word ▸ h.1, taken ▸ h.2.1, h.2.2⟩

/-- **Step of one thread.** The thread acts on slot `i`, which it has or which nobody has. -/
theorem Inv.step (inv : Inv b dead views) (ht : views t = some (op, v))
    (mine : v.slot = some i ∨ ∀ u op' w, views u = some (op', w) → w.slot ≠ some i) (next : ∀ j, v'.slot = some j → j = i)
    (others : ∀ j, j ≠ i → b'.word j = b.word j ∧ b'.taken j = b.taken j) (ok : v'.Ok b' op) (marks : Marks b') :
    Inv b' dead (update views t (some (op, v'))) := by
  -- no other thread has slot `i`
  have alone : ∀ {u op' w}, u ≠ t → views u = some (op', w) → w.slot ≠ some i := by
    intro u op' w ne hu about
    rcases mine with mine | nobody
    · exact ne (inv.one hu ht about mine)
    · exact nobody u op' w hu about
  constructor
  case alive => exact Views.put (inv.alive ht) fun _ => inv.alive
  case repairs => exact Views.put (inv.repairs ht) fun _ => inv.repairs
  case single =>
    exact Views.put_pair (fun _ _ _ => rfl) (fun _ => inv.single ht) (fun _ old => inv.single old ht) inv.single
  case hand =>
    intro u op' w hu
    rcases update_cases hu with ⟨-, rfl, rfl⟩ | ⟨ne, old⟩
    · exact ok
    · rcases about : w.slot with _ | j
      · cases w with
        | free => trivial
        | owns i => cases about
        | holds i c => cases about
      · have apart : j ≠ i := fun h => alone ne old (h ▸ about)
        exact (inv.hand old).same about (others j apart).1 (others j apart).2
  case one =>
    refine Views.put_pair (fun _ _ => rfl) (fun ne old about about' => ?_) (fun ne old about about' => ?_) inv.one
    · exact (alone ne old (next _ about ▸ about')).elim
    · exact (alone ne old (next _ about' ▸ about)).elim
  case marks => exact marks

def controls (s : Shared R.toGeometry α) : Nat → Nat := fun i => (s.slot i).control

variable {s : Shared R.toGeometry α}

theorem Marks.same (marks : Marks b) (same : controls s = controls b.queue) : Marks { b with queue := s } :=
  ⟨fun {i _} taken => by
    show reaper (controls s i) ≠ 0
    rw [same]
    exact marks.named taken, marks.below, marks.one, marks.past, marks.once, marks.timely⟩

theorem Inv.still (inv : Inv b dead views) (same : controls s = controls b.queue) : Inv { b with queue := s } dead views :=
  ⟨inv.alive, inv.repairs, inv.single, fun {_ _ v} hu => by
    have h := inv.hand hu
    rcases about : v.slot with _ | j
    · cases v with
      | free => trivial
      | owns i => cases about
      | holds i c => cases about
    · exact h.same about (congrFun same j) rfl, inv.one, inv.marks.same same⟩

/-! ### Calls of the queue -/

def Spec (op : Op α) (prog : QueueProg R.toGeometry α β) (v : Hand) (Q : β → Hand → Prop) : Prop :=
  (protocol R α).Triple op (onQueue prog) v Q

theorem noting_bind (note : Board R α → Board R α) (prog : QueueProg R.toGeometry α β)
    (k : β → QueueProg R.toGeometry α γ) : noting note (prog.bind k) = (noting note prog).bind fun a => noting note (k a) := by
  induction prog with
  | done a => rfl
  | choose next ih => exact congrArg Prog.choose (funext ih)
  | atomic site act next ih => exact congrArg (Prog.atomic _ _) (funext fun b => ih b.queue)

variable {Q : β → Hand → Prop}

theorem Spec.done {a : β} (h : Q a v) : Spec (R := R) op (.done a) v Q := h

theorem Spec.mono {Q' : β → Hand → Prop} (h : Spec op prog v Q)
    (weaker : ∀ a v', Q a v' → Q' a v') : Spec op prog v Q' := Protocol.Triple.mono h weaker

theorem Spec.seq {prog : QueueProg R.toGeometry α γ} {M : γ → Hand → Prop} (first : Spec op prog v M)
    (rest : ∀ a v', M a v' → Spec op (k a) v' Q) : Spec op (prog.bind k) v Q := by
  unfold Spec onQueue
  rw [noting_bind]
  exact Protocol.Triple.seq first rest

theorem Spec.next {prog : QueueProg R.toGeometry α γ} {f : γ → Hand}
    (first : Spec op prog v fun a v' => v' = f a) (rest : ∀ a, Spec op (k a) (f a) Q) :
    Spec op (prog.bind k) v Q := first.seq fun a _ same => same ▸ rest a

theorem keeps_spec (keeps : prog.Keeps controls) : Spec op prog v fun _ v' => v' = v := by
  induction prog with
  | done a => exact Spec.done rfl
  | choose next ih => exact fun n => ih n (keeps n)
  | atomic site act next ih =>
    intro b dead views t inv view _
    refine ⟨v, ?_, trivial, ih b.queue (keeps b.queue).2⟩
    rw [update_same view]
    exact inv.still (keeps b.queue).1

theorem action_spec {f : Shared R.toGeometry α → Shared R.toGeometry α × β}
    (h : ∀ b dead views t, Inv b dead views → views t = some (op, v) → ∃ v',
      Inv { b with queue := (f b.queue).1 } dead (update views t (some (op, v'))) ∧ Q (f b.queue).2 v') :
    Spec op (Prog.action site f) v Q := by
  intro b dead views t inv view _
  obtain ⟨v', inv', post⟩ := h b dead views t inv view
  exact ⟨v', inv', trivial, post⟩

/-! ### Producers and consumers -/

/-- The words of slots that nobody has -/
def Vacant (w : Nat) : Prop := source w = 0 ∧ reaper w = 0

theorem Inv.nobody (inv : Inv b dead views) (vacant : Vacant (b.word i)) (u : Nat) (op' : Op α) (w : Hand)
    (hu : views u = some (op', w)) : w.slot ≠ some i := by
  intro about
  have ok := inv.hand hu
  cases w with
  | free => cases about
  | owns j =>
    cases about
    have := ok.1.symm.trans vacant.1
    omega
  | holds j c =>
    cases about
    have := ok.1.symm.trans vacant.2
    omega

theorem Marks.untaken (marks : Marks b) (unnamed : reaper (b.word i) = 0) : b.taken i = none := by
  rcases taken : b.taken i with _ | c
  · rfl
  · exact (marks.named taken unnamed).elim

theorem Inv.own (inv : Inv b dead views) (ht : views t = some (op, v))
    (mine : v.slot = some i ∨ ∀ u op' w, views u = some (op', w) → w.slot ≠ some i) (unnamed : reaper (b.word i) = 0)
    (others : ∀ j, j ≠ i → controls s j = controls b.queue j)
    (ok : v'.Ok { b with queue := s } op) (next : ∀ j, v'.slot = some j → j = i) :
    Inv { b with queue := s } dead (update views t (some (op, v'))) := by
  have untaken := inv.marks.untaken unnamed
  refine inv.step ht mine next (fun j ne => ⟨others j ne, rfl⟩) ok
    ⟨fun {j c} taken => ?_, inv.marks.below, inv.marks.one, inv.marks.past, inv.marks.once, inv.marks.timely⟩
  have ne : j ≠ i := by
    rintro rfl
    cases untaken.symm.trans taken
  show reaper (controls s j) ≠ 0
  rw [others j ne]
  exact inv.marks.named taken

theorem controls_settle (s : Shared R.toGeometry α) (i control : Nat) (trail : Trail α) :
    controls { s.setSlot i { s.slot i with control } with trail } = update (controls s) i control := by
  funext j
  by_cases here : j = i
  · subst here
    simp [controls, Shared.setSlot]
  · simp [controls, Shared.setSlot, update_of_ne here]

variable {control : Nat}

theorem settleControl_spec {mark : Trail α → Trail α} :
    Spec (R := R) op (settleControl i control mark) (.owns i) fun _ v' => v' = .free := by
  intro b dead views t inv view _
  refine ⟨.free, inv.own view (.inl rfl) (inv.hand view).2 (fun j ne => ?_) trivial (fun j h => by cases h), trivial, rfl⟩
  exact (congrFun (controls_settle b.queue i control _) j).trans (update_of_ne ne ..)

theorem stage_spec {value : α} : Spec (R := R) op (stage i value) (.owns i) fun _ v' => v' = .owns i := by
  refine .seq (keeps_spec (.write fun s => ?_)) ?_
  · funext j
    by_cases here : j = i
    · subst here
      simp [controls, Shared.setSlot]
    · simp [controls, Shared.setSlot, update_of_ne here]
  rintro _ _ rfl
  refine .seq (M := fun control v' => v' = .owns i ∧ source control = op.owner + 1) ?_ ?_
  · intro b dead views t inv view _
    refine ⟨.owns i, ?_, trivial, rfl, (inv.hand view).1⟩
    rw [update_same view]
    exact inv.still rfl
  rintro control _ ⟨rfl, source⟩
  intro b dead views t inv view _
  have words := controls_settle b.queue i (owned producer true (Queue.source control - 1)) b.queue.trail
  have word := (congrFun words i).trans (update_self ..)
  have fits := source_owned (R := R) (inv.alive view).2 true (show producer < 4 by decide)
  refine ⟨.owns i, inv.own view (.inl rfl) (inv.hand view).2
    (fun j ne => (congrFun words j).trans (update_of_ne ne ..)) ?_ (fun j h => by cases h; rfl), trivial, rfl⟩
  rw [source, Nat.add_sub_cancel] at word
  rw [source, Nat.add_sub_cancel]
  exact ⟨(congrArg Queue.source word).trans fits.1, (congrArg Queue.reaper word).trans fits.2⟩

theorem seize_spec {expected kind : Nat} {complete : Bool} (vacant : Vacant expected) (low : kind < 4) :
    Spec (R := R) op (compareExchangeControlAt site i expected (owned kind complete op.owner)) .free
      fun won v' => v' = if won then .owns i else .free := by
  refine action_spec fun b dead views t inv view => ?_
  by_cases same : (b.queue.slot i).control = expected
  · have words := controls_settle b.queue i (owned kind complete op.owner) b.queue.trail
    have word := (congrFun words i).trans (update_self ..)
    have fits := source_owned (R := R) (inv.alive view).2 complete low
    have vacant' : Vacant (b.word i) := by rwa [← same] at vacant
    rw [if_pos same]
    refine ⟨.owns i, inv.own view (.inr (inv.nobody vacant')) vacant'.2
      (fun j ne => (congrFun words j).trans (update_of_ne ne ..)) ?_ (fun j h => by cases h; rfl), rfl⟩
    exact ⟨(congrArg Queue.source word).trans fits.1, (congrArg Queue.reaper word).trans fits.2⟩
  · rw [if_neg same]
    refine ⟨.free, ?_, rfl⟩
    rw [update_same view]
    exact inv

theorem fieldState_keeps {field : Nat} : (fieldState field : QueueProg R.toGeometry α Nat).Keeps controls := .read

theorem state_keeps : (state R : QueueProg R.toGeometry α Nat).Keeps controls :=
  .bind fieldState_keeps fun _ => .bind fieldState_keeps fun _ => trivial

def Reserved : Except ReserveError Nat → Hand → Prop
  | .ok i, v => v = .owns i
  | .error _, v => v = .free

theorem reserve_spec : Spec op (Queue.reserve R op.owner) .free Reserved := by
  refine .next (keeps_spec state_keeps) fun st => ?_
  split
  · exact .done rfl
  refine .next (keeps_spec .read) fun tail => ?_
  refine .next (seize_spec ⟨by decide, by decide⟩ (by decide)) fun won => ?_
  cases won with
  | false =>
    refine .next (keeps_spec .read) fun head => ?_
    by_cases full : head + R.lapWord = tail
    · rw [if_pos full]
      exact .done rfl
    · rw [if_neg full]
      exact .done rfl
  | true =>
    -- every check that fails gives the slot back
    have back {r : ReserveError} : Spec (R := R) op ((storeControl (R.index tail) empty).bind fun _ => .done (.error r))
        (.owns (R.index tail)) Reserved :=
      .seq settleControl_spec fun _ _ h => .done h
    refine .next (keeps_spec .read) fun turn => ?_
    split
    · exact back
    refine .seq (keeps_spec .read) ?_
    rintro tail' _ rfl
    split
    · exact back
    refine .next (keeps_spec state_keeps) fun st => ?_
    split
    · exact back
    refine .seq (keeps_spec (.action fun s => ?_)) ?_
    · by_cases same : s.tail = tail
      · rw [if_pos same]
        rfl
      · rw [if_neg same]
    rintro moved _ rfl
    cases moved with
    | false => exact back
    | true => exact .done rfl

theorem recycle_spec {claim : Claim R.toGeometry} :
    Spec (α := α) op (recycle claim) (.owns claim.index) fun _ v' => v' = .free := by
  refine .seq (keeps_spec (.write fun s => ?_)) ?_
  · funext j
    by_cases here : j = claim.index
    · subst here
      simp [controls, Shared.setSlot]
    · simp [controls, Shared.setSlot, update_of_ne here]
  rintro _ _ rfl
  exact settleControl_spec

def Claimed : Except ClaimError (Claim R.toGeometry) → Hand → Prop
  | .ok claim, v => v = .owns claim.index
  | .error _, v => v = .free

theorem claim_spec : Spec op (Queue.claim R op.owner) .free Claimed := by
  refine .next (keeps_spec fieldState_keeps) fun st => ?_
  split
  · exact .done rfl
  refine .next (keeps_spec .read) fun head => ?_
  refine .next (keeps_spec .read) fun control => ?_
  split
  · refine .next (keeps_spec .read) fun tail => ?_
    by_cases none : tail = head
    · rw [if_pos none]
      exact .done rfl
    · rw [if_neg none]
      exact .done rfl
  · next known =>
    have vacant : Vacant control := by
      by_cases plain : control = available
      · rw [plain]
        exact ⟨by decide, by decide⟩
      · by_cases complete : control = available ||| completeBit
        · rw [complete]
          exact ⟨by decide, by decide⟩
        · exact (known ⟨plain, complete⟩).elim
    have back {r : ClaimError} : Spec (R := R) op ((storeControl (R.index head) control).bind fun _ => .done (.error r))
        (.owns (R.index head)) (Claimed (R := R)) :=
      .seq settleControl_spec fun _ _ h => .done h
    refine .next (seize_spec vacant (by decide)) fun won => ?_
    cases won with
    | false => exact .done rfl
    | true =>
      refine .next (keeps_spec .read) fun turn => ?_
      split
      · exact back
      refine .seq (keeps_spec .read) ?_
      rintro head' _ rfl
      split
      · exact back
      refine .seq (keeps_spec (.action fun s => ?_)) ?_
      · by_cases same : s.head = head
        · rw [if_pos same]
          rfl
        · rw [if_neg same]
      rintro moved _ rfl
      cases moved with
      | false => exact back
      | true =>
        cases decide (control &&& completeBit ≠ 0) with
        | false => exact .seq recycle_spec fun _ _ h => .done h
        | true => exact .done rfl

theorem noneOwned_keeps (kind : Nat) (slots : List Nat) :
    (noneOwned R kind slots : QueueProg R.toGeometry α Bool).Keeps controls := by
  induction slots with
  | nil => trivial
  | cons i rest ih =>
    refine .bind .read fun control => ?_
    split
    · exact ih
    · trivial

theorem fetchOr_keeps {bits : Nat} : (fetchOr bits : QueueProg R.toGeometry α Unit).Keeps controls := .write fun _ => rfl

theorem finishField_keeps (field kind : Nat) : (finishField R field kind : QueueProg R.toGeometry α Nat).Keeps controls := by
  refine .bind fieldState_keeps fun st => ?_
  split
  · refine .bind (noneOwned_keeps kind _) fun none => ?_
    split
    · exact .bind fetchOr_keeps fun _ => trivial
    · trivial
  · trivial

theorem sendClosed_keeps : (Queue.sendClosed R : QueueProg R.toGeometry α Bool).Keeps controls :=
  .bind (finishField_keeps _ _) fun _ => trivial

theorem recvClosed_keeps : (Queue.recvClosed R : QueueProg R.toGeometry α Bool).Keeps controls :=
  .bind (finishField_keeps _ _) fun _ => trivial

theorem terminal_keeps : (Queue.terminal R : QueueProg R.toGeometry α Bool).Keeps controls := by
  refine .bind recvClosed_keeps fun closed => ?_
  split
  · trivial
  refine .bind sendClosed_keeps fun closed => ?_
  split
  · exact .bind .read fun _ => .bind .read fun _ => trivial
  · trivial

theorem code_spec (plain : op.repairs = none) : Spec op (op.code R) .free fun _ _ => True := by
  cases op with
  | produce p value send =>
    refine .seq reserve_spec ?_
    rintro (_ | i) v' post
    · exact .done trivial
    cases post
    cases send with
    | dropReserved => exact settleControl_spec.mono fun _ _ _ => trivial
    | publish =>
      refine .next stage_spec fun _ => ?_
      exact settleControl_spec.mono fun _ _ _ => trivial
    | cancel =>
      refine .next stage_spec fun _ => ?_
      refine .seq (M := fun _ _ => True) ?_ fun _ _ _ => .done trivial
      refine .next (keeps_spec .read) fun value => ?_
      exact .seq settleControl_spec fun _ _ _ => .done trivial
  | consume p use =>
    refine .seq claim_spec ?_
    rintro (_ | claim) v' post
    · exact .done trivial
    cases post
    cases use with
    | take =>
      refine .seq (M := fun _ _ => True) ?_ fun _ _ _ => .done trivial
      refine .next (keeps_spec (.action fun _ => rfl)) fun value => ?_
      exact .seq recycle_spec fun _ _ _ => .done trivial
    | drop =>
      show Spec _ (dropClaim claim) _ _
      unfold dropClaim
      split
      · refine .next (keeps_spec .read) fun value => ?_
        exact recycle_spec.mono fun _ _ _ => trivial
      · exact recycle_spec.mono fun _ _ _ => trivial
    | forget => exact .done trivial
  | closeSend p => exact (keeps_spec fetchOr_keeps).mono fun _ _ _ => trivial
  | closeRecv p => exact (keeps_spec fetchOr_keeps).mono fun _ _ _ => trivial
  | sendClosed p => exact .seq (keeps_spec sendClosed_keeps) fun _ _ _ => .done trivial
  | recvClosed p => exact .seq (keeps_spec recvClosed_keeps) fun _ _ _ => .done trivial
  | terminal p => exact .seq (keeps_spec terminal_keeps) fun _ _ _ => .done trivial
  | repair live dead index release => cases plain

/-! ### Repairs -/

theorem take_taken (b : Board R α) (i : Nat) : (b.take i).taken i = some (b.claim i) := by
  unfold Board.take Board.claim
  rcases taken : b.taken i with _ | c
  · rw [if_pos rfl]
    exact update_self ..
  · rw [if_neg (by simp)]
    exact taken

theorem take_other (b : Board R α) (ne : j ≠ i) : (b.take i).taken j = b.taken j := by
  unfold Board.take
  split
  · exact update_of_ne ne ..
  · rfl

theorem Marks.take (marks : Marks b) (named : reaper (controls s i) ≠ 0)
    (others : ∀ j, j ≠ i → controls s j = controls b.queue j) : Marks { b.take i with queue := s } := by
  have names : ∀ {j c}, (b.take i).taken j = some c → reaper (controls s j) ≠ 0 := by
    intro j c taken
    by_cases here : j = i
    · exact here ▸ named
    · rw [others j here]
      exact marks.named ((take_other b here).symm.trans taken)
  unfold Board.take at names ⊢
  split at names
  · next untaken =>
    rw [if_pos untaken]
    refine ⟨names, fun {j c} taken => ?_, fun {j k c} first second => ?_, fun {c} mem => ?_, marks.once, marks.timely⟩
    · by_cases here : j = i
      · subst here
        cases (update_self ..).symm.trans taken
        exact Nat.lt_succ_self _
      · exact Nat.lt_succ_of_lt (marks.below ((update_of_ne here ..).symm.trans taken))
    · by_cases here : j = i <;> by_cases there : k = i
      · rw [here, there]
      · subst here
        cases (update_self ..).symm.trans first
        exact absurd (marks.below ((update_of_ne there ..).symm.trans second)) (Nat.lt_irrefl _)
      · subst there
        cases (update_self ..).symm.trans second
        exact absurd (marks.below ((update_of_ne here ..).symm.trans first)) (Nat.lt_irrefl _)
      · exact marks.one ((update_of_ne here ..).symm.trans first) ((update_of_ne there ..).symm.trans second)
    · obtain ⟨below, gone⟩ := marks.past mem
      refine ⟨Nat.lt_succ_of_lt below, fun j taken => ?_⟩
      by_cases here : j = i
      · subst here
        cases (update_self ..).symm.trans taken
        exact Nat.lt_irrefl _ below
      · exact gone j ((update_of_ne here ..).symm.trans taken)
  · next held =>
    rw [if_neg held]
    exact ⟨names, marks.below, marks.one, marks.past, marks.once, marks.timely⟩

theorem Marks.resolve (marks : Marks b) (taken : b.taken i = some c)
    (others : ∀ j, j ≠ i → controls s j = controls b.queue j) : Marks { b.resolve i c with queue := s } := by
  have kept : ∀ {j d}, update b.taken i none j = some d → j ≠ i ∧ b.taken j = some d := by
    intro j d held
    by_cases here : j = i
    · subst here
      cases (update_self ..).symm.trans held
    · exact ⟨here, (update_of_ne here ..).symm.trans held⟩
  unfold Board.resolve Board.store
  rw [if_pos taken, if_pos taken]
  refine ⟨fun {j d} held => ?_, fun held => marks.below (kept held).2, fun first second =>
    marks.one (kept first).2 (kept second).2, fun {d} mem => ?_, ?_, marks.timely⟩
  · show reaper (controls s j) ≠ 0
    rw [others j (kept held).1]
    exact marks.named (kept held).2
  · rcases List.mem_cons.mp mem with rfl | old
    · exact ⟨marks.below taken, fun j held => (kept held).1 (marks.one (kept held).2 taken)⟩
    · exact ⟨(marks.past old).1, fun j held => (marks.past old).2 j (kept held).2⟩
  · exact List.nodup_cons.mpr ⟨fun mem => (marks.past mem).2 i taken, marks.once⟩

section Repair

variable {live gone index : Nat} {release : α → Nat → Bool}

theorem resolve_spec {mark : Trail α → Trail α} :
    (protocol R α).Triple op (noting (·.resolve i c) (settleControl i control mark)) (.holds i c) fun _ v' => v' = .free := by
  intro b dead views t inv view _
  obtain ⟨-, taken, -⟩ := inv.hand view
  have words := controls_settle b.queue i control (mark b.queue.trail)
  have others : ∀ j, j ≠ i → controls _ j = controls b.queue j := fun j ne =>
    (congrFun words j).trans (update_of_ne ne ..)
  refine ⟨.free, inv.step view (.inl rfl) (fun j h => by cases h) (fun j ne => ⟨others j ne, ?_⟩) trivial
    (inv.marks.resolve taken others), trivial, rfl⟩
  show (if b.taken i = some c then update b.taken i none else b.taken) j = b.taken j
  rw [if_pos taken, update_of_ne ne]

theorem advanceTurn_spec {turn head : R.Word} :
    (protocol R α).Triple op (advanceTurn R i turn head c) (.holds i c) fun _ v' => v' = .holds i c := by
  unfold advanceTurn Queue.advanceTurn
  dsimp only
  split
  · intro b dead views t inv view _
    obtain ⟨-, taken, -⟩ := inv.hand view
    refine ⟨.holds i c, ?_, trivial, rfl⟩
    have kept : b.store i c = b := if_pos taken
    show Inv { b.store i c with queue := _ } dead (update views t (some (op, .holds i c)))
    rw [update_same view, kept]
    refine inv.still (funext fun j => ?_)
    by_cases here : j = i
    · subst here
      simp [controls, Shared.setSlot]
    · simp [controls, Shared.setSlot, update_of_ne here]
  · exact rfl

theorem releaseValue_keeps : (releaseValue R index control release : QueueProg R.toGeometry α Bool).Keeps controls := by
  unfold releaseValue
  split
  · exact .action fun _ => rfl
  · trivial

theorem repairProducer_spec :
    (protocol R α).Triple op (repairProducer R i control release c) (.holds i c) fun _ _ => True := by
  refine .next (keeps_spec .read) fun turn => ?_
  refine .next (keeps_spec .read) fun tail => ?_
  dsimp only
  split
  · split
    · exact trivial
    · exact .seq resolve_spec fun _ _ _ => trivial
  · split
    · refine .next (keeps_spec releaseValue_keeps) fun freed => ?_
      split
      · exact trivial
      · exact .seq resolve_spec fun _ _ _ => trivial
    · exact trivial

theorem repairConsumer_spec :
    (protocol R α).Triple op (repairConsumer R i control release c) (.holds i c) fun _ _ => True := by
  refine .next (keeps_spec .read) fun turn => ?_
  refine .next (keeps_spec .read) fun head => ?_
  split
  · exact .seq resolve_spec fun _ _ _ => trivial
  refine .next (keeps_spec releaseValue_keeps) fun freed => ?_
  split
  · exact trivial
  refine .next advanceTurn_spec fun _ => ?_
  exact .seq resolve_spec fun _ _ _ => trivial

theorem Inv.orphan (inv : Inv b dead views) (dead_ : dead gone = true)
    (left : reaper (b.word i) = gone + 1 ∨ source (b.word i) = gone + 1 ∧ reaper (b.word i) = 0) (u : Nat) (op' : Op α)
    (w : Hand) (hu : views u = some (op', w)) : w.slot ≠ some i := by
  intro about
  have ok := inv.hand hu
  have alive := (inv.alive hu).1
  have apart : op'.owner ≠ gone := by
    rintro rfl
    cases dead_.symm.trans alive
  cases w with
  | free => cases about
  | owns j =>
    cases about
    have := ok.1
    have := ok.2
    omega
  | holds j c =>
    cases about
    have := ok.1
    omega

theorem Inv.take (inv : Inv b dead views) (ht : views t = some (op, .free)) (repair : op.repairs.map Prod.snd = some i)
    (nobody : ∀ u op' w, views u = some (op', w) → w.slot ≠ some i)
    (named : reaper (controls s i) = op.owner + 1) (others : ∀ j, j ≠ i → controls s j = controls b.queue j) :
    Inv { b.take i with queue := s } dead (update views t (some (op, .holds i (b.claim i)))) :=
  inv.step ht (.inr nobody) (fun j h => by cases h; rfl) (fun j ne => ⟨others j ne, take_other b ne⟩)
    ⟨named, take_taken b i, repair⟩ (inv.marks.take (by omega) others)

theorem loadClaim_spec (small : live < R.participants) :
    (protocol R α).Triple (.repair live gone index release) (loadClaim index gone live) .free fun r v' =>
      v' = if resumes R gone live r.1 then .holds index r.2 else .free := by
  refine Protocol.Triple.action fun b dead views t inv view _ => ?_
  by_cases own : resumes R gone live (b.word index) = true
  · simp only [own, if_true]
    refine ⟨.holds index (b.claim index), ?_, trivial, rfl⟩
    unfold resumes at own
    rcases assigned : assign gone live (b.word index) with _ | next
    · simp [assigned] at own
    have same : next = b.word index := by
      simp only [assigned, Bool.and_eq_true, beq_iff_eq] at own
      exact own.2
    obtain ⟨names, -⟩ := assign_ok small assigned
    rw [same] at names
    have taken := inv.take (s := b.queue) view rfl (fun u op' w hu about => ?_) names fun _ _ => rfl
    · rwa [show ({ b.take index with queue := b.queue } : Board R α) = b.take index by rw [← take_queue b index]] at taken
    -- who has the slot is a repair of the same participant
    have ok := inv.hand hu
    cases w with
    | free => cases about
    | owns j =>
      cases about
      cases names.symm.trans ok.2
    | holds j c =>
      cases about
      have owner : live = op'.owner := Nat.succ.inj (names.symm.trans ok.1)
      cases inv.single view hu owner rfl ok.2.2
      cases view.symm.trans hu
  · simp only [own]
    refine ⟨.free, ?_, trivial, rfl⟩
    rwa [update_same view]

theorem swapClaim_spec (small : live < R.participants) {next : Nat} (assigned : assign gone live control = .ok next)
    (same : next = control → v = .holds index c) (other : next ≠ control → v = .free) :
    (protocol R α).Triple (.repair live gone index release) (swapClaim index control next c) v fun r v' =>
      ∀ c', r = some c' → v' = .holds index c' := by
  unfold swapClaim
  split
  · next apart =>
    rw [other apart]
    obtain ⟨names, left⟩ := assign_ok small assigned
    refine Protocol.Triple.action fun b dead views t inv view _ => ?_
    by_cases won : b.word index = control
    · rw [if_pos won]
      have words := controls_settle b.queue index next b.queue.trail
      have word := (congrFun words index).trans (update_self ..)
      refine ⟨.holds index (b.claim index), inv.take view rfl (inv.orphan (inv.repairs view rfl) ?_)
        ((congrArg reaper word).trans names) (fun j ne => (congrFun words j).trans (update_of_ne ne ..)), trivial,
        fun c' eq => by cases eq; rfl⟩
      rw [won]
      exact left.resolve_left fun own => apart own.1
    · rw [if_neg won]
      exact ⟨.free, by rwa [update_same view], trivial, nofun⟩
  · next eq =>
    rw [same (not_not.mp eq)]
    exact fun c' h => by cases h; rfl

theorem repairSlot_spec : (protocol R α).Triple (.repair live gone index release) (repairSlot R index gone live release) .free
    fun _ _ => True := by
  unfold repairSlot
  split
  · exact trivial
  next members =>
  split
  · exact trivial
  have small : live < R.participants := by
    by_contra h
    exact members (.inr (by omega))
  refine .seq (loadClaim_spec small) ?_
  rintro ⟨control, c⟩ v post
  dsimp only at post ⊢
  split
  · exact trivial
  next canonical_ =>
  split
  · exact trivial
  next owned_ =>
  rcases assigned : assign gone live control with result | next
  · exact trivial
  have resumed : resumes R gone live control = decide (next = control) := by
    have kind : base control = producer ∨ base control = consumer := by
      by_contra h
      exact owned_ ⟨fun h' => h (.inl h'), fun h' => h (.inr h')⟩
    have fits : canonical R.participants control = true := by simpa using canonical_
    unfold resumes
    rw [assigned, fits]
    rcases kind with kind | kind <;> simp [kind, beq_eq_decide]
  rw [resumed] at post
  refine .seq (swapClaim_spec small assigned (fun eq => ?_) fun ne => ?_) ?_
  · rw [post, decide_eq_true eq]
    rfl
  · rw [post, decide_eq_false ne]
    rfl
  rintro (_ | c') v' holds
  · exact trivial
  dsimp only
  rw [holds c' rfl]
  split
  · exact repairProducer_spec
  · exact repairConsumer_spec

end Repair

/-! ### Runs -/

theorem Inv.start : Inv (Board.start R α) (fun _ => false) fun _ => none where
  alive := nofun
  repairs := nofun
  single := nofun
  hand := nofun
  one := nofun
  marks := ⟨nofun, nofun, nofun, nofun, List.nodup_nil, rfl⟩

theorem Inv.fewer (inv : Inv b dead views) {views' : Views (Op α) Hand} {dead' : Nat → Bool}
    (sub : ∀ {t op v}, views' t = some (op, v) → views t = some (op, v) ∧ dead' op.owner = dead op.owner)
    (more : ∀ d, dead d = true → dead' d = true) : Inv b dead' views' where
  alive := fun hu => ⟨(sub hu).2.trans (inv.alive (sub hu).1).1, (inv.alive (sub hu).1).2⟩
  repairs := fun hu repair => more _ (inv.repairs (sub hu).1 repair)
  single := fun hu hu' => inv.single (sub hu).1 (sub hu').1
  hand := fun hu => inv.hand (sub hu).1
  one := fun hu hu' => inv.one (sub hu).1 (sub hu').1
  marks := inv.marks

theorem Inv.spawn (inv : Inv b dead views) (alive : dead op.owner = false) (numbered : op.owner < R.participants)
    (gone : ∀ d i, op.repairs = some (d, i) → dead d = true)
    (single : ∀ u op' w i, views u = some (op', w) → op'.owner = op.owner →
      op.repairs.map Prod.snd = some i → op'.repairs.map Prod.snd ≠ some i) :
    Inv b dead (update views t (some (op, .free))) := by
  constructor
  case alive => exact Views.put ⟨alive, numbered⟩ fun _ => inv.alive
  case repairs => exact Views.put (gone _ _) fun _ => inv.repairs
  case single =>
    exact Views.put_pair (fun _ _ _ => rfl) (fun _ old owner mine mine' => (single _ _ _ _ old owner.symm mine mine').elim)
      (fun _ old owner mine mine' => (single _ _ _ _ old owner mine' mine).elim) inv.single
  case hand => exact Views.put trivial fun _ => inv.hand
  case one =>
    exact Views.put_pair (fun _ _ => rfl) (fun _ _ => nofun) (fun _ _ _ => nofun) inv.one
  case marks => exact inv.marks

theorem code_triple (op : Op α) : (protocol R α).Triple op (code R op) .free fun _ _ => True := by
  cases op with
  | repair live dead index release => exact .seq repairSlot_spec fun _ _ _ => trivial
  | produce p value send => exact code_spec rfl
  | consume p use => exact code_spec rfl
  | closeSend p => exact code_spec rfl
  | closeRecv p => exact code_spec rfl
  | sendClosed p => exact code_spec rfl
  | recvClosed p => exact code_spec rfl
  | terminal p => exact code_spec rfl

theorem sound : (protocol R α).Sound (machine R α true) (Board.start R α) where
  init := .start
  spawn := by
    intro b dead views t op ops inv _ alive within ready
    simp only [machine, Bool.and_eq_true, decide_eq_true_eq] at ready
    obtain ⟨numbered, ready⟩ := ready
    refine ⟨.free, Inv.spawn inv alive numbered ?_ ?_, code_triple op⟩
    · intro d i repair
      simp only [repair, Bool.and_eq_true] at ready
      exact ready.1
    · intro u op' w i hu owner mine mine'
      obtain ⟨⟨d, j⟩, repair, rfl⟩ := map_eq_some_iff.mp mine
      simp only [repair, Bool.not_true, Bool.false_or, Bool.and_eq_true, List.all_eq_true, decide_eq_true_eq] at ready
      exact ready.2 op' (within u op' w hu) ⟨owner, mine'⟩
  retire := by
    intro b dead views t op v inv _ _
    exact Inv.fewer inv (fun hu => ⟨(retire_some hu).2, rfl⟩) fun _ h => h
  crash := by
    intro b dead views p inv _
    refine ⟨Inv.fewer inv (fun {u op' w} hu => ?_) fun _ => mark_kept, trivial⟩
    obtain ⟨old, other⟩ := crash_some hu
    exact ⟨old, update_of_ne other ..⟩
  rejoin := by
    intro b dead views p ops _ _ _ readmits
    cases readmits
  refl := fun _ => trivial

/-- **One repair acts on a dead claim.** In every run in which a participant repairs a slot in one thread at a time, with any
number of repairs, producers and consumers and crashes at any step, no repair stores to a slot after its dead claim was
resolved, and no dead claim is resolved twice. The queue does in such a run what it does in a run without notes. -/
theorem repairs_exclusive {c : Config (Board R α) Site (Op α)} (run : (machine R α true).Reaches (.start (.start R α)) c) :
    c.shared.late = 0 ∧ c.shared.resolved.Nodup ∧
      ∃ d, (Queue.machine R α true).Reaches (.start (.init R.toGeometry α)) d ∧ d.shared = c.shared.queue := by
  obtain ⟨views, inv, -⟩ := sound.run (sound.start) (run.mono fun _ step _ => by cases step <;> simp [Allowed, protocol])
  obtain ⟨d, reached, same⟩ := (Config.Shows.start (Board.start R α)).run machine_shows run
  exact ⟨inv.marks.timely, inv.marks.once, d, reached, same.shared⟩

end Invariant

/-! ### A producer that died with a staged message -/

/-- Two reapers and a producer: the second reaper stays away, the first one resolves. -/
theorem repairs_exclusive_pair :
    ∃ c, (machine pairRoute Nat true).Reaches (.start (.start pairRoute Nat)) c ∧ c.shared.resolved = [0] ∧
      c.shared.late = 0 := by
  have steps : ((machine pairRoute Nat true).execAll (.start (.start pairRoute Nat))
      (.spawn (.produce 0 7 .publish) :: List.replicate 12 (.run 0 0) ++
        .crash 0 :: .spawn (.repair 1 0 0 fun _ _ => true) :: .spawn (.repair 2 0 0 fun _ _ => true) ::
        [.run 1 0, .run 2 0, .run 2 0, .run 1 0, .run 2 0, .run 2 0, .run 2 0, .run 2 0] ++
        .spawn (.produce 2 8 .publish) :: List.replicate 13 (.run 3 0))).map
      (fun c => c.shared.resolved) = some [0] := by decide +kernel
  obtain ⟨c, run, same⟩ := Machine.exists_reaches steps
  exact ⟨c, run, same, (repairs_exclusive run).1⟩

/-- Two threads of participant 1 repair the slot of a dead producer. The second one finds its participant entered as the
reaper and goes on. The first one resolves the slot, a consumer passes its position, and a producer publishes in the slot
again. The second one, which has released the dead message as well, then stores and withdraws the new one. -/
theorem resumed_repair_late :
    ∃ c c', (machine pairRoute Nat false).Reaches (.start (.start pairRoute Nat)) c ∧ c.shared.resolved = [0] ∧
      (c.shared.queue.slot 0).control = available ||| completeBit ∧ c.shared.queue.trail.fate 2 = .published 9 ∧
      (machine pairRoute Nat false).exec c (.run 2 0) = some c' ∧ c'.shared.late = 1 ∧ c'.shared.resolved = [0, 0] ∧
      c'.shared.queue.trail.released = [0, 0] ∧ (c'.shared.queue.slot 0).control = available := by
  have steps : (((machine pairRoute Nat false).execAll (.start (.start pairRoute Nat))
      (.spawn (.produce 0 7 .publish) :: List.replicate 12 (.run 0 0) ++
        .crash 0 :: .spawn (.repair 1 0 0 fun _ _ => true) :: List.replicate 5 (.run 1 0) ++
        .spawn (.repair 1 0 0 fun _ _ => true) :: List.replicate 4 (.run 2 0) ++
        .run 1 0 :: .spawn (.consume 2 .take) :: List.replicate 9 (.run 3 0) ++
        .spawn (.produce 2 8 .publish) :: List.replicate 13 (.run 4 0) ++
        .spawn (.produce 2 9 .publish) :: List.replicate 13 (.run 5 0))).bind fun c =>
      ((machine pairRoute Nat false).exec c (.run 2 0)).map fun c' => (c, c')).map (fun (c, c') =>
        ((c.shared.resolved, (c.shared.queue.slot 0).control, c.shared.queue.trail.fate 2),
          (c'.shared.late, c'.shared.resolved, c'.shared.queue.trail.released, (c'.shared.queue.slot 0).control))) =
      some (([0], available ||| completeBit, .published 9), (1, [0, 0], [0, 0], available)) := by decide +kernel
  obtain ⟨c₁, c₂, first, second, same⟩ := exists_stages steps
  simp only [Prod.mk.injEq] at same
  exact ⟨c₁, c₂, Machine.reaches_of_execAll first, same.1.1, same.1.2.1, same.1.2.2, second, same.2⟩

end Evering.Queue.Reapers
