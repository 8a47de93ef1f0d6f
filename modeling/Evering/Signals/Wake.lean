import Evering.Interleave.Protocol
import Evering.Interleave.Solo
import Evering.Queue.Invariant
import Evering.Signals.Model

/-!
# Sender and receiver do not both sleep

Every side owes the other one a notification for each position it has moved its cursor past: the sender when it has
reserved, the receiver when it has claimed. A side that has seen its end of the queue blocked stays sure of one of three
things: its latch is set, the queue is still blocked for it, or the other side owes a notification. When both sides wait
with their latches clear and neither has a permit or a received value in hand, nothing is owed, and the queue would have
to be full and empty at once.

The claim of a cancelled position moves head without a notification, so the argument needs that no claim takes one.
-/

namespace Evering.Signals

open Interleave Function List

/-! ### What each side has moved -/

section Counting

variable {R : Queue.Route} {α : Type}

/-- The cursor only this side moves -/
def Side.cursor : Side → Queue.Shared R.toGeometry α → R.Word
  | sender, q => q.tail
  | receiver, q => q.head

/-- How often the side has moved its cursor for a permit or a received value -/
def Side.made : Side → Queue.Shared R.toGeometry α → Nat
  | sender, q => q.trail.tailPos
  | receiver, q => q.trail.claims.length

/-- The side finds no work in the queue. -/
def Side.Gap : Side → Queue.Shared R.toGeometry α → Prop
  | sender, q => q.head + R.lapWord = q.tail
  | receiver, q => q.tail = q.head

def Side.held : Side → Shared R α → Nat
  | sender, s => s.permits.length
  | receiver, s => s.received.length

/-- All that waiting depends on in a queue -/
def cursors (q : Queue.Shared R.toGeometry α) : R.Word × R.Word × Nat × Nat :=
  (q.head, q.tail, q.trail.tailPos, q.trail.claims.length)

theorem Side.other_other (side : Side) : side.other.other = side := by
  cases side <;> rfl

theorem Side.other_ne (side : Side) : side.other ≠ side := by
  cases side <;> exact Side.noConfusion

variable {side : Side} {q q' : Queue.Shared R.toGeometry α}

theorem cursor_congr (same : cursors q' = cursors q) : side.cursor q' = side.cursor q := by
  simp only [cursors, Prod.mk.injEq] at same
  cases side
  · exact same.2.1
  · exact same.1

theorem made_congr (same : cursors q' = cursors q) : side.made q' = side.made q := by
  simp only [cursors, Prod.mk.injEq] at same
  cases side
  · exact same.2.2.1
  · exact same.2.2.2

theorem gap_congr (same : cursors q' = cursors q) : side.Gap q' ↔ side.Gap q := by
  simp only [cursors, Prod.mk.injEq] at same
  cases side <;> simp only [Side.Gap, same.1, same.2.1]

end Counting

/-- Where a side is in its code -/
inductive Phase (R : Queue.Route)
  | idle
  /-- it has read its own cursor -/
  | loaded (cursor : R.Word)
  /-- it has seen the queue full, or empty -/
  | blocked
  | parked
  /-- it has moved its cursor, or let go of a permit or a received value, and not yet notified -/
  | owing

section Invariant

variable {R : Queue.Route} {α : Type}

def Phase.debt : Phase R → Nat
  | owing => 1
  | _ => 0

/-- The side owes nothing and does not wait. -/
def Phase.Light : Phase R → Prop
  | owing => False
  | parked => False
  | _ => True

/-- What a side knows at each place -/
structure Knows (s : Shared R α) (side : Side) (phase : Phase R) : Prop where
  count : side.made s.queue = s.rung side + side.held s + phase.debt
  waits : s.waiting side = true → phase = .parked
  loaded : ∀ w, phase = .loaded w → side.cursor s.queue = w
  blocked : phase = .blocked ∨ phase = .parked → s.latch side = false →
    side.Gap s.queue ∨ s.rung side.other < side.other.made s.queue
  free : phase = .parked → side.held s = 0

/-- What a step of `side` leaves for the other side -/
structure Leaves (side : Side) (s s' : Shared R α) : Prop where
  made : side.other.made s'.queue = side.other.made s.queue
  rung : s'.rung side.other = s.rung side.other
  held : side.other.held s' = side.other.held s
  waiting : s'.waiting side.other = s.waiting side.other
  cursor : side.other.cursor s'.queue = side.other.cursor s.queue
  woken : s'.latch side.other = false → s.latch side.other = false ∧
    (side.other.Gap s.queue → side.other.Gap s'.queue ∨ s'.rung side < side.made s'.queue) ∧
    (s.rung side < side.made s.queue → s'.rung side < side.made s'.queue)

variable {s s' : Shared R α} {side : Side} {phase : Phase R}

variable {q : Queue.Shared R.toGeometry α}

theorem held_queue : side.held { s with queue := q } = side.held s := by cases side <;> rfl

theorem Knows.leaves (knows : Knows s side.other phase) (leaves : Leaves side s s') : Knows s' side.other phase where
  count := by rw [leaves.made, leaves.rung, leaves.held, knows.count]
  waits := by rw [leaves.waiting]; exact knows.waits
  loaded := by rw [leaves.cursor]; exact knows.loaded
  blocked := by
    intro at' latch
    obtain ⟨clear, gap, owed⟩ := leaves.woken latch
    have before := knows.blocked at' clear
    rw [side.other_other] at before ⊢
    exact before.elim gap fun h => .inr (owed h)
  free := by rw [leaves.held]; exact knows.free

theorem Leaves.still (same : cursors q = cursors s.queue) : Leaves side s { s with queue := q } where
  made := made_congr same
  rung := rfl
  held := by cases side <;> rfl
  waiting := rfl
  cursor := cursor_congr same
  woken := fun clear => ⟨clear, fun gap => .inl ((gap_congr same).mpr gap), fun owed => by
    rwa [made_congr same]⟩

theorem Knows.still (knows : Knows s side phase) (same : cursors q = cursors s.queue) :
    Knows { s with queue := q } side phase where
  count := by
    rw [held_queue]
    exact (made_congr same).trans knows.count
  waits := knows.waits
  loaded := fun w at' => (cursor_congr same).trans (knows.loaded w at')
  blocked := by
    intro at' clear
    rcases knows.blocked at' clear with gap | owed
    · exact .inl ((gap_congr same).mpr gap)
    · refine .inr ?_
      rwa [made_congr same]
  free := by
    rw [held_queue]
    exact knows.free

variable (R α) in
/-- The threads of each side are at its phase, and there is one of them at most. -/
structure Paired (s : Shared R α) (views : Views (Op α) (Phase R)) (phase : Side → Phase R) : Prop where
  at' : ∀ t op v, views t = some (op, v) → v = phase op.side
  one : ∀ t t' op op' v v', views t = some (op, v) → views t' = some (op', v') → op.side = op'.side → t = t'
  resting : ∀ side, (∀ t op v, views t = some (op, v) → op.side ≠ side) → phase side = .idle
  knows : ∀ side, Knows s side (phase side)

/-- No claim takes a cancelled position, and no side begins to wait with a permit or a received value in hand. -/
def Prompt (op : Op α) : Site → Shared R α → Prop
  | .plain, _ => True
  | .queue .seize, s => (s.queue.slot (R.index s.queue.head)).control ≠ Queue.available
  | .queue _, _ => True
  | .register, s => op.side.held s = 0

instance (op : Op α) (site : Site) (s : Shared R α) : Decidable (Prompt op site s) := by
  unfold Prompt
  split <;> infer_instance

variable (R α) in
def wake : Protocol (Shared R α) Site (Op α) (Phase R) where
  inv := fun s _ views => ∃ phase, Paired R α s views phase
  idle := Phase.Light
  cond := Prompt
  stop := fun _ _ => False

variable {op : Op α} {β : Type} {v : Phase R} {Q : β → Phase R → Prop}

theorem action_spec {site : Site} {f : Shared R α → Shared R α × β} (h : ∀ s, Knows s op.side v → Prompt op site s →
      ∃ v', Knows (f s).1 op.side v' ∧ Leaves op.side s (f s).1 ∧ Q (f s).2 v') :
    (wake R α).Triple op (Prog.action site f) v Q := by
  refine .action fun s dead views t inv view cond => ?_
  obtain ⟨phase, paired⟩ := inv
  have here := paired.at' t op v view
  obtain ⟨v', knows, leaves, post⟩ := h s (here ▸ paired.knows op.side) cond
  refine ⟨v', ⟨update phase op.side v', ?_, ?_, ?_, ?_⟩, trivial, post⟩
  · intro u op' w
    refine Views.put (by rw [update_self]) fun {u op' w} ne hu => ?_
    rw [update_of_ne fun eq => ne (paired.one u t op' op w v hu view eq)]
    exact paired.at' u op' w hu
  · exact fun _ _ _ _ _ _ => Views.put_pair (fun _ => rfl) (fun _ hu => paired.one _ _ _ _ _ _ view hu)
      (fun _ hu => paired.one _ _ _ _ _ _ hu view) (paired.one _ _ _ _ _ _)
  · intro side none
    have apart : side ≠ op.side := fun eq => none t op v' (update_self ..) eq.symm
    rw [update_of_ne apart]
    refine paired.resting side fun u op' w hu => ?_
    by_cases same : u = t
    · rw [same, view] at hu
      cases hu
      exact apart.symm
    · exact none u op' w (by rw [update_of_ne same]; exact hu)
  · intro side
    by_cases same : side = op.side
    · rw [same, update_self]
      exact knows
    · rw [update_of_ne same]
      have other : side = op.side.other := by
        cases side <;> cases hs : op.side <;> simp_all [Side.other]
      rw [other]
      exact (other ▸ paired.knows side).leaves leaves

/-! ### Calls of the queue -/

variable (R) in
def Spec (op : Op α) (prog : Queue.QueueProg R.toGeometry α β) (v : Phase R) (Q : β → Phase R → Prop) : Prop :=
  (wake R α).Triple op (onQueue prog) v Q

theorem Spec.done {a : β} (h : Q a v) : Spec R op (.done a) v Q := h

variable {γ : Type} {prog : Queue.QueueProg R.toGeometry α γ} {k : γ → Queue.QueueProg R.toGeometry α β} {w : R.Word}

theorem Spec.seq {Mid : γ → Phase R → Prop} (first : Spec R op prog v Mid)
    (rest : ∀ a v', Mid a v' → Spec R op (k a) v' Q) : Spec R op (prog.bind k) v Q := by
  unfold Spec onQueue
  rw [Prog.focus_bind]
  exact Protocol.Triple.seq first rest

theorem Spec.next {f : γ → Phase R} (first : Spec R op prog v fun a v' => v' = f a)
    (rest : ∀ a, Spec R op (k a) (f a) Q) : Spec R op (prog.bind k) v Q := first.seq fun a _ same => same ▸ rest a

theorem keeps_spec {prog : Queue.QueueProg R.toGeometry α β} (keeps : prog.Keeps cursors) :
    Spec R op prog v fun _ v' => v' = v := by
  induction prog with
  | done a => exact Spec.done rfl
  | choose next ih => exact fun n => ih n (keeps n)
  | atomic site act next ih =>
    have step : (wake R α).Triple op ((Prog.action (Site.queue site)
        fun s => ({ s with queue := act s.queue }, s.queue)).bind fun q => onQueue (next q)) v fun _ v' => v' = v :=
      .bind (action_spec fun s knows _ =>
        ⟨v, knows.still (keeps s.queue).1, .still (keeps s.queue).1, ih s.queue (keeps s.queue).2⟩)
    exact step

theorem queue_action_spec {site : Queue.Site} {f : Queue.Shared R.toGeometry α → Queue.Shared R.toGeometry α × β}
    (h : ∀ s : Shared R α, Knows s op.side v → Prompt op (.queue site) s → ∃ v',
      Knows { s with queue := (f s.queue).1 } op.side v' ∧ Leaves op.side s { s with queue := (f s.queue).1 } ∧
        Q (f s.queue).2 v') :
    Spec R op (Prog.action site f) v Q :=
  action_spec (f := fun s => ({ s with queue := (f s.queue).1 }, (f s.queue).2)) h

theorem Knows.read (knows : Knows s side v) (light : v.Light) : Knows s side (.loaded (side.cursor s.queue)) where
  count := by
    have debt : v.debt = 0 := by cases v <;> first | rfl | exact light.elim
    rw [knows.count, debt]
    rfl
  waits := fun waits => by
    rw [knows.waits waits] at light
    exact light.elim
  loaded := fun w eq => by cases eq; rfl
  blocked := fun at' => by rcases at' with h | h <;> cases h
  free := fun at' => by cases at'

theorem Knows.block (knows : Knows s side (.loaded w)) (gap : side.Gap s.queue) : Knows s side .blocked where
  count := knows.count
  waits := fun waits => by cases knows.waits waits
  loaded := fun w eq => by cases eq
  blocked := fun _ _ => .inl gap
  free := fun at' => by cases at'

theorem Leaves.refl (s : Shared R α) : Leaves side s s :=
  ⟨rfl, rfl, rfl, rfl, rfl, fun clear => ⟨clear, .inl, id⟩⟩

theorem Knows.move (knows : Knows s side (.loaded w)) (made : side.made q = side.made s.queue + 1)
    (other : side.other.made q = side.other.made s.queue) (cursor : side.other.cursor q = side.other.cursor s.queue) :
    Knows { s with queue := q } side .owing ∧ Leaves side s { s with queue := q } := by
  have count := knows.count
  have owed : s.rung side < side.made q := by omega
  refine ⟨⟨?_, ?_, ?_, ?_, ?_⟩, other, rfl, held_queue, rfl, cursor, fun clear => ⟨clear, fun _ => .inr owed, fun _ => owed⟩⟩
  · rw [held_queue]
    rw [made, count]
    rfl
  · intro waits
    cases knows.waits waits
  · intro w eq
    cases eq
  · rintro (h | h) <;> cases h
  · intro h
    cases h

end Invariant

/-! ### Reserving and claiming -/

section Queue

variable {R : Queue.Route} {α β : Type} {op : Op α} {v : Phase R}
variable {field i control owner ownedBase : Nat} {new w : R.Word} {f : Queue.Shared R.toGeometry α → R.Word}

theorem fieldState_keeps : (Queue.fieldState field : Queue.QueueProg R.toGeometry α Nat).Keeps cursors :=
  .read

theorem state_keeps : (Queue.state R : Queue.QueueProg R.toGeometry α Nat).Keeps cursors :=
  .bind fieldState_keeps fun _ => .bind fieldState_keeps fun _ => trivial

theorem settleControl_keeps {mark : Queue.Trail α → Queue.Trail α}
    (same : ∀ tr, (mark tr).tailPos = tr.tailPos ∧ (mark tr).claims = tr.claims) :
    (Queue.settleControl i control mark : Queue.QueueProg R.toGeometry α Unit).Keeps cursors :=
  .write fun q => by
    show (q.head, q.tail, (mark q.trail).tailPos, (mark q.trail).claims.length) = cursors q
    rw [(same q.trail).1, (same q.trail).2]
    rfl

theorem storeControl_keeps : (Queue.storeControl i control : Queue.QueueProg R.toGeometry α Unit).Keeps cursors :=
  settleControl_keeps fun _ => ⟨rfl, rfl⟩

theorem compareExchangeControl_keeps {expected new : Nat} :
    (Queue.compareExchangeControl i expected new : Queue.QueueProg R.toGeometry α Bool).Keeps cursors :=
  .action fun q => by
    by_cases h : (q.slot i).control = expected
    · rw [if_pos h]
      rfl
    · rw [if_neg h]

theorem stored_spec {a : β} {Q : β → Phase R → Prop} (post : Q a v) :
    Spec R op ((Queue.storeControl i control).bind fun _ => .done a) v Q := .next (keeps_spec storeControl_keeps) fun _ => post

theorem loadCursor_spec (own : ∀ q, op.side.cursor q = f q) (light : v.Light) :
    Spec R op (.read .plain f) v fun w v' => v' = .loaded w :=
  queue_action_spec (f := fun q => (q, f q)) fun s knows _ =>
    ⟨.loaded (f s.queue), own s.queue ▸ knows.read light, .refl s, rfl⟩

theorem judge_spec {b : R.Word → Bool} (gap : ∀ q, op.side.cursor q = w → b (f q) = true → op.side.Gap q) :
    Spec R op (.read .plain f) (.loaded w) fun x v' => v' = if b x then .blocked else .loaded w := by
  refine queue_action_spec (f := fun q => (q, f q)) fun s knows _ => ?_
  by_cases seen : b (f s.queue) = true
  · exact ⟨.blocked, knows.block (gap _ (knows.loaded w rfl) seen), .refl s, by rw [if_pos seen]⟩
  · exact ⟨.loaded w, knows, .refl s, by rw [if_neg seen]⟩

theorem compareExchangeTail_spec (sends : op.side = .sender) :
    Spec R op (Queue.compareExchangeTail i w new) (.loaded w) fun won v' => v' = if won then .owing else .loaded w := by
  refine queue_action_spec fun s knows _ => ?_
  by_cases same : s.queue.tail = w
  · rw [if_pos same]
    rw [sends] at knows ⊢
    obtain ⟨owing, leaves⟩ := knows.move (q := { s.queue with tail := new, trail := s.queue.trail.reserve i }) rfl rfl rfl
    exact ⟨.owing, owing, leaves, rfl⟩
  · rw [if_neg same]
    exact ⟨.loaded w, knows, .refl s, rfl⟩

theorem reserve_spec (sends : op.side = .sender) (light : v.Light) : Spec R op (Queue.reserve R owner) v fun r v' =>
      match r with
      | .ok _ => v' = .owing
      | .error .full => v' = .blocked
      | .error _ => v'.Light := by
  refine .next (keeps_spec state_keeps) fun st => ?_
  split
  · exact .done light
  refine .next (loadCursor_spec (f := fun q => q.tail) (fun q => by rw [sends]; rfl) light) fun tail => ?_
  refine .next (keeps_spec compareExchangeControl_keeps) fun won => ?_
  cases won with
  | false =>
    refine .seq (judge_spec (f := fun q => q.head) (b := fun head => decide (head + R.lapWord = tail)) ?_) ?_
    · intro q own full
      rw [sends] at own ⊢
      exact (of_decide_eq_true full).trans own.symm
    rintro head _ rfl
    by_cases full : head + R.lapWord = tail
    · simp only [full, decide_true, if_true]
      exact .done rfl
    · simp only [full, decide_false, if_false]
      exact .done trivial
  | true =>
    refine .next (keeps_spec .read) fun turn => ?_
    split
    · exact stored_spec trivial
    refine .next (keeps_spec .read) fun again => ?_
    split
    · exact stored_spec trivial
    refine .next (keeps_spec state_keeps) fun st => ?_
    split
    · exact stored_spec trivial
    refine .next (compareExchangeTail_spec sends) fun won => ?_
    cases won with
    | false => exact stored_spec trivial
    | true => exact .done rfl

theorem seize_spec (receives : op.side = .receiver) {new : Nat} :
    Spec R op (Queue.compareExchangeControlAt .seize (R.index w) control new) (.loaded w)
      fun won v' => v' = .loaded w ∧ (won = true → control ≠ Queue.available) := by
  refine queue_action_spec fun s knows prompt => ?_
  have head : s.queue.head = w := by
    have own := knows.loaded w rfl
    rwa [receives] at own
  have prompt : (s.queue.slot (R.index s.queue.head)).control ≠ Queue.available := prompt
  by_cases same : (s.queue.slot (R.index w)).control = control
  · rw [if_pos same]
    refine ⟨.loaded w, knows.still rfl, .still rfl, rfl, fun _ cancelled => prompt ?_⟩
    rw [head, same, cancelled]
  · rw [if_neg same]
    exact ⟨.loaded w, knows, .refl s, rfl, fun won => by cases won⟩

theorem compareExchangeHead_spec (receives : op.side = .receiver) :
    Spec R op (Queue.compareExchangeHead i true w new) (.loaded w) fun won v' => v' = if won then .owing else .loaded w := by
  refine queue_action_spec fun s knows _ => ?_
  by_cases same : s.queue.head = w
  · rw [if_pos same]
    rw [receives] at knows ⊢
    obtain ⟨owing, leaves⟩ := knows.move (q := { s.queue with head := new, trail := s.queue.trail.claim i true })
      (by simp [Side.made, Queue.Trail.claim]) rfl rfl
    exact ⟨.owing, owing, leaves, rfl⟩
  · rw [if_neg same]
    exact ⟨.loaded w, knows, .refl s, rfl⟩

theorem claim_spec (receives : op.side = .receiver) (light : v.Light) : Spec R op (Queue.claim R owner) v fun r v' =>
      match r with
      | .ok _ => v' = .owing
      | .error .empty => v' = .blocked
      | .error _ => v'.Light := by
  refine .next (keeps_spec fieldState_keeps) fun field => ?_
  split
  · exact .done light
  refine .next (loadCursor_spec (f := fun q => q.head) (fun q => by rw [receives]; rfl) light) fun head => ?_
  refine .next (keeps_spec .read) fun control => ?_
  split
  · refine .seq (judge_spec (f := fun q => q.tail) (b := fun tail => decide (tail = head)) ?_) ?_
    · intro q own empty
      rw [receives] at own ⊢
      exact (of_decide_eq_true empty).trans own.symm
    rintro tail _ rfl
    by_cases empty : tail = head
    · simp only [empty, decide_true, if_true]
      exact .done rfl
    · simp only [empty, decide_false, if_false]
      exact .done trivial
  rename_i words
  refine .seq (seize_spec receives) ?_
  rintro won _ ⟨rfl, kept⟩
  cases won with
  | false => exact .done trivial
  | true =>
    obtain rfl : control = Queue.available ||| Queue.completeBit := by
      by_contra other
      exact words ⟨kept rfl, other⟩
    have initialized : decide ((Queue.available ||| Queue.completeBit) &&& Queue.completeBit ≠ 0) = true := rfl
    rw [initialized]
    refine .next (keeps_spec .read) fun turn => ?_
    split
    · exact stored_spec trivial
    refine .next (keeps_spec .read) fun again => ?_
    split
    · exact stored_spec trivial
    refine .next (compareExchangeHead_spec receives) fun won => ?_
    cases won with
    | false => exact stored_spec trivial
    | true => exact .done rfl

theorem noneOwned_keeps {slots : List Nat} :
    (Queue.noneOwned R ownedBase slots : Queue.QueueProg R.toGeometry α Bool).Keeps cursors := by
  induction slots with
  | nil => trivial
  | cons i rest ih =>
    refine .bind .read fun control => ?_
    split
    · exact ih
    · trivial

theorem finishField_keeps : (Queue.finishField R field ownedBase : Queue.QueueProg R.toGeometry α Nat).Keeps cursors := by
  refine .bind fieldState_keeps fun state => ?_
  split
  · refine .bind noneOwned_keeps fun none => ?_
    split
    · exact .bind (.write fun _ => rfl) fun _ => trivial
    · trivial
  · trivial

theorem terminal_keeps : (Queue.terminal R : Queue.QueueProg R.toGeometry α Bool).Keeps cursors := by
  refine .bind (.bind finishField_keeps fun _ => trivial) fun received => ?_
  split
  · trivial
  refine .bind (.bind finishField_keeps fun _ => trivial) fun sent => ?_
  split
  · exact .bind .read fun _ => .bind .read fun _ => trivial
  · trivial

end Queue

/-! ### Waiting and notifying -/

section Waiting

variable {R : Queue.Route} {α : Type} {op : Op α}
variable {side : Side} {s : Shared R α} {latch waiting : Side → Bool} {v : Phase R}

theorem Leaves.own
    (sameLatch : latch side.other = s.latch side.other) (sameWaiting : waiting side.other = s.waiting side.other) :
    Leaves side s { s with latch, waiting } where
  made := rfl
  rung := rfl
  held := by cases side <;> rfl
  waiting := sameWaiting
  cursor := rfl
  woken := fun clear => ⟨sameLatch ▸ clear, .inl, id⟩

theorem Knows.wake (knows : Knows s side .parked) :
    Knows { s with latch, waiting := update s.waiting side false } side .idle where
  count := by cases side <;> exact knows.count
  waits := fun waits => by
    have waits : update s.waiting side false side = true := waits
    rw [update_self] at waits
    cases waits
  loaded := fun w eq => by cases eq
  blocked := by rintro (h | h) <;> cases h
  free := fun h => by cases h

theorem Knows.park (knows : Knows s side .blocked) (free : side.held s = 0) : Knows { s with waiting } side .parked where
  count := by cases side <;> exact knows.count
  waits := fun _ => rfl
  loaded := fun w eq => by cases eq
  blocked := fun _ clear => knows.blocked (.inl rfl) clear
  free := fun _ => by cases side <;> exact free

theorem poll_spec (rounds : Nat) : (wake R α).Triple op (poll op.side rounds) .parked fun _ v' => v' = .idle := by
  induction rounds with
  | zero =>
    refine .seq (R := fun _ v' => v' = .idle) (action_spec (f := fun s =>
      ({ s with waiting := update s.waiting op.side false }, ())) fun s knows _ => ?_) ?_
    · exact ⟨.idle, knows.wake, .own rfl (update_of_ne op.side.other_ne ..), rfl⟩
    · rintro _ _ rfl
      rfl
  | succ n ih =>
    refine .seq (R := fun passed v' => v' = if passed then .idle else .parked) (action_spec fun s knows _ => ?_) ?_
    · cases latch : s.latch op.side with
      | true =>
        exact ⟨.idle, knows.wake, .own (update_of_ne op.side.other_ne ..) (update_of_ne op.side.other_ne ..), rfl⟩
      | false => exact ⟨.parked, knows, .refl s, rfl⟩
    · rintro passed _ rfl
      cases passed with
      | true => rfl
      | false => exact ih

theorem wait_spec {rounds : Nat} (own : op.side = side) :
    (wake R α).Triple op (wait side rounds) .blocked fun _ v' => v' = .idle := by
  subst own
  refine .seq (R := fun _ v' => v' = .parked) (action_spec (f := fun s =>
    ({ s with waiting := update s.waiting op.side true }, ())) fun s knows prompt => ?_) ?_
  · exact ⟨.parked, knows.park prompt, .own rfl (update_of_ne op.side.other_ne ..), rfl⟩
  · rintro _ _ rfl
    exact poll_spec rounds

theorem notify_spec (own : op.side = side) : (wake R α).Triple op (notify side) .owing fun _ v' => v' = .idle := by
  refine action_spec (f := fun s => ({ s with
    latch := update s.latch side.other true
    rung := update s.rung side (s.rung side + 1) }, ())) fun s knows _ => ?_
  rw [own] at knows ⊢
  have more : update s.rung side (s.rung side + 1) side = s.rung side + 1 := update_self ..
  have count := knows.count
  refine ⟨.idle, ⟨?_, ?_, fun w eq => (by cases eq), ?_, fun h => (by cases h)⟩, ?_, rfl⟩
  · simp only [more]
    have held : side.held { s with
        latch := update s.latch side.other true
        rung := update s.rung side (s.rung side + 1) } = side.held s := by cases side <;> rfl
    rw [held, count]
    simp only [Phase.debt]
    omega
  · intro waits
    cases knows.waits waits
  · rintro (h | h) <;> cases h
  · refine ⟨rfl, update_of_ne side.other_ne .., by cases side <;> rfl, rfl, rfl, fun clear => ?_⟩
    have clear : update s.latch side.other true side.other = false := clear
    rw [update_self] at clear
    cases clear

theorem Knows.hand {r : Shared R α} {w : Phase R} (knows : Knows s side v) (ne : v ≠ .parked)
    (queue : r.queue = s.queue) (rung : r.rung = s.rung) (latch : r.latch = s.latch) (waiting : r.waiting = s.waiting)
    (other : side.other.held r = side.other.held s) (sum : side.held r + w.debt = side.held s + v.debt)
    (at' : w = .idle ∨ w = .owing) : Knows r side w ∧ Leaves side s r := by
  refine ⟨⟨?_, fun waits => ?_, ?_, ?_, ?_⟩, by rw [queue], by rw [rung], other, by rw [waiting], by rw [queue], ?_⟩
  · rw [queue, rung, knows.count]
    omega
  · rw [waiting] at waits
    exact absurd (knows.waits waits) ne
  · rcases at' with rfl | rfl <;> exact fun _ eq => by cases eq
  · rcases at' with rfl | rfl <;> rintro (h | h) <;> cases h
  · rcases at' with rfl | rfl <;> exact fun h => by cases h
  · rw [latch, queue, rung]
    exact fun clear => ⟨clear, .inl, id⟩

theorem Phase.Light.debt (light : v.Light) : v.debt = 0 := by
  cases v <;> first | rfl | exact light.elim

theorem Phase.Light.ne_parked (light : v.Light) : v ≠ .parked := by
  rintro rfl
  exact light

theorem length_eraseIdx_some {β : Type} {l : List β} {k : Nat} {a : β} (h : l[k]? = some a) :
    (l.eraseIdx k).length + 1 = l.length := by
  obtain ⟨lt, -⟩ := List.getElem?_eq_some_iff.mp h
  rw [length_eraseIdx, if_pos lt]
  omega

end Waiting

/-! ### The operations -/

section Operations

variable {R : Queue.Route} {α : Type} {op : Op α} {v : Phase R}

variable {γ : Type} {get : Shared R α → List γ} {put : List γ → Shared R α → Shared R α}

variable (op get put) in
/-- The list of what a side has in hand: the side owes a notification for what is taken out of it. -/
def Carries : Prop :=
  ∀ s l v w, Knows s op.side v → v ≠ .parked → (w = .idle ∨ w = .owing) → l.length + w.debt = (get s).length + v.debt →
    Knows (put l s) op.side w ∧ Leaves op.side s (put l s)

theorem carries_permits (sends : op.side = .sender) : Carries (R := R) op (·.permits) fun l s => { s with permits := l } := by
  intro s l v w knows ne at' sum
  rw [sends] at knows ⊢
  exact knows.hand ne rfl rfl rfl rfl rfl sum at'

theorem carries_received (receives : op.side = .receiver) : Carries (R := R) op (·.received) fun l s =>
    { s with received := l } := by
  intro s l v w knows ne at' sum
  rw [receives] at knows ⊢
  exact knows.hand ne rfl rfl rfl rfl rfl sum at'

theorem Carries.keep (carries : Carries op get put) {a : γ} :
    (wake R α).Triple op (.write .plain fun s => put (a :: get s) s) .owing fun _ v' => v' = .idle := by
  refine action_spec (f := fun s => (put (a :: get s) s, ())) fun s knows _ => ?_
  obtain ⟨idle, leaves⟩ := carries s (a :: get s) _ .idle knows (by simp) (.inl rfl) rfl
  exact ⟨.idle, idle, leaves, rfl⟩

variable {k index : Nat} {value : α}

theorem Carries.take (carries : Carries op get put) (light : v.Light) :
    (wake R α).Triple op (.action .plain fun s => (put ((get s).eraseIdx k) s, (get s)[k]?)) v
      fun r v' => v' = if r.isSome then .owing else .idle := by
  refine action_spec fun s knows _ => ?_
  cases taken : (get s)[k]? with
  | none =>
    have same : (get s).eraseIdx k = get s := eraseIdx_of_length_le (List.getElem?_eq_none_iff.mp taken)
    obtain ⟨idle, leaves⟩ := carries s _ _ _ knows light.ne_parked (.inl rfl)
      (by rw [light.debt]; exact congrArg List.length same)
    exact ⟨.idle, idle, leaves, rfl⟩
  | some _ =>
    obtain ⟨owing, leaves⟩ := carries s _ _ _ knows light.ne_parked (.inr rfl)
      (by rw [light.debt]; exact length_eraseIdx_some taken)
    exact ⟨.owing, owing, leaves, rfl⟩

theorem reserveLoop_spec (sends : op.side = .sender) (rounds fuel retries : Nat) (light : v.Light) :
    (wake R α).Triple op (reserve R rounds fuel retries) v fun _ v' => v'.Light := by
  induction fuel generalizing v retries with
  | zero => exact light
  | succ fuel ih =>
    refine .seq (reserve_spec sends light) ?_
    rintro ((_ | _ | _) | index) v' post
    · obtain rfl : v' = .blocked := post
      refine .next (wait_spec sends) fun passed => ?_
      cases passed with
      | true => exact ih 0 trivial
      | false => trivial
    · simp only
      split
      · exact post
      · exact ih (retries + 1) post
    · exact post
    · obtain rfl : v' = .owing := post
      refine .next (carries_permits sends).keep fun _ => ?_
      trivial

theorem rxClaim_spec (receives : op.side = .receiver) (light : v.Light) : (wake R α).Triple op (rxClaim R) v fun r v' =>
      match r with
      | .ok _ => v' = .owing
      | .error .empty => v' = .blocked
      | .error .busy => v'.Light
      | .error .closed => v'.Light := by
  refine .seq (claim_spec receives light) ?_
  rintro ((_ | _ | _) | claim) v' post
  · obtain rfl : v' = .blocked := post
    refine .next (keeps_spec terminal_keeps) fun ended => ?_
    cases ended with
    | true => trivial
    | false => rfl
  · exact post
  · exact post
  · exact post

theorem claimLoop_spec (receives : op.side = .receiver) (rounds fuel retries : Nat) (light : v.Light) :
    (wake R α).Triple op (claim R rounds fuel retries) v fun _ v' => v'.Light := by
  induction fuel generalizing v retries with
  | zero => exact light
  | succ fuel ih =>
    refine .seq (rxClaim_spec receives light) ?_
    rintro ((_ | _ | _) | claim) v' post
    · obtain rfl : v' = .blocked := post
      refine .next (wait_spec receives) fun passed => ?_
      cases passed with
      | true => exact ih 0 trivial
      | false => trivial
    · simp only
      split
      · exact post
      · exact ih (retries + 1) post
    · exact post
    · obtain rfl : v' = .owing := post
      refine .next (carries_received receives).keep fun _ => ?_
      trivial

theorem stage_keeps : (Queue.stage index value : Queue.QueueProg R.toGeometry α Unit).Keeps cursors :=
  .bind (.write fun _ => rfl) fun _ => .bind .read fun _ => storeControl_keeps

theorem publish_keeps : (Queue.publish index value : Queue.QueueProg R.toGeometry α Unit).Keeps cursors :=
  settleControl_keeps fun _ => ⟨rfl, rfl⟩

theorem skip_keeps : (Queue.skip index : Queue.QueueProg R.toGeometry α Unit).Keeps cursors :=
  settleControl_keeps fun _ => ⟨rfl, rfl⟩

theorem recycle_keeps {claim : Queue.Claim R.toGeometry} :
    (Queue.recycle claim : Queue.QueueProg R.toGeometry α Unit).Keeps cursors :=
  .bind (.write fun _ => rfl) fun _ => settleControl_keeps fun _ => ⟨rfl, rfl⟩

theorem take_keeps {claim : Queue.Claim R.toGeometry} :
    (Queue.take claim : Queue.QueueProg R.toGeometry α (Option α)).Keeps cursors :=
  .bind (.action fun _ => rfl) fun _ => .bind recycle_keeps fun _ => trivial

theorem send_spec (sends : op.side = .sender) (light : v.Light) :
    (wake R α).Triple op (send R k value) v fun _ v' => v' = .idle := by
  refine .seq ((carries_permits sends).take light) ?_
  rintro (_ | index) _ rfl
  · rfl
  refine .next (keeps_spec stage_keeps) fun _ => ?_
  refine .next (keeps_spec publish_keeps) fun _ => ?_
  exact notify_spec sends

theorem cancel_spec (sends : op.side = .sender) (light : v.Light) :
    (wake R α).Triple op (cancel R k) v fun _ v' => v' = .idle := by
  refine .seq ((carries_permits sends).take light) ?_
  rintro (_ | index) _ rfl
  · rfl
  refine .next (keeps_spec skip_keeps) fun _ => ?_
  exact notify_spec sends

theorem resolve_spec (receives : op.side = .receiver) (light : v.Light) {refused : Bool} :
    (wake R α).Triple op (resolve R k refused) v fun _ v' => v' = .idle := by
  refine .seq ((carries_received receives).take light) ?_
  rintro (_ | claim) _ rfl
  · rfl
  cases refused with
  | true => exact (carries_received receives).keep
  | false =>
    refine .next (keeps_spec take_keeps) fun _ => ?_
    exact notify_spec receives

theorem code_spec (op : Op α) : (wake R α).Triple op (op.code R) .idle fun _ v' => v'.Light := by
  have light : (Phase.idle : Phase R).Light := trivial
  have ends : ∀ v' : Phase R, v' = .idle → v'.Light := fun v' h => h ▸ trivial
  cases op with
  | reserve fuel rounds => exact .seq (reserveLoop_spec rfl rounds fuel 0 light) fun _ _ post => post
  | send k value => exact (send_spec rfl light).mono fun _ => ends
  | cancel k => exact (cancel_spec rfl light).mono fun _ => ends
  | claim fuel rounds => exact .seq (claimLoop_spec rfl rounds fuel 0 light) fun _ _ post => post
  | resolve k refused => exact (resolve_spec rfl light).mono fun _ => ends

end Operations

/-! ### Runs -/

section Runs

variable (R : Queue.Route) (α : Type)

variable {R α} in
theorem Knows.rest {s : Shared R α} {side : Side} {v : Phase R} (knows : Knows s side v) (light : v.Light) :
    Knows s side .idle :=
  (knows.hand (r := s) light.ne_parked rfl rfl rfl rfl rfl (by rw [light.debt]; rfl) (.inl rfl)).1

theorem knows_init (side : Side) : Knows (.init R α) side .idle where
  count := by cases side <;> rfl
  waits := fun waits => by cases waits
  loaded := fun w eq => by cases eq
  blocked := by rintro (h | h) <;> cases h
  free := fun h => by cases h

theorem sound : (wake R α).Sound (machine R α) (.init R α) where
  init := ⟨fun _ => .idle, fun _ _ _ h => (by cases h), fun _ _ _ _ _ _ h => (by cases h), fun _ _ => rfl, knows_init R α⟩
  spawn := by
    intro s dead views t op ops inv free alive within ready
    obtain ⟨phase, paired⟩ := inv
    have apart : ∀ u op' v, views u = some (op', v) → op'.side ≠ op.side := fun u op' v hu =>
      of_decide_eq_true (all_eq_true.mp ready op' (within u op' v hu))
    have idle := paired.resting op.side apart
    refine ⟨.idle, ⟨phase, ?_, ?_, ?_, paired.knows⟩, code_spec op⟩
    · exact fun _ _ _ => Views.put idle.symm fun _ => paired.at' _ _ _
    · exact fun _ _ _ _ _ _ => Views.put_pair (fun _ => rfl) (fun _ hu eq => absurd eq.symm (apart _ _ _ hu))
        (fun _ hu eq => absurd eq (apart _ _ _ hu)) (paired.one _ _ _ _ _ _)
    · intro side none
      refine paired.resting side fun u op' v hu => none u op' v ?_
      rw [update_of_ne fun same => by rw [same, free] at hu; cases hu]
      exact hu
  retire := by
    intro s dead views t op v inv view light
    obtain ⟨phase, paired⟩ := inv
    refine ⟨update phase op.side .idle, ?_, ?_, ?_, ?_⟩
    · intro u op' w hu
      obtain ⟨ne, hu⟩ := Views.retire_some hu
      rw [update_of_ne fun eq => ne (paired.one u t op' op w v hu view eq)]
      exact paired.at' u op' w hu
    · intro u u' op₁ op₂ w w' hu hu'
      exact paired.one u u' op₁ op₂ w w' (Views.retire_some hu).2 (Views.retire_some hu').2
    · intro side none
      by_cases same : side = op.side
      · rw [same, update_self]
      · rw [update_of_ne same]
        refine paired.resting side fun u op' w hu eq => ?_
        refine none u op' w ?_ eq
        rw [update_of_ne]
        · exact hu
        · rintro rfl
          rw [view] at hu
          cases hu
          exact same eq.symm
    · intro side
      by_cases same : side = op.side
      · rw [same, update_self]
        have knows := paired.knows op.side
        rw [← paired.at' t op v view] at knows
        exact knows.rest light
      · rw [update_of_ne same]
        exact paired.knows side
  crash := fun _ stop => stop.elim
  rejoin := fun inv _ _ _ => inv
  refl := fun _ => trivial

variable {R α}

theorem lapWord_ne_zero : R.lapWord ≠ 0 := by
  intro zero
  have wrap : R.cursor 0 = R.cursor (0 + R.capacity) := by
    rw [← Queue.Geometry.cursor_add_lap, zero]
    exact (BitVec.add_zero _).symm
  have same := (Queue.Geometry.cursor_inj (by omega) (by omega)).mp wrap
  have := R.capacity_pos
  omega

/-- **No mutual sleep.** In every run in which no claim takes a cancelled position and no side begins to wait with a permit
or a received value in hand, sender and receiver never both wait with their latches clear. -/
theorem no_mutual_sleep {c : Config (Shared R α) Site (Op α)}
    (run : (machine R α).Run (Allowed Prompt fun _ _ => False) (.start (.init R α)) c) :
    ¬ ∀ side, c.shared.waiting side = true ∧ c.shared.latch side = false := by
  intro asleep
  obtain ⟨views, ⟨phase, paired⟩, -⟩ := (sound R α).run (sound R α).start run
  have settled : ∀ side : Side, c.shared.rung side = side.made c.shared.queue := by
    intro side
    have knows := paired.knows side
    have parked := knows.waits (asleep side).1
    have count := knows.count
    rw [knows.free parked, parked] at count
    exact count.symm
  have gap : ∀ side : Side, side.Gap c.shared.queue := by
    intro side
    have knows := paired.knows side
    rcases knows.blocked (.inr (knows.waits (asleep side).1)) (asleep side).2 with gap | owed
    · exact gap
    · have := settled side.other
      omega
  have full : c.shared.queue.head + R.lapWord = c.shared.queue.tail := gap .sender
  have empty : c.shared.queue.tail = c.shared.queue.head := gap .receiver
  rw [empty] at full
  exact lapWord_ne_zero (by simpa using full)

abbrev singleRoute : Queue.Route := Queue.singleRoute

/-- A call and how many steps of it run -/
def inTurn (ops : List (Op Nat × Nat)) : List (Step (Op Nat)) :=
  ops.zipIdx.flatMap fun ((op, n), t) => .spawn op :: List.replicate n (.run t 0)

/-- The sender fills the queue and waits; the receiver takes the value, which sets the sender's latch, and waits. -/
theorem no_mutual_sleep_single : ∃ c, (machine singleRoute Nat).Run (Allowed Prompt fun _ _ => False)
    (.start (.init singleRoute Nat)) c ∧ c.shared.waiting .sender = true ∧ c.shared.waiting .receiver = true ∧
    ¬ ∀ side, c.shared.waiting side = true ∧ c.shared.latch side = false := by
  have steps : ((machine singleRoute Nat).execIf (Allowed Prompt fun _ _ => False) (.start (.init singleRoute Nat))
      (inTurn [(.reserve 1 1, 10), (.send 0 7, 6), (.reserve 1 1, 6), (.claim 1 1, 8), (.resolve 0 false, 5),
        (.claim 1 1, 7)])).map (fun c => (c.shared.waiting .sender, c.shared.waiting .receiver)) = some (true, true) := by
          decide +kernel
  obtain ⟨c, run, same⟩ := Machine.exists_run steps
  rw [Prod.mk.injEq] at same
  exact ⟨c, run, same.1, same.2, no_mutual_sleep run⟩

/-- The sender cancels the only position, finds the queue full and waits. The receiver's claim frees the position and
notifies nobody: it finds the queue empty, uses up its latch, finds the queue empty again and waits. -/
theorem cancelled_position_sleeps : ∃ c, (machine singleRoute Nat).Reaches (.start (.init singleRoute Nat)) c ∧
    (∀ side, c.shared.waiting side = true ∧ c.shared.latch side = false) ∧
    c.shared.permits = [] ∧ c.shared.received.length = 0 ∧ c.shared.queue.tail = c.shared.queue.head := by
  have steps : ((machine singleRoute Nat).execAll (.start (.init singleRoute Nat))
      (inTurn [(.reserve 1 1, 10), (.cancel 0, 3), (.reserve 1 1, 6), (.claim 4 1, 24)])).map (fun c =>
        ([Side.sender, .receiver].map fun side => (c.shared.waiting side, c.shared.latch side), c.shared.permits,
          c.shared.received.length, decide (c.shared.queue.tail = c.shared.queue.head))) =
      some ([(true, false), (true, false)], [], 0, true) := by decide +kernel
  obtain ⟨c, run, same⟩ := Machine.exists_reaches steps
  simp only [map_cons, map_nil, Prod.mk.injEq, List.cons.injEq, decide_eq_true_eq, and_true] at same
  obtain ⟨⟨sender, receiver⟩, permits, received, empty⟩ := same
  refine ⟨c, run, fun side => ?_, permits, received, empty⟩
  cases side
  · exact sender
  · exact receiver

/-- Nothing is cancelled. The receiver keeps its value, or the sender its permit, and calls again: both sides wait. -/
theorem kept_in_hand_sleeps :
    (∃ c, (machine singleRoute Nat).Reaches (.start (.init singleRoute Nat)) c ∧
      (∀ side, c.shared.waiting side = true ∧ c.shared.latch side = false) ∧
      c.shared.received.length = 1 ∧ c.shared.queue.trail.tailPos = 1 ∧ c.shared.queue.trail.fate 0 = .published 7) ∧
    ∃ c, (machine singleRoute Nat).Reaches (.start (.init singleRoute Nat)) c ∧
      (∀ side, c.shared.waiting side = true ∧ c.shared.latch side = false) ∧
      c.shared.permits.length = 1 ∧ c.shared.queue.trail.tailPos = 1 ∧ c.shared.queue.trail.fate 0 = .reserved := by
  have first : ((machine singleRoute Nat).execAll (.start (.init singleRoute Nat))
      (inTurn [(.reserve 1 1, 10), (.send 0 7, 6), (.reserve 1 1, 6), (.claim 1 1, 8), (.claim 2 1, 15)])).map (fun c =>
        ([Side.sender, .receiver].map fun side => (c.shared.waiting side, c.shared.latch side), c.shared.received.length,
          c.shared.queue.trail.tailPos, c.shared.queue.trail.fate 0)) =
      some ([(true, false), (true, false)], 1, 1, .published 7) := by decide +kernel
  have second : ((machine singleRoute Nat).execAll (.start (.init singleRoute Nat))
      (inTurn [(.claim 1 1, 7), (.reserve 1 1, 10), (.reserve 1 1, 6)])).map (fun c =>
        ([Side.sender, .receiver].map fun side => (c.shared.waiting side, c.shared.latch side), c.shared.permits.length,
          c.shared.queue.trail.tailPos, c.shared.queue.trail.fate 0)) =
      some ([(true, false), (true, false)], 1, 1, .reserved) := by decide +kernel
  have asleep {s : Shared singleRoute Nat}
      (both : [Side.sender, .receiver].map (fun side => (s.waiting side, s.latch side)) = [(true, false), (true, false)])
      (side : Side) : s.waiting side = true ∧ s.latch side = false := by
    simp only [map_cons, map_nil, List.cons.injEq, Prod.mk.injEq, and_true] at both
    cases side
    · exact both.1
    · exact both.2
  obtain ⟨c, run, same⟩ := Machine.exists_reaches first
  obtain ⟨c', run', same'⟩ := Machine.exists_reaches second
  obtain ⟨both, rest⟩ := Prod.mk.inj same
  obtain ⟨both', rest'⟩ := Prod.mk.inj same'
  simp only [Prod.mk.injEq] at rest rest'
  exact ⟨⟨c, run, asleep both, rest⟩, c', run', asleep both', rest'⟩

end Runs

end Evering.Signals
