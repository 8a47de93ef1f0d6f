import Evering.Interleave.Protocol
import Evering.Interleave.Solo
import Evering.Signals.Model

/-!
# Several receiver tasks behind one latch

Any number of tasks of one process run `Signals::claim` on one receiver through one `Wait`. A call of `Rx::claim` is one
step here, and so are registering with the wait, passing it and notifying. A notification sets the latch and releases the
tasks that are registered; a task that is released, or that finds the latch set, passes and clears the latch.

A task that passes takes one message and returns. The latch it has cleared may have stood for more than one message, and
a task that had found the queue empty before registers after that.
-/

namespace Evering.Signals.Waiters

open Interleave Function List

inductive Task
  /-- not in `Signals::claim` -/
  | away
  /-- on its way to a claim -/
  | trying
  /-- has found the queue empty and is about to wait -/
  | empty
  | parked (released : Bool)
  deriving DecidableEq

def Task.release : Task → Task
  | parked _ => parked true
  | task => task

structure Item where
  id : Nat
  /-- the publication has been followed by its notification -/
  rung : Bool

structure Shared (tasks : Nat) where
  /-- messages published and not claimed, in order -/
  items : List Item
  published : Nat
  closed : Bool
  latch : Bool
  task : Fin tasks → Task

def Shared.init (tasks : Nat) : Shared tasks where
  items := []
  published := 0
  closed := false
  latch := false
  task := fun _ => .away

inductive Site
  | plain
  /-- a wait looks at the latch -/
  | pass

section Operations

variable {tasks : Nat}

abbrev WaitProg (tasks : Nat) (β : Type) : Type := Prog (Shared tasks) Site β

def Shared.set (s : Shared tasks) (k : Fin tasks) (task : Task) : Shared tasks :=
  { s with task := update s.task k task }

/-- `Notify::notify` of the peer -/
def Shared.notified (s : Shared tasks) : Shared tasks :=
  { s with latch := true, task := fun k => (s.task k).release }

/-- A message is published, and the peer notifies. -/
def send : WaitProg tasks Unit := do
  let id ← Prog.action .plain fun s =>
    ({ s with items := s.items ++ [⟨s.published, false⟩], published := s.published + 1 }, s.published)
  .write .plain fun s =>
    { s.notified with items := s.items.map fun item => if item.id = id then { item with rung := true } else item }

/-- `Signals::close_tx` of the peer -/
def close : WaitProg tasks Unit := do
  .write .plain fun s => { s with closed := true }
  .write .plain Shared.notified

inductive ClaimError
  | closed
  | busy
  | empty

/-- `Rx::claim` of task `k`; a claim may be `Busy` for reasons of its own. After the last retry the task returns. -/
def rxClaim (k : Fin tasks) (last : Bool) : WaitProg tasks (Except ClaimError Nat) := do
  let contended ← Prog.pick
  Prog.action .plain fun s =>
    if contended ≠ 0 then (if last then s.set k .away else s, .error .busy)
    else
      match s.items with
      | item :: rest => ({ s.set k .away with items := rest }, .ok item.id)
      | [] => if s.closed then (s.set k .away, .error .closed) else (s.set k .empty, .error .empty)

/-- A registered wait; `false` when it fails or is dropped. -/
def poll (k : Fin tasks) : Nat → WaitProg tasks Bool
  | 0 => do
    .write .plain fun s => s.set k .away
    return false
  | n + 1 => do
    let passed ← Prog.action .pass fun s =>
      if s.latch ∨ s.task k = .parked true then ({ s.set k .trying with latch := false }, true) else (s, false)
    if passed then return true else poll k n

/-- `Wait::wait` -/
def wait (k : Fin tasks) (rounds : Nat) : WaitProg tasks Bool := do
  .write .plain fun s => s.set k (.parked false)
  poll k rounds

/-- The loop of `Signals::claim` -/
def claimLoop (k : Fin tasks) (rounds : Nat) : Nat → Nat → WaitProg tasks (Except ProgressError Nat)
  | 0, _ => do
    .write .plain fun s => s.set k .away
    return .error .wait
  | fuel + 1, retries => do
    let last := decide (retries = localRetryLimit - 1)
    match ← rxClaim k last with
    | .ok item => return .ok item
    | .error .closed => return .error .closed
    | .error .busy => if last then return .error .busy else claimLoop k rounds fuel (retries + 1)
    | .error .empty => if ← wait k rounds then claimLoop k rounds fuel 0 else return .error .wait

/-- `Signals::claim` -/
def claim (k : Fin tasks) (rounds fuel : Nat) : WaitProg tasks (Except ProgressError Nat) := do
  .write .plain fun s => s.set k .trying
  claimLoop k rounds fuel 0

inductive Op (tasks : Nat)
  | send
  | close
  | claim (k : Fin tasks) (rounds fuel : Nat)

def Op.task : Op tasks → Option (Fin tasks)
  | send => none
  | close => none
  | claim k _ _ => some k

def Op.code : Op tasks → WaitProg tasks Unit
  | send => Waiters.send
  | close => Waiters.close
  | claim k rounds fuel => do let _ ← Waiters.claim k rounds fuel

variable (tasks) in
/-- Any number of messages are sent at any time; a task is in one call at a time. -/
def machine : Machine (Shared tasks) Site (Op tasks) where
  owner := fun _ => 0
  code := Op.code
  ready := fun _ _ running op => running.all fun other => decide (op.task = none ∨ other.task ≠ op.task)

end Operations

/-! ### Lost work -/

section Lost

variable {tasks : Nat} (s : Shared tasks)

/-- A message can be claimed and its publication has been rung. -/
def Rung : Prop := ∃ item ∈ s.items, item.rung = true

/-- A rung message waits, a task is parked with the latch clear, and no other task is going to claim. -/
def Lost : Prop :=
  Rung s ∧ s.latch = false ∧
    ∃ k, s.task k = .parked false ∧ ∀ other, other ≠ k → s.task other ≠ .trying ∧ s.task other ≠ .parked true

/-- The task has found the queue empty and has not been released since. -/
def Task.Stuck (task : Task) : Prop := task = .empty ∨ task = .parked false

instance (task : Task) : Decidable task.Stuck := inferInstanceAs (Decidable (_ ∨ _))

instance : Decidable (Rung s) := inferInstanceAs (Decidable (∃ item ∈ s.items, item.rung = true))

/-- No task passes the wait while a rung message waits and another task has found the queue empty and has not been
released since. -/
def Orderly (op : Op tasks) : Site → Shared tasks → Prop
  | .plain, _ => True
  | .pass, s => ∀ k, op.task = some k → s.latch = true ∨ s.task k = .parked true → Rung s →
      ∀ other, other ≠ k → ¬(s.task other).Stuck

instance (op : Op tasks) (site : Site) (s : Shared tasks) : Decidable (Orderly op site s) := by
  unfold Orderly
  split <;> infer_instance

/-- With the latch clear and a rung message waiting, every task in the call is on its way to a claim. -/
def Served : Prop := Rung s → s.latch = false → ∀ k, ¬(s.task k).Stuck

theorem Served.not_lost {s : Shared tasks} (served : Served s) : ¬Lost s := by
  rintro ⟨rung, clear, k, parked, -⟩
  exact served rung clear k (.inr parked)

end Lost

/-- Where a task is in its code -/
inductive Place
  | outside
  | trying
  | empty
  | parked

def Place.Matches : Place → Task → Prop
  | outside, _ => True
  | trying, task => task = .trying
  | empty, task => task = .empty
  | parked, task => ∃ released, task = .parked released

section Protocol

variable {tasks : Nat}

structure Placed (s : Shared tasks) (views : Views (Op tasks) Place) : Prop where
  served : Served s
  at' : ∀ t op v k, views t = some (op, v) → op.task = some k → v.Matches (s.task k)
  one : ∀ t t' op op' v v' k, views t = some (op, v) → views t' = some (op', v') → op.task = some k →
    op'.task = some k → t = t'

variable (tasks) in
def serve : Protocol (Shared tasks) Site (Op tasks) Place where
  inv := fun s _ views => Placed s views
  idle := fun _ => True
  cond := Orderly
  stop := fun _ _ => False

variable {op : Op tasks} {β : Type} {k : Fin tasks}

variable {v : Place}
variable {task : Task} {site : Site} {f : Shared tasks → Shared tasks × β} {Q : β → Place → Prop}

theorem Place.Matches.release (h : v.Matches task) : v.Matches task.release := by
  cases v with
  | outside => trivial
  | trying => rw [show task = .trying from h]; rfl
  | empty => rw [show task = .empty from h]; rfl
  | parked =>
    obtain ⟨released, rfl⟩ := h
    exact ⟨true, rfl⟩

/-- One action: the message board stays served, and the other tasks are where they were or released. -/
theorem action_spec (h : ∀ s, Served s → (∀ k, op.task = some k → v.Matches (s.task k)) → Orderly op site s →
      ∃ v', Served (f s).1 ∧ (∀ k, op.task = some k → v'.Matches ((f s).1.task k)) ∧
        (∀ k, op.task ≠ some k → (f s).1.task k = s.task k ∨ (f s).1.task k = (s.task k).release) ∧ Q (f s).2 v') :
    (serve tasks).Triple op (Prog.action site f) v Q := by
  refine .action fun s dead views t inv view cond => ?_
  obtain ⟨v', served, own, others, post⟩ := h s inv.served (fun k => inv.at' t op v k view) cond
  refine ⟨v', ⟨served, fun _ _ _ j => ?_, fun _ _ _ _ _ _ j => ?_⟩, trivial, post⟩
  · refine Views.put (own j) fun {u op' w} ne hu task => ?_
    have apart : op.task ≠ some j := fun same => ne (inv.one u t op' op w v j hu view task same)
    have here := inv.at' u op' w j hu task
    rcases others j apart with same | released
    · rwa [same]
    · rw [released]
      exact here.release
  · exact Views.put_pair (fun _ _ => rfl) (fun _ hu => inv.one _ _ _ _ _ _ j view hu) (fun _ hu => inv.one _ _ _ _ _ _ j hu view)
      (inv.one _ _ _ _ _ _ j)

/-- A task changes its own place only; if it is stuck afterwards, no rung message was waiting. -/
theorem set_spec (own : op.task = some k) (h : ∀ s, Served s → v.Matches (s.task k) → Orderly op site s →
      ∃ v' task, (f s).1.task = update s.task k task ∧ Served (f s).1 ∧ v'.Matches task ∧ Q (f s).2 v') :
    (serve tasks).Triple op (Prog.action site f) v Q := by
  refine action_spec fun s served here cond => ?_
  obtain ⟨v', task, eq, served', fits, post⟩ := h s served (here k own) cond
  refine ⟨v', served', fun j task' => ?_, fun j other => .inl ?_, post⟩
  · rw [own, Option.some.injEq] at task'
    subst task'
    rw [eq, update_self]
    exact fits
  · rw [eq, update_of_ne fun same => other (by rw [same, own])]

theorem Served.moved {s s' : Shared tasks} (served : Served s) (moved : s'.task = update s.task k task)
    (free : ¬task.Stuck) (rung : Rung s' → Rung s) (latch : s'.latch = s.latch) : Served s' := by
  intro some clear j
  rw [moved]
  by_cases same : j = k
  · rw [same, update_self]
    exact free
  · rw [update_of_ne same]
    exact served (rung some) (latch ▸ clear) j

theorem away_free : ¬Task.away.Stuck := by decide

theorem trying_free : ¬Task.trying.Stuck := by decide

section

variable (own : op.task = some k)

include own

theorem leave_spec : (serve tasks).Triple op (.write .plain fun s => s.set k .away) v fun _ _ => True :=
  set_spec (f := fun s => (s.set k .away, ())) own fun _ served _ _ =>
    ⟨.outside, .away, rfl, served.moved rfl away_free id rfl, trivial, trivial⟩

theorem rxClaim_spec (last : Bool) : (serve tasks).Triple op (rxClaim k last) .trying fun r v' => match r with
      | .error .empty => v' = .empty | .error .busy => last = false → v' = .trying | _ => True := by
  refine .pick fun contended => set_spec own fun s served here _ => ?_
  by_cases busy : contended ≠ 0
  · rw [if_pos busy]
    cases last with
    | true => exact ⟨.outside, .away, rfl, served.moved rfl away_free id rfl, trivial, fun h => by cases h⟩
    | false =>
      have same : s.task = update s.task k .trying := by
        rw [show Task.trying = s.task k from here.symm, update_eq_self]
      exact ⟨.trying, .trying, same, served, rfl, fun _ => rfl⟩
  rw [if_neg busy]
  rcases items : s.items with _ | ⟨item, rest⟩
  · cases s.closed with
    | true => exact ⟨.outside, .away, rfl, served.moved rfl away_free id rfl, trivial, trivial⟩
    | false =>
      refine ⟨.empty, .empty, rfl, ?_, rfl, rfl⟩
      -- the queue is empty, so no message waits
      rintro ⟨item, mem, -⟩
      have mem : item ∈ s.items := mem
      rw [items] at mem
      cases mem
  · refine ⟨.outside, .away, rfl, served.moved rfl away_free ?_ rfl, trivial, trivial⟩
    rintro ⟨item', mem, rung⟩
    exact ⟨item', items ▸ mem_cons_of_mem _ mem, rung⟩

theorem poll_spec (rounds : Nat) :
    (serve tasks).Triple op (poll k rounds) .parked fun passed v' => passed = true → v' = .trying := by
  induction rounds with
  | zero => exact .seq (leave_spec own) fun _ _ _ h => by cases h
  | succ n ih =>
    refine .seq (R := fun passed v' => v' = if passed then .trying else .parked)
      (set_spec own fun s served here orderly => ?_) ?_
    · by_cases pass : s.latch ∨ s.task k = .parked true
      · rw [if_pos pass]
        refine ⟨.trying, .trying, rfl, ?_, rfl, rfl⟩
        intro rung _ j
        by_cases same : j = k
        · rw [same, show ({ s.set k .trying with latch := false } : Shared tasks).task k = .trying from
            update_self ..]
          exact trying_free
        · rw [show ({ s.set k .trying with latch := false } : Shared tasks).task j = s.task j from
            update_of_ne same ..]
          exact orderly k own pass rung j same
      · rw [if_neg pass]
        obtain ⟨released, parked⟩ := here
        exact ⟨.parked, .parked released, by rw [← parked, update_eq_self], served, ⟨released, rfl⟩, rfl⟩
    · rintro passed _ rfl
      cases passed with
      | true => exact fun _ => rfl
      | false => exact ih

/-- To wait is safe after the queue was found empty: had a message been rung since, the latch would be set. -/
theorem wait_spec (rounds : Nat) :
    (serve tasks).Triple op (wait k rounds) .empty fun passed v' => passed = true → v' = .trying := by
  refine .seq (R := fun _ v' => v' = .parked) (set_spec (f := fun s => (s.set k (.parked false), ())) own
    fun s served here _ => ?_) ?_
  · refine ⟨.parked, .parked false, rfl, ?_, ⟨false, rfl⟩, rfl⟩
    intro rung clear j
    exact absurd (.inl here) (served rung clear k)
  · rintro _ _ rfl
    exact poll_spec own rounds

theorem claimLoop_spec (rounds fuel retries : Nat) :
    (serve tasks).Triple op (claimLoop k rounds fuel retries) .trying fun _ _ => True := by
  induction fuel generalizing retries with
  | zero => exact .seq (leave_spec own) fun _ _ _ => trivial
  | succ fuel ih =>
    refine .seq (rxClaim_spec own _) ?_
    rintro ((_ | _ | _) | item) v' post
    · trivial
    · by_cases last : retries = localRetryLimit - 1
      · simp only [last, decide_true, if_true]
        trivial
      · obtain rfl : v' = .trying := post (decide_eq_false last)
        simp only [last, decide_false, Bool.false_eq_true, if_false]
        exact ih (retries + 1)
    · obtain rfl : v' = .empty := post
      refine .seq (wait_spec own rounds) ?_
      intro passed v' post
      cases passed with
      | true =>
        obtain rfl : v' = .trying := post rfl
        exact ih 0
      | false => trivial
    · trivial

theorem claim_spec (rounds fuel : Nat) : (serve tasks).Triple op (claim k rounds fuel) .outside fun _ _ => True := by
  refine .seq (R := fun _ v' => v' = .trying) (set_spec (f := fun s => (s.set k .trying, ())) own fun s served _ _ => ?_) ?_
  · exact ⟨.trying, .trying, rfl, served.moved rfl trying_free id rfl, rfl, rfl⟩
  · rintro _ _ rfl
    exact claimLoop_spec own rounds fuel 0

end

theorem notify_spec (peer : op.task = none) {f : Shared tasks → Shared tasks}
    (latch : ∀ s, (f s).latch = true) (task : ∀ s k, (f s).task k = (s.task k).release) :
    (serve tasks).Triple op (.write .plain f) v fun _ _ => True := by
  refine action_spec (f := fun s => (f s, ())) fun s _ _ _ => ⟨v, ?_, fun k own => ?_, fun k _ => .inr (task s k), trivial⟩
  · intro _ clear
    rw [latch] at clear
    cases clear
  · rw [peer] at own
    cases own

theorem send_spec (peer : op.task = none) : (serve tasks).Triple op send v fun _ _ => True := by
  have nobody : ∀ {k : Fin tasks} {P : Prop}, op.task = some k → P := fun own => by rw [peer] at own; cases own
  refine .seq (R := fun _ _ => True) (action_spec fun s served _ _ => ?_) fun item _ _ =>
    notify_spec peer (fun _ => rfl) fun _ _ => rfl
  refine ⟨v, ?_, fun k own => nobody own, fun k _ => .inl rfl, trivial⟩
  rintro ⟨item, mem, rung⟩ clear
  rcases mem_append.mp mem with old | new
  · exact served ⟨item, old, rung⟩ clear
  · rw [mem_singleton.mp new] at rung
    cases rung

theorem close_spec (peer : op.task = none) : (serve tasks).Triple op close v fun _ _ => True := by
  have nobody : ∀ {k : Fin tasks} {P : Prop}, op.task = some k → P := fun own => by rw [peer] at own; cases own
  refine .seq (R := fun _ _ => True) (action_spec (f := fun s => ({ s with closed := true }, ())) fun s served _ _ => ?_)
    fun _ _ _ => notify_spec peer (fun _ => rfl) fun _ _ => rfl
  exact ⟨v, served, fun k own => nobody own, fun k _ => .inl rfl, trivial⟩

theorem sound : (serve tasks).Sound (machine tasks) (.init tasks) where
  init := ⟨fun rung => (by obtain ⟨_, mem, -⟩ := rung; cases mem), fun _ _ _ _ h => (by cases h),
    fun _ _ _ _ _ _ _ h => (by cases h)⟩
  spawn := by
    intro s dead views t op ops inv free alive within ready
    have apart : ∀ u op' v k, views u = some (op', v) → op.task = some k → op'.task ≠ some k := by
      intro u op' v k hu task
      rcases of_decide_eq_true (all_eq_true.mp ready op' (within u op' v hu)) with none | ne
      · rw [none] at task
        cases task
      · exact task ▸ ne
    refine ⟨.outside, ⟨inv.served, ?_, ?_⟩, ?_⟩
    · exact fun _ _ _ k => Views.put (fun _ => trivial) fun _ => inv.at' _ _ _ k
    · exact fun _ _ _ _ _ _ k => Views.put_pair (fun _ _ => rfl) (fun _ hu task task' => absurd task' (apart _ _ _ k hu task))
        (fun _ hu task task' => absurd task (apart _ _ _ k hu task')) (inv.one _ _ _ _ _ _ k)
    · cases op with
      | send => exact send_spec rfl
      | close => exact close_spec rfl
      | claim k rounds fuel => exact .seq (claim_spec rfl rounds fuel) fun _ _ _ => trivial
  retire := by
    intro s dead views t op v inv view _
    exact ⟨inv.served, fun u op' w k hu => inv.at' u op' w k (Views.retire_some hu).2, fun u u' op₁ op₂ w w' k hu hu' =>
      inv.one u u' op₁ op₂ w w' k (Views.retire_some hu).2 (Views.retire_some hu').2⟩
  crash := fun _ stop => stop.elim
  rejoin := fun inv _ _ _ => inv
  refl := fun _ => trivial

/-- **No rung message is left behind.** In every run in which no task passes the wait while a rung message waits and another
task, having found the queue empty, is not released, no message is lost on a parked task. -/
theorem waiters_lose_nothing {c : Config (Shared tasks) Site (Op tasks)}
    (run : (machine tasks).Run (Allowed Orderly fun _ _ => False) (.start (.init tasks)) c) : ¬Lost c.shared := by
  obtain ⟨views, inv, -⟩ := sound.run sound.start run
  exact inv.served.not_lost

/-- A task waits, is released by a message and takes it; then another task waits and is released by the next message. -/
theorem waiters_lose_nothing_pair : ∃ c, (machine 2).Run (Allowed Orderly fun _ _ => False) (.start (.init 2)) c ∧
    (c.shared.task 0 = .away ∧ c.shared.task 1 = .parked true ∧ Rung c.shared) ∧ ¬Lost c.shared := by
  have steps : ((machine 2).execIf (Allowed Orderly fun _ _ => False) (.start (.init 2))
      ([.spawn (.claim 0 1 2), .run 0 0, .run 0 0, .run 0 0, .run 0 0, .spawn .send, .run 1 0, .run 1 0, .run 0 0, .run 0 0,
        .run 0 0, .spawn (.claim 1 1 1), .run 2 0, .run 2 0, .run 2 0, .run 2 0, .spawn .send, .run 3 0, .run 3 0])).map
        (fun c => (c.shared.task 0, c.shared.task 1, decide (Rung c.shared))) = some (.away, .parked true, true) := by
          decide +kernel
  obtain ⟨c, run, same⟩ := Machine.exists_run steps
  simp only [Prod.mk.injEq, decide_eq_true_eq] at same
  exact ⟨c, run, same, waiters_lose_nothing run⟩

/-- Two tasks find the queue empty, and two messages are published and rung. The first task registers, passes, which clears
the latch, and returns with one message; the second one registers and sleeps beside the other message. -/
theorem second_waiter_sleeps : ∃ c, (machine 2).Reaches (.start (.init 2)) c ∧ Lost c.shared := by
  have steps : ((machine 2).execAll (.start (.init 2))
      ([.spawn (.claim 0 1 2), .run 0 0, .run 0 0, .run 0 0, .spawn (.claim 1 1 2), .run 1 0, .run 1 0, .run 1 0,
        .spawn .send, .run 2 0, .run 2 0, .spawn .send, .run 3 0, .run 3 0,
        .run 0 0, .run 0 0, .run 0 0, .run 0 0, .run 1 0])).map
        (fun c => (decide (Rung c.shared), c.shared.latch, c.shared.task 0, c.shared.task 1)) =
      some (true, false, .away, .parked false) := by decide +kernel
  obtain ⟨c, run, same⟩ := Machine.exists_reaches steps
  simp only [Prod.mk.injEq, decide_eq_true_eq] at same
  obtain ⟨rung, clear, first, second⟩ := same
  refine ⟨c, run, rung, clear, 1, second, fun other ne => ?_⟩
  obtain rfl : other = 0 := by omega
  rw [first]
  decide

end Protocol

end Evering.Signals.Waiters
