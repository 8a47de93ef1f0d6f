import Mathlib.Logic.Function.Iterate

/-!
# The wait of the Windows runtime

`Ready` is the future of one registered wait. Its state has two owners: the future itself, and the raw pointer that the
registration passes to the callback `wake`, which runs on a thread of the system while the task polls or drops the future.
When the system calls it and when `UnregisterWaitEx` returns is a parameter; the results are about systems that do what is
documented.

Each access to an atomic and each critical section of the waker's mutex is one step. The model counts the owners, notes an
access to the state without one, and keeps which poll returned `Pending` last and the wakers that were woken; the waker that
a poll passes is named by the number of the poll.
-/

namespace Evering.Runtime

inductive Callback
  | armed
  /-- has taken the raw owner -/
  | called
  | started
  | fired
  /-- is about to drop its owner -/
  | woke
  | returned
  /-- is not registered, or not any more -/
  | off
  deriving DecidableEq

/-- The steps that a callback has left once it was called -/
def Callback.left : Callback → Option Nat
  | called => some 4
  | started => some 3
  | fired => some 2
  | woke => some 1
  | returned => some 0
  | _ => none

inductive Task
  /-- has made the state and its two owners -/
  | new
  /-- the registration has failed -/
  | refused
  | idle
  | polling
  | storing
  | checking
  | unregistering
  | withdrawn
  | dropping
  | gone
  deriving DecidableEq

/-- What the system does with a callback -/
structure System where
  /-- a wait that is registered calls it now -/
  calls : Callback → Bool
  /-- `UnregisterWaitEx` returns now -/
  returns : Callback → Bool

structure System.Documented (sys : System) : Prop where
  /-- `WT_EXECUTEONLYONCE`, and nothing is called that is not registered -/
  once : ∀ callback, sys.calls callback = true → callback = .armed
  /-- `INVALID_HANDLE_VALUE`: a callback that was called is waited for -/
  waits : ∀ callback, sys.returns callback = true → callback = .armed ∨ callback = .returned

structure Ready where
  task : Task := .new
  callback : Callback := .off
  fired : Bool := false
  started : Bool := false
  waker : Option Nat := none
  /-- the handle of the registration is not null -/
  wait : Bool := false
  error : Bool := false
  owners : Nat := 2
  /-- the state was accessed or released without an owner -/
  dangling : Bool := false
  polls : Nat := 0
  pending : Option Nat := none
  woken : List Nat := []

inductive Move
  | register (ok : Bool)
  | poll
  | drop
  | task
  | call
  | callback

namespace Ready

variable {sys : System} {s s' : Ready}

/-- An access to the state -/
@[grind] def touch (s : Ready) : Ready := { s with dangling := if s.owners = 0 then true else s.dangling }

/-- The drop of an owner -/
@[grind] def release (s : Ready) : Ready := { s.touch with owners := s.owners - 1 }

def wake (s : Ready) : Option Ready :=
  match s.callback with
  | .called => some { s.touch with callback := .started, started := true }
  | .started => some { s.touch with callback := .fired, fired := true }
  | .fired => some { s.touch with callback := .woke, waker := none, woken := s.waker.toList ++ s.woken }
  | .woke => some { s.release with callback := .returned }
  | _ => none

/-- The next step of `new`, `poll` or `drop` -/
def advance (sys : System) (s : Ready) : Option Ready :=
  match s.task with
  | .refused => some { s.release with task := .idle }
  | .polling =>
    if s.error then some { s with error := false, task := .idle }
    else some { s.touch with task := if s.fired then .idle else .storing }
  | .storing => some { s.touch with task := .checking, waker := some s.polls }
  | .checking => some { s.touch with task := .idle, pending := if s.fired then none else some s.polls }
  | .unregistering =>
    -- a callback that was not called is not registered any more
    if sys.returns s.callback then
      some { s with task := .withdrawn, callback := if s.callback = .armed then .off else s.callback }
    else none
  | .withdrawn => some (if s.started then { s.touch with task := .dropping } else { s.touch.release with task := .dropping })
  | .dropping => some { s.release with task := .gone }
  | _ => none

def step (sys : System) (s : Ready) : Move → Option Ready
  | .register ok =>
    if s.task ≠ .new then none
    else if ok then some { s with task := .idle, callback := .armed, wait := true }
    else some { s with task := .refused, error := true }
  | .poll => if s.task = .idle then some { s with task := .polling, polls := s.polls + 1, pending := none } else none
  | .drop => if s.task = .idle then some { s with task := if s.wait then .unregistering else .dropping } else none
  | .task => s.advance sys
  | .call => if sys.calls s.callback then some { s with callback := .called } else none
  | .callback => s.wake

/-- The states that a future reaches -/
def Reached (sys : System) (s : Ready) : Prop := ∃ moves : List Move, moves.foldlM (step sys) {} = some s

/-- One while the raw pointer is an owner of the state -/
@[grind] def raw (s : Ready) : Nat :=
  match s.callback with
  | .off => if s.task = .new ∨ s.task = .refused ∨ s.task = .withdrawn then 1 else 0
  | .returned => 0
  | _ => 1

structure Good (s : Ready) : Prop where
  sound : s.dangling = false
  owners : s.owners = (if s.task = .gone then 0 else 1) + s.raw
  off : s.callback = .off ↔ s.wait = false ∨ s.started = false ∧ (s.task = .withdrawn ∨ s.task = .dropping ∨ s.task = .gone)
  wait : s.wait = true → s.task ≠ .new ∧ s.task ≠ .refused
  withdrawn : s.task = .withdrawn ∨ s.task = .unregistering → s.wait = true
  ended : s.task = .withdrawn ∨ s.task = .dropping ∨ s.task = .gone → s.callback = .off ∨ s.callback = .returned
  started : s.started = true ↔ s.callback = .started ∨ s.callback = .fired ∨ s.callback = .woke ∨ s.callback = .returned
  fired : s.fired = true ↔ s.callback = .fired ∨ s.callback = .woke ∨ s.callback = .returned
  stored : s.task = .checking → s.waker = some s.polls ∨ s.polls ∈ s.woken
  /-- the callback has woken the task, or will find its waker -/
  pending : ∀ k, s.pending = some k → k ∈ s.woken ∨ s.waker = some k ∧ s.callback ≠ .woke ∧ s.callback ≠ .returned
  idle : s.task = .storing ∨ s.task = .checking ∨ s.task = .polling → s.pending = none

theorem Good.wake (good : Good s) (h : s.wake = some s') : Good s' := by
  cases good
  unfold Ready.wake at h
  split at h <;> cases h <;> constructor <;> grind -ring -linarith

theorem Good.advance (documented : sys.Documented) (good : Good s) (h : s.advance sys = some s') : Good s' := by
  have waits := documented.waits s.callback
  cases good
  unfold Ready.advance at h
  split at h
  case h_2 => split at h <;> cases h <;> constructor <;> grind -ring -linarith
  case h_5 =>
    -- `UnregisterWaitEx` has returned: the callback was not called, or is done
    split at h
    · cases h
      rcases waits ‹_› with here | here <;> simp only [here, if_true, reduceCtorEq,
        if_false] <;> constructor <;> grind -ring -linarith
    · cases h
  case h_6 =>
    -- `started` tells who has to release the raw owner
    cases h
    split <;> constructor <;> grind -ring -linarith
  all_goals cases h <;> constructor <;> grind -ring -linarith

theorem Good.step (documented : sys.Documented) (good : Good s) {move : Move} (h : step sys s move = some s') : Good s' := by
  have once := documented.once s.callback
  cases move with
  | task => exact good.advance documented h
  | callback => exact good.wake h
  | register ok => cases good; unfold Ready.step at h; constructor <;> grind -ring -linarith
  | poll | drop | call =>
    cases good
    unfold Ready.step at h
    constructor <;> grind -ring -linarith

theorem Good.run (documented : sys.Documented) (good : Good s) {moves : List Move}
    (h : moves.foldlM (Ready.step sys) s = some s') : Good s' := by
  induction moves generalizing s with
  | nil => cases h; exact good
  | cons move moves ih =>
    obtain ⟨next, stepped, rest⟩ := Option.bind_eq_some_iff.mp h
    exact ih (good.step documented stepped) rest

theorem Reached.good (documented : sys.Documented) (reached : s.Reached sys) : Good s := by
  obtain ⟨moves, run⟩ := reached
  refine Good.run documented ?_ run
  constructor <;> simp [raw]

/-- **The state is released once.** Whatever the task and the callback do in whatever order, the state is never used or
released after its last owner was dropped; when the drop of the future is over, nobody owns the state any more and the
callback has returned or will not be called. -/
theorem state_released_once (documented : sys.Documented) (reached : s.Reached sys) :
    s.dangling = false ∧ (s.owners = 0 ↔ s.task = .gone) ∧ (s.task = .gone → s.callback = .off ∨ s.callback = .returned) := by
  have good := reached.good documented
  exact ⟨good.sound, by grind [Good], fun gone => good.ended (.inr (.inr gone))⟩

/-- The system with every behaviour that is documented -/
def freeSystem : System where
  calls := fun callback => callback = .armed
  returns := fun callback => callback = .armed ∨ callback = .returned

theorem freeSystem_documented : freeSystem.Documented := ⟨fun _ => of_decide_eq_true, fun _ => of_decide_eq_true⟩

theorem dropped_released_once :
    ∃ s : Ready, s.Reached freeSystem ∧ s.task = .gone ∧ s.callback = .returned ∧ s.dangling = false :=
  let run : Reached freeSystem _ := ⟨[.register true, .poll, .task, .task, .call, .task, .callback, .drop, .callback,
    .callback, .callback, .task, .task, .task], rfl⟩
  ⟨_, run, rfl, rfl, (state_released_once freeSystem_documented run).1⟩

/-- **No wake is lost.** When a poll has returned `Pending` and nothing was polled since, a callback that was called wakes
the waker of this poll in the steps it has left, wherever it was when the poll ran, and waits for nobody. -/
theorem wake_reaches_pending (documented : sys.Documented) (reached : s.Reached sys) {k n : Nat} (pending : s.pending = some k)
    (left : s.callback.left = some n) : ∃ s', (Option.bind · wake)^[n] (some s) = some s' ∧ s'.callback = .returned ∧
      k ∈ s'.woken := by
  have good := reached.good documented
  clear reached
  induction n generalizing s with
  | zero =>
    have returned : s.callback = .returned := by
      cases callback : s.callback <;> simp_all [Callback.left]
    exact ⟨s, rfl, returned, (good.pending k pending).resolve_right fun h => h.2.2 returned⟩
  | succ n ih =>
    obtain ⟨next, stepped, same, less⟩ : ∃ next, s.wake = some next ∧ next.pending = s.pending ∧ next.callback.left = some n := by
      cases callback : s.callback <;> simp_all [wake, Callback.left, touch, release]
    obtain ⟨s', ran, post⟩ := ih (same.trans pending) less (good.wake stepped)
    exact ⟨s', by rw [Function.iterate_succ_apply, Option.bind_some, stepped, ran], post⟩

theorem raced_wake_reaches : ∃ s s' : Ready, s.Reached freeSystem ∧ s.pending = some 1 ∧
    (Option.bind · wake)^[4] (some s) = some s' ∧
    s'.callback = .returned ∧ 1 ∈ s'.woken :=
  let run : Reached freeSystem _ := ⟨[.register true, .poll, .task, .call, .task, .task], rfl⟩
  ⟨_, _, run, rfl, (wake_reaches_pending freeSystem_documented run rfl rfl).choose_spec⟩

end Ready

end Evering.Runtime
