import Evering.Interleave.Prog

/-!
# Interleaved runs with fail-stop crashes

A machine runs any number of threads over one shared state. Each thread executes the code of one
operation for the participant that owns it. The scheduler starts operations, lets a thread take its
next atomic step, stops a participant forever (all its threads vanish, what they wrote stays), and
lets a new participant take the number of a dead one. `Run ok c c'` holds when the scheduler can
lead from `c` to `c'` by steps that all satisfy `ok`.
-/

namespace Evering.Interleave

open Function

variable {σ ℓ ω : Type}

/-- What a machine executes: the code and owner of each operation, and when it may start. -/
structure Machine (σ ℓ ω : Type) where
  owner : ω → Nat
  code : ω → Prog σ ℓ Unit
  /-- bookkeeping of the shared state when a participant stops -/
  onCrash : Nat → σ → σ := fun _ s => s
  /-- may this operation start, given the shared state, the dead participants and the
  operations that are running? -/
  ready : σ → (Nat → Bool) → List ω → ω → Bool := fun _ _ _ _ => true
  /-- may a new participant take over this dead number, given what is running? -/
  readmits : σ → List ω → Nat → Bool := fun _ _ _ => false

/-- A configuration: shared state, dead participants, and the threads started so far, of which
those that ended or were stopped are `none`. -/
structure Config (σ ℓ ω : Type) where
  shared : σ
  dead : Nat → Bool
  count : Nat
  threads : Nat → Option (ω × Prog σ ℓ Unit)

def Config.running (c : Config σ ℓ ω) : List ω :=
  (List.range c.count).filterMap fun t => (c.threads t).map Prod.fst

/-- The start: nothing runs and nobody is dead. -/
def Config.start (s : σ) : Config σ ℓ ω where
  shared := s
  dead := fun _ => false
  count := 0
  threads := fun _ => none

/-- A scheduler decision. -/
inductive Step (ω : Type)
  | spawn (op : ω)
  | run (t : Nat) (choice : Nat)
  | crash (p : Nat)
  | rejoin (p : Nat)

/-- A thread whose program has ended leaves the table. -/
def settle (op : ω) : Prog σ ℓ Unit → Option (ω × Prog σ ℓ Unit)
  | .done _ => none
  | prog => some (op, prog)

namespace Machine

variable (M : Machine σ ℓ ω)

/-- Effect of one scheduler decision; `none` when it is not enabled. -/
def exec (c : Config σ ℓ ω) : Step ω → Option (Config σ ℓ ω)
  | .spawn op =>
    if !c.dead (M.owner op) && M.ready c.shared c.dead c.running op then
      some { c with
        count := c.count + 1
        threads := update c.threads c.count (settle op (M.code op)) }
    else none
  | .run t choice =>
    match c.threads t with
    | none => none
    | some (_, .done _) => none
    | some (op, .choose next) =>
      some { c with threads := update c.threads t (settle op (next choice)) }
    | some (op, .atomic _ act next) =>
      some { c with
        shared := act c.shared
        threads := update c.threads t (settle op (next c.shared)) }
  | .crash p =>
    some { c with
      shared := M.onCrash p c.shared
      dead := update c.dead p true
      threads := fun t => (c.threads t).filter fun th => M.owner th.1 != p }
  | .rejoin p =>
    if c.dead p && M.readmits c.shared c.running p then
      some { c with dead := update c.dead p false }
    else none

def execAll : Config σ ℓ ω → List (Step ω) → Option (Config σ ℓ ω)
  | c, [] => some c
  | c, step :: steps => (M.exec c step).bind fun c' => execAll c' steps

/-- Runs whose every step is allowed by `ok`. -/
inductive Run (ok : Config σ ℓ ω → Step ω → Prop) (c : Config σ ℓ ω) : Config σ ℓ ω → Prop
  | refl : Run ok c c
  | tail {c' c'' : Config σ ℓ ω} {step : Step ω} :
      Run ok c c' → ok c' step → M.exec c' step = some c'' → Run ok c c''

abbrev Reaches (c c' : Config σ ℓ ω) : Prop :=
  M.Run (fun _ _ => True) c c'

variable {M}
variable {ok : Config σ ℓ ω → Step ω → Prop} {c c' : Config σ ℓ ω} {steps : List (Step ω)}

theorem Run.mono {ok' : Config σ ℓ ω → Step ω → Prop}
    (weaker : ∀ c step, ok c step → ok' c step) (run : M.Run ok c c') : M.Run ok' c c' := by
  induction run with
  | refl => exact .refl
  | tail _ allowed stepped ih => exact .tail ih (weaker _ _ allowed) stepped

theorem Run.trans {c'' : Config σ ℓ ω} (first : M.Run ok c c') (second : M.Run ok c' c'') : M.Run ok c c'' := by
  induction second with
  | refl => exact first
  | tail _ allowed stepped ih => exact .tail ih allowed stepped

theorem reaches_of_execAll (h : M.execAll c steps = some c') : M.Reaches c c' := by
  induction steps generalizing c with
  | nil =>
    simp only [execAll, Option.some.injEq] at h
    exact h ▸ .refl
  | cons step steps ih =>
    obtain ⟨next, stepped, rest⟩ := Option.bind_eq_some_iff.mp h
    exact Run.trans (.tail .refl trivial stepped) (ih rest)

theorem exists_reaches {β : Type} {f : Config σ ℓ ω → β} {b : β}
    (h : (M.execAll c steps).map f = some b) : ∃ c', M.Reaches c c' ∧ f c' = b := by
  obtain ⟨c', executed, same⟩ := Option.map_eq_some_iff.mp h
  exact ⟨c', reaches_of_execAll executed, same⟩

end Machine

theorem exists_stages {γ δ β : Type} {first : Option γ} {second : γ → Option δ} {f : γ × δ → β} {b : β}
    (h : (first.bind fun c => (second c).map fun c' => (c, c')).map f = some b) :
    ∃ c c', first = some c ∧ second c = some c' ∧ f (c, c') = b := by
  obtain ⟨_, executed, same⟩ := Option.map_eq_some_iff.mp h
  obtain ⟨c, hc, rest⟩ := Option.bind_eq_some_iff.mp executed
  obtain ⟨c', hc', rfl⟩ := Option.map_eq_some_iff.mp rest
  exact ⟨c, c', hc, hc', same⟩

end Evering.Interleave
