import Mathlib.Logic.Function.Basic

/-!
# Programs of atomic steps

A program is a tree of atomic actions on a shared state. Each action changes the state and hands the
rest of the program what it observed; between two actions of one program any number of actions of
other programs may run. `choose` is a step whose outcome the environment decides (a spurious failure
of a weak compare-and-swap, the block an allocator picks). A `site` names the place of an action in
the code, so that a run can be restricted at that place only.
-/

namespace Evering.Interleave

/-- A program over states `σ` with code sites `ℓ` that returns an `α`. -/
inductive Prog (σ ℓ α : Type) : Type
  | done (a : α)
  | choose (next : Nat → Prog σ ℓ α)
  | atomic (site : ℓ) (act : σ → σ) (next : σ → Prog σ ℓ α)

namespace Prog

variable {σ ℓ α β : Type}

def bind : Prog σ ℓ α → (α → Prog σ ℓ β) → Prog σ ℓ β
  | done a, k => k a
  | choose next, k => choose fun n => (next n).bind k
  | atomic site act next, k => atomic site act fun s => (next s).bind k

instance : Monad (Prog σ ℓ) where
  pure := done
  bind := bind

@[simp] theorem pure_eq (a : α) : (pure a : Prog σ ℓ α) = done a := rfl

@[simp] theorem bind_eq (x : Prog σ ℓ α) (k : α → Prog σ ℓ β) : x >>= k = x.bind k := rfl

@[simp] theorem done_bind (a : α) (k : α → Prog σ ℓ β) : (done a).bind k = k a := rfl

/-- One atomic action that changes the state and returns what it observed. -/
def action (site : ℓ) (f : σ → σ × α) : Prog σ ℓ α :=
  atomic site (fun s => (f s).1) fun s => done (f s).2

def read (site : ℓ) (f : σ → α) : Prog σ ℓ α :=
  atomic site id fun s => done (f s)

def write (site : ℓ) (f : σ → σ) : Prog σ ℓ Unit :=
  atomic site f fun _ => done ()

/-- A value picked by the environment. -/
def pick : Prog σ ℓ Nat :=
  choose done

/-- The program run alone from `s` to its end, with `oracle` answering its `n`-th choice. -/
def solo (oracle : Nat → Nat) : Prog σ ℓ α → Nat → σ → σ × α
  | done a, _, s => (s, a)
  | choose next, n, s => solo oracle (next (oracle n)) (n + 1) s
  | atomic _ act next, n, s => solo oracle (next s) n (act s)

end Prog

end Evering.Interleave
