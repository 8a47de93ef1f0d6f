import Evering.Interleave.Focus

/-!
# Programs that only read

A program that only reads one part of the state has a result that depends on that part alone. A thread that knows the
part knows the result.
-/

namespace Evering.Interleave

variable {σ ℓ ω V δ α β : Type}

/-- Programs that only read the part `get` of the state, at one site. -/
inductive Prog.Reads (get : σ → δ) (site : ℓ) : Prog σ ℓ α → Prop
  | done (a : α) : Reads get site (.done a)
  | read {γ : Type} (f : δ → γ) {k : γ → Prog σ ℓ α} :
      (∀ c, Reads get site (k c)) → Reads get site (.atomic site id fun s => k (f (get s)))

namespace Prog

variable {get : σ → δ} {site : ℓ}

/-- What the program returns when it is run alone and nothing is to be chosen. -/
def result (prog : Prog σ ℓ α) (s : σ) : α := (prog.solo (fun _ => 0) 0 s).2

theorem Reads.bind {prog : Prog σ ℓ α} {k : α → Prog σ ℓ β} (reads : prog.Reads get site)
    (rest : ∀ a, (k a).Reads get site) : (prog.bind k).Reads get site := by
  induction reads with
  | done a => exact rest a
  | read f _ ih => exact .read f ih

theorem Reads.load {γ : Type} (f : δ → γ) : (Prog.read site fun s => f (get s)).Reads get site :=
  .read f fun c => .done c

theorem Reads.ite {p : Prop} [Decidable p] {x y : Prog σ ℓ α} (left : x.Reads get site)
    (right : y.Reads get site) : (if p then x else y).Reads get site := by
  split
  · exact left
  · exact right

variable {prog : Prog σ ℓ α} (reads : prog.Reads get site)

include reads

theorem Reads.solo_bind (k : α → Prog σ ℓ β) (oracle : Nat → Nat) (n : Nat) (s : σ) :
    (prog.bind k).solo oracle n s = (k (prog.result s)).solo oracle n s := by
  induction reads with
  | done a => rfl
  | read f _ ih => exact ih (f (get s))

theorem Reads.result_bind (k : α → Prog σ ℓ β) (s : σ) : (prog.bind k).result s = (k (prog.result s)).result s :=
  congrArg Prod.snd (reads.solo_bind k _ 0 s)

theorem Reads.solo (oracle : Nat → Nat) (n : Nat) (s : σ) : prog.solo oracle n s = (s, prog.result s) := by
  have same := reads.solo_bind .done oracle n s
  rwa [bind_done] at same

theorem Reads.finds {oracle : Nat → Nat} {s : σ} : prog.Post oracle s fun s' r => s' = s ∧ prog.result s = r := by
  intro n
  rw [reads.solo]
  exact ⟨rfl, rfl⟩

theorem Reads.keeps {γ : Type} {get' : σ → γ} : prog.Keeps get' := by
  induction reads with
  | done a => trivial
  | read f _ ih => exact fun s => ⟨rfl, ih (f (get s))⟩

end Prog

namespace Protocol

variable {P : Protocol σ ℓ ω V} {op : ω} {get : σ → δ} {site : ℓ} {prog : Prog σ ℓ α} {v : V}

theorem Triple.skim (reads : prog.Reads get site) (refl : ∀ s, P.guar s s) {Q : α → V → Prop}
    (h : ∀ a, Q a v) : P.Triple op prog v Q := by
  induction reads with
  | done a => exact h a
  | read f _ ih =>
    intro s dead views t inv view cond
    exact ⟨v, by rwa [id, update_same view], refl s, ih (f (get s))⟩

/-- The thread knows that the part is that of `s₀`. -/
theorem Triple.known (reads : prog.Reads get site) (refl : ∀ s, P.guar s s) (s₀ : σ)
    (known : ∀ {s dead views t}, P.inv s dead views → views t = some (op, v) → get s = get s₀) :
    P.Triple op prog v fun a w => w = v ∧ a = prog.result s₀ := by
  induction reads with
  | done a => exact ⟨rfl, rfl⟩
  | read f _ ih =>
    intro s dead views t inv view _
    refine ⟨v, by rwa [id, update_same view], refl s, ?_⟩
    dsimp only
    rw [known inv view]
    exact ih (f (get s₀))

end Protocol

end Evering.Interleave
