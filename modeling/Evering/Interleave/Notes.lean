import Evering.Interleave.Report

/-!
# What a thread keeps in mind, and what a run records

A thread may note a fact about the shared state if no step can make it false, that is, if the guarantee of the
protocol keeps it; what the thread reads can be added to the fact. Beside the shared state a run may carry a record
that is computed from each step and that no program reads. An invariant that connects state and record then needs one
proof for all programs, from the guarantee of a step.
-/

namespace Evering.Interleave

variable {σ ℓ ℓ' ω V α β γ : Type}

namespace Protocol

/-! ### Notes -/

/-- No step makes the fact false. -/
def Stable (P : Protocol σ ℓ ω V) (fact : σ → Prop) : Prop :=
  ∀ s s', P.guar s s' → fact s → fact s'

/-- The protocol in which every thread has a note. -/
def noting (P : Protocol σ ℓ ω V) : Protocol σ ℓ ω (V × (σ → Prop)) where
  inv := fun s dead views => P.inv s dead (Views.left views) ∧
    ∀ {t op v fact}, views t = some (op, v, fact) → fact s ∧ P.Stable fact
  idle := fun v => P.idle v.1
  guar := P.guar
  cond := P.cond
  stop := P.stop

variable {P : Protocol σ ℓ ω V} {op : ω} {prog : Prog σ ℓ α} {v : V} {fact : σ → Prop}
variable {views : Views ω (V × (σ → Prop))} {t : Nat}

theorem notes_update {s s' : σ} {v' : V} {fact' : σ → Prop}
    (notes : ∀ {t op v fact}, views t = some (op, v, fact) → fact s ∧ P.Stable fact) (guar : P.guar s s')
    (holds : fact' s') (stable : P.Stable fact') {u : Nat} {op' : ω} {w : V} {note : σ → Prop}
    (at_u : Function.update views t (some (op, v', fact')) u = some (op', w, note)) : note s' ∧ P.Stable note := by
  by_cases here : u = t
  · subst here
    rw [Function.update_self, Option.some.injEq, Prod.mk.injEq, Prod.mk.injEq] at at_u
    obtain ⟨-, -, same⟩ := at_u
    exact same ▸ ⟨holds, stable⟩
  · rw [Function.update_of_ne here] at at_u
    obtain ⟨held, kept⟩ := notes at_u
    exact ⟨kept _ _ guar held, kept⟩

theorem Triple.noting {Q : α → V → Prop} (h : P.Triple op prog v Q) :
    P.noting.Triple op prog (v, fact) fun a w => Q a w.1 ∧ w.2 = fact := by
  induction prog generalizing v with
  | done a => exact ⟨h, rfl⟩
  | choose next ih => exact fun n => ih n (h n)
  | atomic site act next ih =>
    intro s dead views t inv view cond
    obtain ⟨v', inv', guar, rest⟩ := h s dead _ t inv.1 (left_some view) cond
    obtain ⟨held, stable⟩ := inv.2 view
    refine ⟨(v', fact), ⟨?_, notes_update inv.2 guar (stable _ _ guar held) stable⟩, guar, ih s rest⟩
    rwa [left_update]

theorem Triple.note {site : ℓ} {f : σ → α} {fact' : α → σ → Prop} {R : α → Prop}
    {Q : α → V × (σ → Prop) → Prop} (refl : ∀ s, P.guar s s)
    (learn : ∀ {s dead views t}, P.inv s dead views → views t = some (op, v) → fact s → fact' (f s) s ∧ R (f s))
    (stable : ∀ a, R a → P.Stable (fact' a)) (q : ∀ a, R a → Q a (v, fact' a)) :
    P.noting.Triple op (.read site f) (v, fact) Q := by
  refine .read refl fun s dead views t inv view _ => ?_
  obtain ⟨holds, known⟩ := learn inv.1 (left_some view) (inv.2 view).1
  refine ⟨(v, fact' (f s)), ⟨?_, notes_update inv.2 (refl s) holds (stable _ known)⟩, q _ known⟩
  rw [left_update, update_same (left_some view)]
  exact inv.1

end Protocol

/-! ### Records -/

/-- The program with a record of its steps. -/
def Prog.observe (label : ℓ → ℓ') (see : σ → σ → γ → γ) : Prog σ ℓ α → Prog (σ × γ) ℓ' α
  | .done a => .done a
  | .choose next => .choose fun n => (next n).observe label see
  | .atomic site act next => .atomic (label site) (fun x => (act x.1, see x.1 (act x.1) x.2))
      fun x => (next x.1).observe label see

namespace Protocol

/-- The protocol with an invariant of state and record. -/
def observing (P : Protocol σ ℓ ω V) (J : σ → γ → Prop) (cond : ω → ℓ' → σ × γ → Prop) :
    Protocol (σ × γ) ℓ' ω V where
  inv := fun x dead views => P.inv x.1 dead views ∧ J x.1 x.2
  idle := P.idle
  guar := fun x y => P.guar x.1 y.1
  cond := cond
  stop := fun x p => P.stop x.1 p

theorem Triple.observe {P : Protocol σ ℓ ω V} {J : σ → γ → Prop} {cond : ω → ℓ' → σ × γ → Prop} {op : ω}
    {prog : Prog σ ℓ α} {v : V} {Q : α → V → Prop} {label : ℓ → ℓ'} {see : σ → σ → γ → γ}
    (conds : ∀ {site x}, cond op (label site) x → P.cond op site x.1)
    (keeps : ∀ {s s' g dead views views'}, P.inv s dead views → P.inv s' dead views' → P.guar s s' → J s g →
      J s' (see s s' g)) (h : P.Triple op prog v Q) : (P.observing J cond).Triple op (prog.observe label see) v Q := by
  induction prog generalizing v with
  | done a => exact h
  | choose next ih => exact fun n => ih n (h n)
  | atomic site act next ih =>
    intro x dead views t inv view allowed
    obtain ⟨v', inv', guar, rest⟩ := h x.1 dead views t inv.1 view (conds allowed)
    exact ⟨v', ⟨inv', keeps inv.1 inv' guar inv.2⟩, guar, ih x.1 rest⟩

end Protocol

end Evering.Interleave
