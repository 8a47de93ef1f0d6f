import Evering.Interleave.Focus

/-!
# Programs that make no choice

A program that makes no choice goes one way from each state. `Leads p s s' a` says which: run alone from `s`, it returns `a` in
`s'`. Unlike a postcondition this also says what follows the program does: it goes on from `s'`, at the choice where the program
began.
-/

namespace Evering.Interleave.Prog

variable {σ τ ℓ ℓ' α β : Type}

/-- From `s` the program returns `a` in `s'` and makes no choice. -/
def Leads : Prog σ ℓ α → σ → σ → α → Prop
  | .done b, s, s', a => s' = s ∧ b = a
  | .choose _, _, _, _ => False
  | .atomic _ act next, s, s', a => (next s).Leads (act s) s' a

namespace Leads

variable {p : Prog σ ℓ α} {k : α → Prog σ ℓ β} {s s' s'' : σ} {a : α} {b : β}

theorem done : (Prog.done a : Prog σ ℓ α).Leads s s a := ⟨rfl, rfl⟩

theorem read {site : ℓ} {f : σ → α} : (Prog.read site f).Leads s s (f s) := ⟨rfl, rfl⟩

theorem action {site : ℓ} {f : σ → σ × α} : (Prog.action site f).Leads s (f s).1 (f s).2 := ⟨rfl, rfl⟩

theorem bind (first : p.Leads s s' a) (rest : (k a).Leads s' s'' b) : (p.bind k).Leads s s'' b := by
  induction p generalizing s with
  | done c =>
    obtain ⟨rfl, rfl⟩ := first
    exact rest
  | choose next => cases first
  | atomic site act next ih => exact ih s first

theorem focus (L : Lens σ τ) (label : ℓ → ℓ') {p : Prog τ ℓ α} {t : τ} (h : p.Leads (L.get s) t a) :
    (p.focus L label).Leads s (L.put t s) a := by
  induction p generalizing s with
  | done c =>
    obtain ⟨rfl, rfl⟩ := h
    exact ⟨L.put_get s, rfl⟩
  | choose next => cases h
  | atomic site act next ih =>
    have rest := @ih (L.get s) (L.put (act (L.get s)) s) (by rw [L.get_put]; exact h)
    rw [L.put_put] at rest
    exact rest

theorem run (h : p.Leads s s' a) (k : α → Prog σ ℓ β) (oracle : Nat → Nat) (n : Nat) :
    (p.bind k).solo oracle n s = (k a).solo oracle n s' := by
  induction p generalizing s with
  | done c =>
    obtain ⟨rfl, rfl⟩ := h
    rfl
  | choose next => cases h
  | atomic site act next ih => exact ih s h

theorem solo (h : p.Leads s s' a) (oracle : Nat → Nat) (n : Nat) : p.solo oracle n s = (s', a) := by
  have ran := h.run Prog.done oracle n
  rwa [bind_done] at ran

end Leads

end Evering.Interleave.Prog
