import Evering.Interleave.Protocol

/-!
# Results of operations

A machine whose operations enter their results in a list, each at the step that decides it, and what a protocol
entails of the entries: a result that was right when it was entered, and that no later step makes wrong, is right
at every later time. Two protocols for one machine are followed together.
-/

namespace Evering.Interleave

open Function

variable {σ ℓ ω V V' α ρ : Type}

/-- The last action of the program enters its result. -/
def Prog.report (log : α → ρ) : Prog σ ℓ α → Prog (σ × List ρ) ℓ Unit
  | .done _ => .done ()
  | .choose next => .choose fun n => (next n).report log
  | .atomic site act next => .atomic site
      (fun s => (act s.1, match next s.1 with | .done a => log a :: s.2 | _ => s.2))
      fun s => (next s.1).report log

namespace Protocol

/-! ### Two protocols -/

/-- The first parts of pairs of views. -/
def Views.left (views : Views ω (V × V')) : Views ω V := fun t => (views t).map fun x => (x.1, x.2.1)

def Views.right (views : Views ω (V × V')) : Views ω V' := fun t => (views t).map fun x => (x.1, x.2.2)

theorem left_some {views : Views ω (V × V')} {t : Nat} {op : ω} {v : V} {v' : V'} (view : views t = some (op, v, v')) :
    Views.left views t = some (op, v) := by
  simp [Views.left, view]

theorem left_update (views : Views ω (V × V')) (t : Nat) (op : ω) (v : V × V') :
    Views.left (update views t (some (op, v))) = update (Views.left views) t (some (op, v.1)) := Views.map_update ..

theorem right_update (views : Views ω (V × V')) (t : Nat) (op : ω) (v : V × V') :
    Views.right (update views t (some (op, v))) = update (Views.right views) t (some (op, v.2)) := Views.map_update ..

theorem left_retire (views : Views ω (V × V')) (t : Nat) :
    Views.left (update views t none) = update (Views.left views) t none := Views.map_update ..

theorem right_retire (views : Views ω (V × V')) (t : Nat) :
    Views.right (update views t none) = update (Views.right views) t none := Views.map_update ..

def both (P : Protocol σ ℓ ω V) (P' : Protocol σ ℓ ω V') : Protocol σ ℓ ω (V × V') where
  inv := fun s dead views => P.inv s dead (Views.left views) ∧ P'.inv s dead (Views.right views)
  idle := fun v => P.idle v.1 ∧ P'.idle v.2
  guar := fun s s' => P.guar s s' ∧ P'.guar s s'
  cond := fun op site s => P.cond op site s ∧ P'.cond op site s
  stop := fun s p => P.stop s p ∧ P'.stop s p

variable {P : Protocol σ ℓ ω V} {P' : Protocol σ ℓ ω V'} {op : ω} {prog : Prog σ ℓ α}
variable {v : V} {Q : α → V → Prop}

theorem Triple.both {v' : V'} {Q' : α → V' → Prop} (h : P.Triple op prog v Q)
    (h' : P'.Triple op prog v' Q') : (P.both P').Triple op prog (v, v') fun a w => Q a w.1 ∧ Q' a w.2 := by
  induction prog generalizing v v' with
  | done a => exact ⟨h, h'⟩
  | choose next ih => exact fun n => ih n (h n) (h' n)
  | atomic site act next ih =>
    intro s dead views t inv view cond
    have left := left_some view
    have right : Views.right views t = some (op, v') := by simp [Views.right, view]
    obtain ⟨w, inv₁, guar₁, rest₁⟩ := h s dead _ t inv.1 left cond.1
    obtain ⟨w', inv₂, guar₂, rest₂⟩ := h' s dead _ t inv.2 right cond.2
    refine ⟨(w, w'), ⟨?_, ?_⟩, ⟨guar₁, guar₂⟩, ih s rest₁ rest₂⟩
    · rwa [left_update]
    · rwa [right_update]

def under (P : Protocol σ ℓ ω V) (cond : ω → ℓ → σ → Prop) : Protocol σ ℓ ω V := { P with cond }

theorem Triple.under {cond : ω → ℓ → σ → Prop}
    (stronger : ∀ site s, cond op site s → P.cond op site s) (h : P.Triple op prog v Q) :
    (P.under cond).Triple op prog v Q := by
  induction prog generalizing v with
  | done a => exact h
  | choose next ih => exact fun n => ih n (h n)
  | atomic site act next ih =>
    intro s dead views t inv view met
    obtain ⟨w, inv', guar, rest⟩ := h s dead views t inv view (stronger site s met)
    exact ⟨w, inv', guar, ih s rest⟩

/-! ### Entries -/

/-- The protocol with entries that are right. -/
def reporting (P : Protocol σ ℓ ω V) (right : ρ → σ → Prop) : Protocol (σ × List ρ) ℓ ω V where
  inv := fun s dead views => P.inv s.1 dead views ∧ ∀ r ∈ s.2, right r s.1
  idle := P.idle
  guar := fun s s' => P.guar s.1 s'.1 ∧ ∀ r ∈ s.2, r ∈ s'.2
  cond := fun op site s => P.cond op site s.1
  stop := fun s p => P.stop s.1 p

theorem Triple.report {right : ρ → σ → Prop} {log : α → ρ} (stable : ∀ {r s s'}, P.guar s s' → right r s → right r s')
    (entails : ∀ {a v s dead views t}, Q a v → P.inv s dead views → views t = some (op, v) → right (log a) s)
    (h : P.Triple op prog v Q) : (P.reporting right).Triple op (prog.report log) v fun _ w => ∃ a, Q a w := by
  induction prog generalizing v with
  | done a => exact ⟨a, h⟩
  | choose next ih => exact fun n => ih n (h n)
  | atomic site act next ih =>
    intro s dead views t inv view cond
    obtain ⟨w, inv', guar, rest⟩ := h s.1 dead views t inv.1 view cond
    have old : ∀ r ∈ s.2, right r (act s.1) := fun r mem => stable guar (inv.2 r mem)
    have continues := ih s.1 rest
    rcases ends : next s.1 with a | next' | ⟨site', act', next'⟩
    · rw [ends] at rest
      refine ⟨w, ⟨inv', ?_⟩, ⟨guar, ?_⟩, continues⟩
      · simp only [ends, List.forall_mem_cons]
        exact ⟨entails rest inv' (update_self ..), old⟩
      · simp only [ends]
        exact fun r mem => List.mem_cons_of_mem _ mem
    · exact ⟨w, ⟨inv', by simpa only [ends] using old⟩, ⟨guar, by simp only [ends]; exact fun _ => id⟩, continues⟩
    · exact ⟨w, ⟨inv', by simpa only [ends] using old⟩, ⟨guar, by simp only [ends]; exact fun _ => id⟩, continues⟩

end Protocol

end Evering.Interleave
