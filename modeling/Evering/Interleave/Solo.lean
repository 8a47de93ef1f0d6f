import Evering.Interleave.Machine

/-!
# Restricted runs and operations that run alone

Runs without crashes and runs given by a list of decisions. An operation that is started and then scheduled
alone has the effect of its program run from the current state to its end.
-/

namespace Evering.Interleave

open Function

variable {σ ℓ ω α β : Type}

namespace Prog

theorem bind_assoc {γ : Type} (x : Prog σ ℓ α) (f : α → Prog σ ℓ β) (g : β → Prog σ ℓ γ) :
    (x.bind f).bind g = x.bind fun a => (f a).bind g := by
  induction x with
  | done a => rfl
  | choose next ih => exact congrArg choose (funext ih)
  | atomic site act next ih => exact congrArg (atomic site act) (funext ih)

theorem ite_bind (c : Prop) [Decidable c] (x y : Prog σ ℓ α) (k : α → Prog σ ℓ β) :
    (if c then x else y).bind k = if c then x.bind k else y.bind k := by
  split <;> rfl

variable (oracle : Nat → Nat) (n : Nat) (s : σ)

@[simp] theorem solo_done (a : α) : (done a : Prog σ ℓ α).solo oracle n s = (s, a) := rfl

@[simp] theorem solo_action (site : ℓ) (f : σ → σ × α) (k : α → Prog σ ℓ β) :
    ((action site f).bind k).solo oracle n s = (k (f s).2).solo oracle n (f s).1 := rfl

@[simp] theorem solo_pick (k : Nat → Prog σ ℓ β) :
    ((pick : Prog σ ℓ Nat).bind k).solo oracle n s = (k (oracle n)).solo oracle (n + 1) s := rfl

@[simp] theorem solo_read (site : ℓ) (f : σ → α) (k : α → Prog σ ℓ β) :
    ((read site f).bind k).solo oracle n s = (k (f s)).solo oracle n s := rfl

@[simp] theorem solo_write_last (site : ℓ) (f : σ → σ) : (write site f).solo oracle n s = (f s, ()) := rfl

@[simp] theorem solo_write (site : ℓ) (f : σ → σ) (k : Unit → Prog σ ℓ β) :
    ((write site f).bind k).solo oracle n s = (k ()).solo oracle n (f s) := rfl

theorem solo_bind_pure {prog : Prog σ ℓ α} {oracle : Nat → Nat} {n : Nat} {s s' : σ} {a : α} {f : α → β}
    (ran : prog.solo oracle n s = (s', a)) : (prog.bind fun a => pure (f a)).solo oracle n s = (s', f a) := by
  induction prog generalizing n s with
  | done b =>
    obtain ⟨rfl, rfl⟩ := Prod.mk.inj ran
    rfl
  | choose next ih => exact ih _ ran
  | atomic site act next ih => exact ih _ ran

end Prog

/-- Steps other than crashes. -/
def Uncrashed (_ : Config σ ℓ ω) : Step ω → Prop
  | .crash _ => False
  | _ => True

instance (c : Config σ ℓ ω) (st : Step ω) : Decidable (Uncrashed c st) :=
  match st with
  | .spawn _ => .isTrue trivial
  | .run _ _ => .isTrue trivial
  | .crash _ => .isFalse id
  | .rejoin _ => .isTrue trivial

namespace Machine

/-- Effect of a list of decisions that are all allowed. -/
def execIf (M : Machine σ ℓ ω) (ok : Config σ ℓ ω → Step ω → Prop) [∀ c st, Decidable (ok c st)] :
    Config σ ℓ ω → List (Step ω) → Option (Config σ ℓ ω)
  | c, [] => some c
  | c, st :: rest => if ok c st then (M.exec c st).bind fun c' => execIf M ok c' rest else none

variable {M : Machine σ ℓ ω}
variable {c c' : Config σ ℓ ω} {steps : List (Step ω)} {op : ω}

theorem Run.restrict {ok ok' : Config σ ℓ ω → Step ω → Prop} {I : Config σ ℓ ω → Prop} (init : I c)
    (step : ∀ {c c' st}, I c → ok c st → M.exec c st = some c' → I c')
    (imp : ∀ c st, I c → ok c st → ok' c st) (run : M.Run ok c c') : M.Run ok' c c' ∧ I c' := by
  induction run with
  | refl => exact ⟨.refl, init⟩
  | tail _ allowed stepped ih =>
    exact ⟨.tail ih.1 (imp _ _ ih.2 allowed) stepped, step ih.2 allowed stepped⟩

variable {ok : Config σ ℓ ω → Step ω → Prop}

theorem Run.once {st : Step ω} (allowed : ok c st) (stepped : M.exec c st = some c') : M.Run ok c c' :=
  .tail .refl allowed stepped

theorem run_of_execIf [∀ c st, Decidable (ok c st)] (h : M.execIf ok c steps = some c') : M.Run ok c c' := by
  induction steps generalizing c with
  | nil =>
    simp only [execIf, Option.some.injEq] at h
    exact h ▸ .refl
  | cons st rest ih =>
    simp only [execIf, Option.ite_none_right_eq_some, Option.bind_eq_some_iff] at h
    obtain ⟨allowed, next, stepped, rest⟩ := h
    exact .trans (.once allowed stepped) (ih rest)

theorem exists_run [∀ c st, Decidable (ok c st)] {f : Config σ ℓ ω → β} {b : β}
    (h : (M.execIf ok c steps).map f = some b) : ∃ c', M.Run ok c c' ∧ f c' = b := by
  obtain ⟨c', executed, same⟩ := Option.map_eq_some_iff.mp h
  exact ⟨c', run_of_execIf executed, same⟩

theorem run_alone {t : Nat} (allowed : ∀ c prog n, c.threads t = some (op, prog) → ok c (.run t n)) (oracle : Nat → Nat)
    (prog : Prog σ ℓ Unit) {n : Nat} (ht : c.threads t = settle op prog) :
    ∃ c', M.Run ok c c' ∧ c'.shared = (prog.solo oracle n c.shared).1 ∧ c'.dead = c.dead ∧
      c'.count = c.count ∧ c'.threads t = none ∧ ∀ u, u ≠ t → c'.threads u = c.threads u := by
  induction prog generalizing c n with
  | done a => exact ⟨c, .refl, rfl, rfl, rfl, ht, fun _ _ => rfl⟩
  | choose next ih =>
    have stepped : M.exec c (.run t (oracle n)) = some { c with
        threads := update c.threads t (settle op (next (oracle n))) } := by
      rw [exec, ht]
      rfl
    obtain ⟨c', run, shared, dead, count, gone, others⟩ :=
      ih (oracle n) (n := n + 1) (c := { c with
        threads := update c.threads t (settle op (next (oracle n))) }) (update_self ..)
    refine ⟨c', .trans (.once (allowed _ _ _ ht) stepped) run, shared, dead, count, gone, fun u ne => ?_⟩
    exact (others u ne).trans (update_of_ne ne ..)
  | atomic site act next ih =>
    have stepped : M.exec c (.run t 0) = some { c with
        shared := act c.shared
        threads := update c.threads t (settle op (next c.shared)) } := by
      rw [exec, ht]
      rfl
    obtain ⟨c', run, shared, dead, count, gone, others⟩ :=
      ih c.shared (n := n) (c := { c with
        shared := act c.shared
        threads := update c.threads t (settle op (next c.shared)) }) (update_self ..)
    refine ⟨c', .trans (.once (allowed _ _ _ ht) stepped) run, shared, dead, count, gone, fun u ne => ?_⟩
    exact (others u ne).trans (update_of_ne ne ..)

theorem spawn_alone (spawns : ∀ c, ok c (.spawn op))
    (allowed : ∀ c t prog n, c.threads t = some (op, prog) → ok c (.run t n)) (oracle : Nat → Nat)
    (idle : ∀ t, c.threads t = none) (alive : c.dead (M.owner op) = false) (ready : M.ready c.shared c.dead [] op = true) :
    ∃ c', M.Run ok c c' ∧ c'.shared = ((M.code op).solo oracle 0 c.shared).1 ∧
      c'.dead = c.dead ∧ ∀ t, c'.threads t = none := by
  have running : c.running = [] := by
    simp [Config.running, idle]
  have stepped : M.exec c (.spawn op) = some { c with
      count := c.count + 1
      threads := update c.threads c.count (settle op (M.code op)) } := by
    rw [exec, running, alive, ready]
    rfl
  obtain ⟨c', run, shared, dead, -, gone, others⟩ :=
    run_alone (M := M) (fun c prog n => allowed c _ prog n) oracle (M.code op) (n := 0) (c := { c with
      count := c.count + 1
      threads := update c.threads c.count (settle op (M.code op)) }) (update_self ..)
  refine ⟨c', .trans (.once (spawns c) stepped) run, shared, dead, fun t => ?_⟩
  by_cases h : t = c.count
  · exact h ▸ gone
  · rw [others t h]
    exact (update_of_ne h ..).trans (idle t)

end Machine

end Evering.Interleave
