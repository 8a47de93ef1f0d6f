import Evering.Interleave.Machine

/-!
# Programs with notes

To say when an operation of a machine does something, the state gets notes that the original does not have. A program with
notes shows the original if it is the same tree of actions on the part of the state that the original has; the results may
carry more than the original's. Every run of a machine whose operations show those of another is a run of the other.
-/

namespace Evering.Interleave

open Option Function

variable {σ τ ℓ ω α β γ δ : Type}

/-- `p` does on `view` what `q` does; the results are related. -/
def Prog.Shows (view : τ → σ) (rel : α → β → Prop) : Prog τ ℓ α → Prog σ ℓ β → Prop
  | .done a, .done b => rel a b
  | .choose next, .choose next' => ∀ n, Prog.Shows view rel (next n) (next' n)
  | .atomic site act next, .atomic site' act' next' => site = site' ∧
      ∀ x, view (act x) = act' (view x) ∧ Prog.Shows view rel (next x) (next' (view x))
  | _, _ => False

namespace Prog.Shows

variable {view : τ → σ} {rel : α → β → Prop} {rel' : γ → δ → Prop}

theorem bind {p : Prog τ ℓ α} {q : Prog σ ℓ β} {k : α → Prog τ ℓ γ} {k' : β → Prog σ ℓ δ} (first : p.Shows view rel q)
    (rest : ∀ a b, rel a b → (k a).Shows view rel' (k' b)) : (p.bind k).Shows view rel' (q.bind k') := by
  induction p generalizing q with
  | done a =>
    cases q with
    | done b => exact rest a b first
    | choose next' => exact first.elim
    | atomic site' act' next' => exact first.elim
  | choose next ih =>
    cases q with
    | done b => exact first.elim
    | choose next' => exact fun n => ih n (first n)
    | atomic site' act' next' => exact first.elim
  | atomic site act next ih =>
    cases q with
    | done b => exact first.elim
    | choose next' => exact first.elim
    | atomic site' act' next' => exact ⟨first.1, fun x => ⟨(first.2 x).1, ih x (first.2 x).2⟩⟩

end Prog.Shows

/-! ### Machines -/

/-- The machines have the same operations, and those of `M` show those of `N`. -/
structure Machine.Shows (view : τ → σ) (M : Machine τ ℓ ω) (N : Machine σ ℓ ω) : Prop where
  owner : ∀ op, M.owner op = N.owner op
  code : ∀ op, (M.code op).Shows view Eq (N.code op)
  crash : ∀ p x, view (M.onCrash p x) = N.onCrash p (view x)
  ready : ∀ x dead ops op, M.ready x dead ops op = true → N.ready (view x) dead ops op = true
  readmits : ∀ x ops p, M.readmits x ops p = true → N.readmits (view x) ops p = true

/-- The same thread, with and without notes -/
def Thread.Shows (view : τ → σ) : Option (ω × Prog τ ℓ Unit) → Option (ω × Prog σ ℓ Unit) → Prop
  | none, none => True
  | some (op, p), some (op', q) => op = op' ∧ p.Shows view Eq q
  | _, _ => False

structure Config.Shows (view : τ → σ) (c : Config τ ℓ ω) (d : Config σ ℓ ω) : Prop where
  shared : d.shared = view c.shared
  dead : d.dead = c.dead
  count : d.count = c.count
  threads : ∀ t, Thread.Shows view (c.threads t) (d.threads t)

namespace Config.Shows

variable {view : τ → σ} {c : Config τ ℓ ω} {d : Config σ ℓ ω}

theorem start (x : τ) : (Config.start x : Config τ ℓ ω).Shows view (Config.start (view x)) :=
  ⟨rfl, rfl, rfl, fun _ => trivial⟩

theorem running (alike : c.Shows view d) : d.running = c.running := by
  unfold Config.running
  rw [alike.count]
  refine congrArg (List.filterMap · _) (funext fun t => ?_)
  have same := alike.threads t
  rcases hc : c.threads t with _ | ⟨op, p⟩ <;> rcases hd : d.threads t with _ | ⟨op', q⟩ <;>
    rw [hc, hd] at same <;> simp_all [Thread.Shows]

theorem settle {op : ω} {p : Prog τ ℓ Unit} {q : Prog σ ℓ Unit} (same : p.Shows view Eq q) :
    Thread.Shows view (Interleave.settle op p) (Interleave.settle op q) := by
  cases p <;> cases q <;> first | exact same.elim | exact trivial | exact ⟨rfl, same⟩

theorem update (alike : c.Shows view d) (t : Nat) {x : Option (ω × Prog τ ℓ Unit)} {y : Option (ω × Prog σ ℓ Unit)}
    (same : Thread.Shows view x y) (u : Nat) :
    Thread.Shows view (Function.update c.threads t x u) (Function.update d.threads t y u) := by
  by_cases here : u = t
  · subst here
    rwa [update_self, update_self]
  · rw [update_of_ne here, update_of_ne here]
    exact alike.threads u

variable {M : Machine τ ℓ ω} {N : Machine σ ℓ ω} {c' : Config τ ℓ ω}

theorem step (machines : M.Shows view N) (alike : c.Shows view d) {step : Step ω} (stepped : M.exec c step = some c') :
    ∃ d', N.exec d step = some d' ∧ c'.Shows view d' := by
  cases step with
  | spawn op =>
    simp only [Machine.exec, ite_none_right_eq_some, Bool.and_eq_true, Bool.not_eq_true', Option.some.injEq] at stepped
    obtain ⟨⟨alive, ready⟩, rfl⟩ := stepped
    have alive' : d.dead (N.owner op) = false := by rwa [alike.dead, ← machines.owner]
    have ready' : N.ready d.shared d.dead d.running op = true := by
      rw [alike.shared, alike.dead, alike.running]
      exact machines.ready _ _ _ _ ready
    have enabled : (!d.dead (N.owner op) && N.ready d.shared d.dead d.running op) = true := by rw [alive', ready']; rfl
    refine ⟨_, if_pos enabled, alike.shared, alike.dead, congrArg (· + 1) alike.count, ?_⟩
    rw [alike.count]
    exact alike.update c.count (settle (machines.code op))
  | run t choice =>
    have same := alike.threads t
    simp only [Machine.exec] at stepped ⊢
    rcases hc : c.threads t with _ | ⟨op, p⟩ <;> rcases hd : d.threads t with _ | ⟨op', q⟩ <;> rw [hc, hd] at same
    · simp [hc] at stepped
    · exact same.elim
    · exact same.elim
    obtain ⟨rfl, progs⟩ := same
    cases p <;> cases q <;> first | exact progs.elim | skip
    case done.done => simp [hc] at stepped
    case choose.choose next next' =>
      simp only [hc, Option.some.injEq] at stepped
      subst stepped
      exact ⟨_, rfl, alike.shared, alike.dead, alike.count, alike.update t (settle (progs choice))⟩
    case atomic.atomic site act next site' act' next' =>
      simp only [hc, Option.some.injEq] at stepped
      subst stepped
      refine ⟨_, rfl, ?_, alike.dead, alike.count, alike.update t (settle ?_)⟩
      · rw [alike.shared]
        exact (progs.2 _).1.symm
      · rw [alike.shared]
        exact (progs.2 _).2
  | crash p =>
    simp only [Machine.exec, Option.some.injEq] at stepped
    subst stepped
    refine ⟨_, rfl, ?_, ?_, alike.count, fun t => ?_⟩
    · rw [alike.shared]
      exact (machines.crash p _).symm
    · rw [alike.dead]
    · have same := alike.threads t
      show Thread.Shows view ((c.threads t).filter _) ((d.threads t).filter _)
      rcases hc : c.threads t with _ | ⟨op, q⟩ <;> rcases hd : d.threads t with _ | ⟨op', q'⟩ <;> rw [hc, hd] at same
      · trivial
      · exact same.elim
      · exact same.elim
      obtain ⟨rfl, progs⟩ := same
      simp only [filter_some, machines.owner]
      split
      · exact ⟨rfl, progs⟩
      · trivial
  | rejoin p =>
    simp only [Machine.exec, ite_none_right_eq_some, Bool.and_eq_true, Option.some.injEq] at stepped
    obtain ⟨⟨gone, free⟩, rfl⟩ := stepped
    have gone' : d.dead p = true := by rwa [alike.dead]
    have free' : N.readmits d.shared d.running p = true := by
      rw [alike.shared, alike.running]
      exact machines.readmits _ _ _ free
    have enabled : (d.dead p && N.readmits d.shared d.running p) = true := by rw [gone', free']; rfl
    refine ⟨_, if_pos enabled, alike.shared, ?_, alike.count, alike.threads⟩
    rw [alike.dead]

theorem run (machines : M.Shows view N) (alike : c.Shows view d)
    {ok : Config τ ℓ ω → Step ω → Prop} (run : M.Run ok c c') : ∃ d', N.Reaches d d' ∧ c'.Shows view d' := by
  induction run with
  | refl => exact ⟨d, .refl, alike⟩
  | tail _ _ stepped ih =>
    obtain ⟨d', reached, same⟩ := ih
    obtain ⟨d'', next, same'⟩ := same.step machines stepped
    exact ⟨d'', .tail reached trivial next, same'⟩

end Config.Shows

end Evering.Interleave
