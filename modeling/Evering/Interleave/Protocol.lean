import Evering.Interleave.Machine

/-!
# Invariants of interleaved runs

A protocol gives every running thread a *view*: what the thread may rely on at its current point. The
invariant speaks of the shared state, the dead participants and all views together. `Triple op prog v Q`
says that a thread with view `v` can execute `prog` to its end: each atomic action, taken from any state
that satisfies the invariant with this view in it, restores the invariant with a new view. Since the
other threads enter only through the invariant, one triple per operation is enough: `Sound.run` lifts the
triples to all runs of the machine.
-/

namespace Evering.Interleave

open Function Option

variable {σ ℓ ω V α β : Type}

/-- Operation and view of every running thread. -/
abbrev Views (ω V : Type) := Nat → Option (ω × V)

/-- Every running operation is in the list. -/
def Views.Within (views : Views ω V) (ops : List ω) : Prop :=
  ∀ t op v, views t = some (op, v) → op ∈ ops

variable {views : Views ω V}
variable {t u p : Nat} {op op' : ω} {v w : V}

/-- A thread of the updated views is the one that was updated, or one that was there before. -/
theorem Views.update_cases (h : update views t (some (op, v)) u = some (op', w)) :
    (u = t ∧ op' = op ∧ w = v) ∨ (u ≠ t ∧ views u = some (op', w)) := by
  by_cases same : u = t
  · subst same
    rw [update_self, Option.some.injEq, Prod.mk.injEq] at h
    exact .inl ⟨rfl, h.1.symm, h.2.symm⟩
  · rw [update_of_ne same] at h
    exact .inr ⟨same, h⟩

@[elab_as_elim]
theorem Views.put {motive : ω → V → Prop} (mine : motive op v)
    (others : ∀ {u op' w}, u ≠ t → views u = some (op', w) → motive op' w)
    (h : update views t (some (op, v)) u = some (op', w)) : motive op' w := by
  rcases update_cases h with ⟨-, rfl, rfl⟩ | ⟨ne, old⟩
  · exact mine
  · exact others ne old

@[elab_as_elim]
theorem Views.put_pair {motive : Nat → Nat → ω → V → ω → V → Prop} {u' : Nat} {op₁ op₂ : ω} {w' : V}
    (same : motive t t op v op v) (left : ∀ {u op' w}, u ≠ t → views u = some (op', w) → motive t u op v op' w)
    (right : ∀ {u op' w}, u ≠ t → views u = some (op', w) → motive u t op' w op v)
    (old : ∀ {u u' op₁ op₂ w w'}, views u = some (op₁, w) → views u' = some (op₂, w') → motive u u' op₁ w op₂ w')
    (h : update views t (some (op, v)) u = some (op₁, w)) (h' : update views t (some (op, v)) u' = some (op₂, w')) :
    motive u u' op₁ w op₂ w' := by
  rcases update_cases h with ⟨rfl, rfl, rfl⟩ | ⟨ne, was⟩ <;> rcases update_cases h' with ⟨rfl, rfl, rfl⟩ | ⟨ne', was'⟩
  · exact same
  · exact left ne' was'
  · exact right ne was
  · exact old was was'

variable {v : V}

theorem Views.retire_some (h : update views t none u = some (op, v)) : u ≠ t ∧ views u = some (op, v) := by
  by_cases same : u = t
  · subst same
    rw [update_self] at h
    cases h
  · exact ⟨same, by rwa [update_of_ne same] at h⟩

theorem Views.crash_some {owner : ω → Nat}
    (h : ((views u).filter fun th => owner th.1 != p) = some (op, v)) : views u = some (op, v) ∧ owner op ≠ p := by
  obtain ⟨old, other⟩ := filter_eq_some_iff.mp h
  exact ⟨old, bne_iff_ne.mp other⟩

/-- Views of another kind, thread by thread. -/
theorem Views.map_update {ω' V' : Type} (f : ω × V → ω' × V') (views : Views ω V) (t : Nat) (x : Option (ω × V)) :
    (fun u => (update views t x u).map f) = update (fun u => (views u).map f) t (x.map f) := by
  funext u
  by_cases here : u = t
  · rw [here, update_self, update_self]
  · rw [update_of_ne here, update_of_ne here]

theorem mark_kept {dead : Nat → Bool} {q : Nat} {b : Bool} (is : dead q = b) : update dead p b q = b := by
  by_cases here : q = p
  · rw [here, update_self]
  · rwa [update_of_ne here]

/-- Run steps restricted at code sites by `cond` and crashes restricted by `stop`. -/
def Allowed (cond : ω → ℓ → σ → Prop) (stop : σ → Nat → Prop) (c : Config σ ℓ ω) : Step ω → Prop
  | .run t _ => ∀ op site act next, c.threads t = some (op, .atomic site act next) →
      cond op site c.shared
  | .crash p => stop c.shared p
  | _ => True

instance {cond : ω → ℓ → σ → Prop} {stop : σ → Nat → Prop} [∀ op site s, Decidable (cond op site s)]
    [∀ s p, Decidable (stop s p)] (c : Config σ ℓ ω) (st : Step ω) : Decidable (Allowed cond stop c st) :=
  match st with
  | .spawn _ => .isTrue trivial
  | .rejoin _ => .isTrue trivial
  | .crash p => inferInstanceAs (Decidable (stop c.shared p))
  | .run t _ =>
    match ht : c.threads t with
    | none => .isTrue fun _ _ _ _ h => by rw [ht] at h; cases h
    | some (_, .done _) => .isTrue fun _ _ _ _ h => by rw [ht] at h; cases h
    | some (_, .choose _) => .isTrue fun _ _ _ _ h => by rw [ht] at h; cases h
    | some (op, .atomic site _ _) => decidable_of_iff (cond op site c.shared)
        ⟨fun h _ _ _ _ h' => by rw [ht] at h'; cases h'; exact h, fun h => h op site _ _ ht⟩

structure Protocol (σ ℓ ω V : Type) where
  inv : σ → (Nat → Bool) → Views ω V → Prop
  /-- views with which a thread may end -/
  idle : V → Prop
  /-- what every step guarantees of the state before and after it -/
  guar : σ → σ → Prop := fun _ _ => True
  /-- condition under which an action at a site is considered -/
  cond : ω → ℓ → σ → Prop := fun _ _ _ => True
  /-- condition under which a crash is considered -/
  stop : σ → Nat → Prop := fun _ _ => True

namespace Protocol

variable (P : Protocol σ ℓ ω V)

def Triple (op : ω) : Prog σ ℓ α → V → (α → V → Prop) → Prop
  | .done a, v, Q => Q a v
  | .choose next, v, Q => ∀ n, Triple op (next n) v Q
  | .atomic site act next, v, Q => ∀ s dead views t, P.inv s dead views → views t = some (op, v) →
      P.cond op site s →
      ∃ v', P.inv (act s) dead (update views t (some (op, v'))) ∧ P.guar s (act s) ∧
        Triple op (next s) v' Q

variable {P} {op : ω}

variable {prog : Prog σ ℓ α}

theorem Triple.mono {Q R : α → V → Prop}
    (h : P.Triple op prog v Q) (weaker : ∀ a v, Q a v → R a v) : P.Triple op prog v R := by
  induction prog generalizing v with
  | done a => exact weaker a v h
  | choose next ih => exact fun n => ih n (h n)
  | atomic site act next ih =>
    intro s dead views t inv view cond
    obtain ⟨v', inv', guar, rest⟩ := h s dead views t inv view cond
    exact ⟨v', inv', guar, ih s rest⟩

variable {Q : β → V → Prop}

theorem Triple.bind {k : α → Prog σ ℓ β}
    (h : P.Triple op prog v fun a v' => P.Triple op (k a) v' Q) : P.Triple op (prog.bind k) v Q := by
  induction prog generalizing v with
  | done a => exact h
  | choose next ih => exact fun n => ih n (h n)
  | atomic site act next ih =>
    intro s dead views t inv view cond
    obtain ⟨v', inv', guar, rest⟩ := h s dead views t inv view cond
    exact ⟨v', inv', guar, ih s rest⟩

theorem Triple.seq {k : α → Prog σ ℓ β} {R : α → V → Prop} (first : P.Triple op prog v R)
    (rest : ∀ a v', R a v' → P.Triple op (k a) v' Q) : P.Triple op (prog.bind k) v Q :=
  (first.mono rest).bind

theorem Triple.next {k : α → Prog σ ℓ β} {f : α → V}
    (first : P.Triple op prog v fun a v' => v' = f a) (rest : ∀ a, P.Triple op (k a) (f a) Q) : P.Triple op (prog.bind k) v Q :=
  first.seq fun a _ same => same ▸ rest a

theorem Triple.pick {k : Nat → Prog σ ℓ β} (h : ∀ n, P.Triple op (k n) v Q) : P.Triple op (Prog.pick.bind k) v Q := h

variable {site : ℓ} {t : Nat} {f : σ → α} {prog : Prog σ ℓ Unit} {c c' : Config σ ℓ ω}

theorem Triple.action {f : σ → σ × α} {Q : α → V → Prop}
    (h : ∀ s dead views t, P.inv s dead views → views t = some (op, v) → P.cond op site s →
      ∃ v', P.inv (f s).1 dead (update views t (some (op, v'))) ∧ P.guar s (f s).1 ∧ Q (f s).2 v') :
    P.Triple op (Prog.action site f) v Q := h

theorem Triple.write {f : σ → σ} {Q : Unit → V → Prop}
    (h : ∀ s dead views t, P.inv s dead views → views t = some (op, v) → P.cond op site s →
      ∃ v', P.inv (f s) dead (update views t (some (op, v'))) ∧ P.guar s (f s) ∧ Q () v') :
    P.Triple op (Prog.write site f) v Q := h

theorem update_same {x : Option (ω × V)} (h : views t = x) : update views t x = views := by
  rw [← h, update_eq_self]

theorem Triple.read {Q : α → V → Prop} (refl : ∀ s, P.guar s s)
    (h : ∀ s dead views t, P.inv s dead views → views t = some (op, v) → P.cond op site s →
      ∃ v', P.inv s dead (update views t (some (op, v'))) ∧ Q (f s) v') : P.Triple op (Prog.read site f) v Q := by
  intro s dead views t inv view cond
  obtain ⟨v', inv', rest⟩ := h s dead views t inv view cond
  exact ⟨v', inv', refl s, rest⟩

theorem Triple.peek {Q : α → V → Prop} (refl : ∀ s, P.guar s s) (h : ∀ a, Q a v) : P.Triple op (Prog.read site f) v Q :=
  Triple.read refl fun s _ _ _ inv view _ => ⟨v, by rwa [update_same view], h (f s)⟩

theorem Triple.exchange {test : σ → Prop} [DecidablePred test] {f : σ → σ × α} {no : σ → α} {Q : α → V → Prop}
    (refl : ∀ s, P.guar s s) (fails : ∀ s, ¬test s → Q (no s) v)
    (h : ∀ s dead views t, P.inv s dead views → views t = some (op, v) → P.cond op site s → test s →
      ∃ v', P.inv (f s).1 dead (update views t (some (op, v'))) ∧ P.guar s (f s).1 ∧ Q (f s).2 v') :
    P.Triple op (Prog.action site fun s => if test s then f s else (s, no s)) v Q := by
  refine .action fun s dead views t inv view cond => ?_
  by_cases passes : test s
  · simp only [if_pos passes]
    exact h s dead views t inv view cond passes
  · simp only [if_neg passes]
    exact ⟨v, by rwa [update_same view], refl s, fails s passes⟩

/-! ### From triples to runs -/

variable (P) in
/-- A machine whose operations follow the protocol, started in `s₀`. -/
structure Sound (M : Machine σ ℓ ω) (s₀ : σ) : Prop where
  init : P.inv s₀ (fun _ => false) fun _ => none
  spawn : ∀ {s dead views t op ops}, P.inv s dead views → views t = none →
    dead (M.owner op) = false → views.Within ops → M.ready s dead ops op = true →
    ∃ v, P.inv s dead (update views t (some (op, v))) ∧
      P.Triple op (M.code op) v fun _ v' => P.idle v'
  retire : ∀ {s dead views t op v}, P.inv s dead views → views t = some (op, v) → P.idle v →
    P.inv s dead (update views t none)
  crash : ∀ {s dead views p}, P.inv s dead views → P.stop s p →
    P.inv (M.onCrash p s) (update dead p true)
        (fun t => (views t).filter fun th => M.owner th.1 != p) ∧
      P.guar s (M.onCrash p s)
  rejoin : ∀ {s dead views p ops}, P.inv s dead views → dead p = true → views.Within ops →
    M.readmits s ops p = true → P.inv s (update dead p false) views
  refl : ∀ s, P.guar s s

variable (P) in
/-- The thread table follows the views. -/
def Follows (threads : Nat → Option (ω × Prog σ ℓ Unit)) (views : Views ω V) : Prop :=
  ∀ t, match threads t with
    | none => views t = none
    | some (op, prog) => ∃ v, views t = some (op, v) ∧ P.Triple op prog v fun _ v' => P.idle v'

variable (P) in
/-- The invariant holds with views that the thread table follows. -/
def Holds (c : Config σ ℓ ω) : Prop :=
  ∃ views, P.inv c.shared c.dead views ∧ P.Follows c.threads views ∧
    ∀ t, c.count ≤ t → c.threads t = none

variable {M : Machine σ ℓ ω} {s₀ : σ} {threads : Nat → Option (ω × Prog σ ℓ Unit)}
  {views : Views ω V}

theorem Follows.view_none (h : P.Follows threads views) (ht : threads t = none) : views t = none := by
  have ht' := h t
  rwa [ht] at ht'

theorem Follows.view_some (h : P.Follows threads views) (ht : threads t = some (op, prog)) :
    ∃ v, views t = some (op, v) ∧ P.Triple op prog v fun _ v' => P.idle v' := by
  have ht' := h t
  rwa [ht] at ht'

theorem Follows.within (h : P.Follows c.threads views)
    (fresh : ∀ t, c.count ≤ t → c.threads t = none) : views.Within c.running := by
  intro t op v view
  rcases ht : c.threads t with _ | ⟨op', prog⟩
  · rw [h.view_none ht] at view
    cases view
  · obtain ⟨v', view', -⟩ := h.view_some ht
    rw [view, Option.some.injEq, Prod.mk.injEq] at view'
    have started : t < c.count := by
      by_contra late
      rw [fresh t (by omega)] at ht
      cases ht
    refine List.mem_filterMap.mpr ⟨t, List.mem_range.mpr started, ?_⟩
    rw [ht, view'.1]
    rfl

theorem Follows.update_none (h : P.Follows threads views) : P.Follows (update threads t none) (update views t none) := by
  intro u
  by_cases hu : u = t
  · subst hu
    simp only [update_self]
  · rw [update_of_ne hu, update_of_ne hu]
    exact h u

theorem Follows.update_some (h : P.Follows threads views) (triple : P.Triple op prog v fun _ v' => P.idle v') :
    P.Follows (update threads t (some (op, prog))) (update views t (some (op, v))) := by
  intro u
  by_cases hu : u = t
  · subst hu
    simp only [update_self]
    exact ⟨v, rfl, triple⟩
  · rw [update_of_ne hu, update_of_ne hu]
    exact h u

theorem Follows.filter (h : P.Follows threads views) (keep : ω → Bool) :
    P.Follows (fun t => (threads t).filter fun th => keep th.1) (fun t => (views t).filter fun th => keep th.1) := by
  intro t
  rcases ht : threads t with _ | ⟨op, prog⟩
  · simp [ht, h.view_none ht]
  · obtain ⟨v, view, triple⟩ := h.view_some ht
    by_cases kept : keep op = true
    · simp only [ht, view, filter_some, kept, if_true]
      exact ⟨v, rfl, triple⟩
    · simp [ht, view, filter_some, kept]

/-- A thread that reaches `prog` with view `v` is entered in the table, or leaves it at the end. -/
theorem Sound.enter (snd : P.Sound M s₀) {s : σ} {dead : Nat → Bool} (follows : P.Follows threads views)
    (inv : P.inv s dead (update views t (some (op, v)))) (triple : P.Triple op prog v fun _ v' => P.idle v') :
    ∃ views', P.inv s dead views' ∧ P.Follows (update threads t (settle op prog)) views' := by
  cases prog with
  | done a =>
    refine ⟨_, ?_, follows.update_none⟩
    have retired := snd.retire inv (update_self ..) triple
    rwa [update_idem] at retired
  | choose next => exact ⟨_, inv, follows.update_some triple⟩
  | atomic site act next => exact ⟨_, inv, follows.update_some triple⟩

theorem fresh_update {n m : Nat} {x : Option (ω × Prog σ ℓ Unit)}
    (fresh : ∀ u, n ≤ u → threads u = none) (le : n ≤ m) (used : t < m) : ∀ u, m ≤ u → update threads t x u = none := by
  intro u hu
  rw [update_of_ne (by omega)]
  exact fresh u (by omega)

/-- **Step lemma.** Every allowed step keeps the invariant and gives the guarantee. -/
theorem Sound.step (snd : P.Sound M s₀) {step : Step ω} (holds : P.Holds c)
    (allowed : Allowed P.cond P.stop c step) (stepped : M.exec c step = some c') :
    P.Holds c' ∧ P.guar c.shared c'.shared := by
  obtain ⟨views, inv, follows, fresh⟩ := holds
  have within := follows.within fresh
  cases step with
  | spawn op =>
    simp only [Machine.exec, ite_none_right_eq_some, Bool.and_eq_true, Bool.not_eq_true', Option.some.injEq] at stepped
    obtain ⟨⟨alive, ready⟩, rfl⟩ := stepped
    have free := follows.view_none (fresh c.count (Nat.le_refl _))
    obtain ⟨v, inv', triple⟩ := snd.spawn inv free alive within ready
    obtain ⟨views', inv'', follows'⟩ := snd.enter follows inv' triple
    exact ⟨⟨views', inv'', follows', fresh_update fresh (by simp) (by simp)⟩, snd.refl _⟩
  | run t choice =>
    simp only [Machine.exec] at stepped
    rcases ht : c.threads t with _ | ⟨op, prog⟩
    · rw [ht] at stepped
      exact absurd stepped (by simp)
    have used : t < c.count := by
      by_contra late
      rw [fresh t (by omega)] at ht
      cases ht
    obtain ⟨v, view, triple⟩ := follows.view_some ht
    rw [ht] at stepped
    cases prog with
    | done a => exact absurd stepped (by simp)
    | choose next =>
      simp only [Option.some.injEq] at stepped
      subst stepped
      have same : P.inv c.shared c.dead (update views t (some (op, v))) := by
        rwa [update_same view]
      obtain ⟨views', inv', follows'⟩ := snd.enter follows same (triple choice)
      exact ⟨⟨views', inv', follows', fresh_update fresh (Nat.le_refl _) used⟩, snd.refl _⟩
    | atomic site act next =>
      simp only [Option.some.injEq] at stepped
      subst stepped
      obtain ⟨v', inv', guar, rest⟩ :=
        triple c.shared c.dead views t inv view (allowed op site act next ht)
      obtain ⟨views', inv'', follows'⟩ := snd.enter follows inv' rest
      exact ⟨⟨views', inv'', follows', fresh_update fresh (Nat.le_refl _) used⟩, guar⟩
  | crash p =>
    simp only [Machine.exec, Option.some.injEq] at stepped
    subst stepped
    obtain ⟨inv', guar⟩ := snd.crash inv allowed
    refine ⟨⟨_, inv', follows.filter fun op => M.owner op != p, fun t ht => ?_⟩, guar⟩
    simp [fresh t ht]
  | rejoin p =>
    simp only [Machine.exec, ite_none_right_eq_some, Bool.and_eq_true, Option.some.injEq] at stepped
    obtain ⟨⟨dead, readmits⟩, rfl⟩ := stepped
    exact ⟨⟨views, snd.rejoin inv dead within readmits, follows, fresh⟩, snd.refl _⟩

theorem Sound.start (snd : P.Sound M s₀) : P.Holds (.start s₀) :=
  ⟨fun _ => none, snd.init, fun _ => rfl, fun _ _ => rfl⟩

/-- **Run lemma.** The invariant holds in every configuration that an allowed run reaches. -/
theorem Sound.run (snd : P.Sound M s₀) (holds : P.Holds c) (run : M.Run (Allowed P.cond P.stop) c c') : P.Holds c' := by
  induction run with
  | refl => exact holds
  | tail _ allowed stepped ih => exact (snd.step ih allowed stepped).1

theorem Sound.run_guar (snd : P.Sound M s₀) (trans : ∀ a b d, P.guar a b → P.guar b d → P.guar a d)
    (holds : P.Holds c) (run : M.Run (Allowed P.cond P.stop) c c') : P.guar c.shared c'.shared := by
  induction run with
  | refl => exact snd.refl _
  | tail before allowed stepped ih =>
    exact trans _ _ _ ih (snd.step (snd.run holds before) allowed stepped).2

end Protocol

end Evering.Interleave
