import Evering.Interleave.Notes
import Evering.Interleave.Solo

/-!
# Programs on a part of the state, and what they do alone

A part of a state is given by a lens. A program for the part becomes a program for the whole state that leaves the rest
alone. `Post oracle prog s Q` says that the program, run alone from `s` with the choices of `oracle`, ends with `Q`, at
whatever choice it begins; so programs are put together without counting choices. An oracle that denies no more than
`rounds` choices in a row lets every loop of that many tries end.
-/

namespace Evering.Interleave

variable {σ τ ℓ ℓ' α β : Type}

/-! ### Parts of a state -/

structure Lens (σ τ : Type) where
  get : σ → τ
  put : τ → σ → σ
  get_put : ∀ t s, get (put t s) = t
  put_get : ∀ s, put (get s) s = s
  put_put : ∀ t t' s, put t (put t' s) = put t s

/-- The program on its part of the state. -/
def Prog.focus (L : Lens σ τ) (label : ℓ → ℓ') : Prog τ ℓ α → Prog σ ℓ' α
  | .done a => .done a
  | .choose next => .choose fun n => (next n).focus L label
  | .atomic site act next => .atomic (label site) (fun s => L.put (act (L.get s)) s)
      fun s => (next (L.get s)).focus L label

namespace Prog

theorem bind_done (prog : Prog σ ℓ α) : prog.bind .done = prog := by
  induction prog with
  | done a => rfl
  | choose next ih => exact congrArg choose (funext ih)
  | atomic site act next ih => exact congrArg (atomic site act) (funext ih)

theorem focus_bind (L : Lens σ τ) (label : ℓ → ℓ') (prog : Prog τ ℓ α) (k : α → Prog τ ℓ β) :
    (prog.bind k).focus L label = (prog.focus L label).bind fun a => (k a).focus L label := by
  induction prog with
  | done a => rfl
  | choose next ih => exact congrArg choose (funext ih)
  | atomic site act next ih => exact congrArg (atomic _ _) (funext fun s => ih (L.get s))

theorem solo_focus (L : Lens σ τ) (label : ℓ → ℓ') (prog : Prog τ ℓ α) (oracle : Nat → Nat) (n : Nat) (s : σ) :
    (prog.focus L label).solo oracle n s = (L.put (prog.solo oracle n (L.get s)).1 s, (prog.solo oracle n (L.get s)).2) := by
  induction prog generalizing n s with
  | done a => exact Prod.ext (L.put_get s).symm rfl
  | choose next ih => exact ih _ _ _
  | atomic site act next ih =>
    refine (ih (L.get s) n (L.put (act (L.get s)) s)).trans ?_
    rw [L.get_put, L.put_put]
    rfl

theorem solo_observe {γ : Type} (label : ℓ → ℓ') (see : σ → σ → γ → γ) (prog : Prog σ ℓ α) (oracle : Nat → Nat) (n : Nat)
    (x : σ × γ) : ((prog.observe label see).solo oracle n x).1.1 = (prog.solo oracle n x.1).1 ∧
      ((prog.observe label see).solo oracle n x).2 = (prog.solo oracle n x.1).2 := by
  induction prog generalizing n x with
  | done a => exact ⟨rfl, rfl⟩
  | choose next ih => exact ih _ _ _
  | atomic site act next ih => exact ih _ _ _

/-! ### What a program leaves alone -/

/-- No action of the program changes `get`. -/
def Keeps {γ : Type} (get : σ → γ) : Prog σ ℓ α → Prop
  | .done _ => True
  | .choose next => ∀ n, (next n).Keeps get
  | .atomic _ act next => ∀ s, get (act s) = get s ∧ (next s).Keeps get

namespace Keeps

variable {γ : Type} {get : σ → γ}

theorem bind {prog : Prog σ ℓ α} {k : α → Prog σ ℓ β} (first : prog.Keeps get) (rest : ∀ a, (k a).Keeps get) :
    (prog.bind k).Keeps get := by
  induction prog with
  | done a => exact rest a
  | choose next ih => exact fun n => ih n (first n)
  | atomic site act next ih => exact fun s => ⟨(first s).1, ih s (first s).2⟩

theorem read {site : ℓ} {f : σ → α} : (Prog.read site f).Keeps get := fun _ => ⟨rfl, trivial⟩

theorem write {site : ℓ} {f : σ → σ} (h : ∀ s, get (f s) = get s) : (Prog.write site f).Keeps get :=
  fun s => ⟨h s, trivial⟩

theorem action {site : ℓ} {f : σ → σ × α} (h : ∀ s, get (f s).1 = get s) : (Prog.action site f).Keeps get :=
  fun s => ⟨h s, trivial⟩

theorem focus {L : Lens σ τ} {label : ℓ → ℓ'} {prog : Prog τ ℓ α} (apart : ∀ t s, get (L.put t s) = get s) :
    (prog.focus L label).Keeps get := by
  induction prog with
  | done a => trivial
  | choose next ih => exact fun n => ih n
  | atomic site act next ih => exact fun s => ⟨apart _ s, ih _⟩

end Keeps

/-! ### Programs that do the same from a state -/

/-- Run alone from `s`, the programs do the same, whatever comes after them. -/
structure Alike (oracle : Nat → Nat) (s : σ) (p q : Prog σ ℓ α) : Prop where
  run : ∀ {γ : Type} (n : Nat) (k : α → Prog σ ℓ γ), (p.bind k).solo oracle n s = (q.bind k).solo oracle n s

namespace Alike

variable {oracle : Nat → Nat} {s : σ} {p q r : Prog σ ℓ α} {a : α} {k k' : α → Prog σ ℓ β}

theorem refl : Alike oracle s p p := ⟨fun _ _ => rfl⟩

theorem symm (h : Alike oracle s p q) : Alike oracle s q p := ⟨fun n k => (h.run n k).symm⟩

theorem read {site : ℓ} {f : σ → α} : Alike oracle s (Prog.read site f) (.done (f s)) := ⟨fun _ _ => rfl⟩

theorem bind (first : Alike oracle s p q) : Alike oracle s (p.bind k) (q.bind k) := by
  refine ⟨fun n next => ?_⟩
  rw [bind_assoc, bind_assoc, first.run]

theorem after (left : Alike oracle s p (.done a)) (right : Alike oracle s q (.done a))
    (rest : Alike oracle s (k a) (k' a)) : Alike oracle s (p.bind k) (q.bind k') := by
  refine ⟨fun n next => ?_⟩
  rw [bind_assoc, bind_assoc, left.run, right.run]
  exact rest.run n next

theorem next (first : Alike oracle s p (.done a)) {x : Prog σ ℓ β} (rest : Alike oracle s (k a) x) :
    Alike oracle s (p.bind k) x := by
  refine ⟨fun n next => ?_⟩
  rw [bind_assoc, first.run]
  exact rest.run n next

theorem solo (h : Alike oracle s p q) (n : Nat) : p.solo oracle n s = q.solo oracle n s := by
  have same := h.run n Prog.done
  rwa [bind_done, bind_done] at same

end Alike

/-! ### Running alone -/

/-- Every run alone ends with `Q`. -/
def Post (oracle : Nat → Nat) (prog : Prog σ ℓ α) (s : σ) (Q : σ → α → Prop) : Prop :=
  ∀ n, Q (prog.solo oracle n s).1 (prog.solo oracle n s).2

variable {oracle : Nat → Nat} {prog : Prog σ ℓ α} {s : σ} {Q Q' : σ → α → Prop}

theorem solo_bind (prog : Prog σ ℓ α) (k : α → Prog σ ℓ β) (oracle : Nat → Nat) (n : Nat) (s : σ) :
    ∃ m, (prog.bind k).solo oracle n s = (k (prog.solo oracle n s).2).solo oracle m (prog.solo oracle n s).1 := by
  induction prog generalizing n s with
  | done a => exact ⟨n, rfl⟩
  | choose next ih => exact ih _ _ _
  | atomic site act next ih => exact ih _ _ _

theorem solo_bind_fst {prog : Prog σ ℓ α} {k : α → Prog σ ℓ β} {oracle : Nat → Nat} {n : Nat} {s s' t : σ} {a : α}
    (ran : prog.solo oracle n s = (s', a)) (rest : ∀ m, ((k a).solo oracle m s').1 = t) :
    ((prog.bind k).solo oracle n s).1 = t := by
  obtain ⟨m, same⟩ := solo_bind prog k oracle n s
  rw [same, ran]
  exact rest m

theorem solo_shift (prog : Prog σ ℓ α) (oracle : Nat → Nat) (n m : Nat) (s : σ) :
    prog.solo oracle (n + m) s = prog.solo (fun k => oracle (n + k)) m s := by
  induction prog generalizing m s with
  | done a => rfl
  | choose next ih => exact ih _ (m + 1) s
  | atomic site act next ih => exact ih _ m _

namespace Post

theorem done {a : α} (h : Q s a) : (Prog.done a : Prog σ ℓ α).Post oracle s Q := fun _ => h

theorem mono (h : prog.Post oracle s Q) (weaker : ∀ s a, Q s a → Q' s a) : prog.Post oracle s Q' :=
  fun n => weaker _ _ (h n)

theorem and (h : prog.Post oracle s Q) (h' : prog.Post oracle s Q') : prog.Post oracle s fun s a => Q s a ∧ Q' s a :=
  fun n => ⟨h n, h' n⟩

theorem bind {k : α → Prog σ ℓ β} {R : σ → α → Prop} {Q : σ → β → Prop} (first : prog.Post oracle s R)
    (rest : ∀ s' a, R s' a → (k a).Post oracle s' Q) : (prog.bind k).Post oracle s Q := by
  intro n
  obtain ⟨m, eq⟩ := solo_bind prog k oracle n s
  rw [eq]
  exact rest _ _ (first n) m

theorem read {site : ℓ} {f : σ → α} (h : Q s (f s)) : (Prog.read site f).Post oracle s Q := fun _ => h

section Next

variable {site : ℓ} {Q : σ → β → Prop}
variable {k : α → Prog σ ℓ β}

theorem after_read {f : σ → α} (h : (k (f s)).Post oracle s Q) : ((Prog.read site f).bind k).Post oracle s Q := h

theorem after_write {f : σ → σ} {k : Unit → Prog σ ℓ β} (h : (k ()).Post oracle (f s) Q) :
    ((Prog.write site f).bind k).Post oracle s Q := h

theorem after_action {f : σ → σ × α} (h : (k (f s).2).Post oracle (f s).1 Q) :
    ((Prog.action site f).bind k).Post oracle s Q := h

theorem after_pick {k : Nat → Prog σ ℓ β} (h : ∀ n, (k (oracle n)).Post oracle s Q) :
    ((Prog.pick : Prog σ ℓ Nat).bind k).Post oracle s Q := fun n => h n (n + 1)

theorem after_alike {p : Prog σ ℓ α} {a : α} (first : Alike oracle s p (.done a))
    (h : (k a).Post oracle s Q) : (p.bind k).Post oracle s Q := by
  intro n
  rw [first.run]
  exact h n

end Next

theorem write {site : ℓ} {f : σ → σ} {Q : σ → Unit → Prop} (h : Q (f s) ()) :
    (Prog.write site f).Post oracle s Q := fun _ => h

theorem action {site : ℓ} {f : σ → σ × α} (h : Q (f s).1 (f s).2) : (Prog.action site f).Post oracle s Q := fun _ => h

theorem pick {Q : σ → Nat → Prop} (h : ∀ a, Q s a) : (Prog.pick : Prog σ ℓ Nat).Post oracle s Q := fun n => h (oracle n)

theorem focus {L : Lens σ τ} {label : ℓ → ℓ'} {prog : Prog τ ℓ α} {Q : τ → α → Prop} (h : prog.Post oracle (L.get s) Q) :
    (prog.focus L label).Post oracle s fun s' a => ∃ t, s' = L.put t s ∧ Q t a := by
  intro n
  rw [solo_focus]
  exact ⟨_, rfl, h n⟩

theorem observe {γ : Type} {label : ℓ → ℓ'} {see : σ → σ → γ → γ} {x : σ × γ} (h : prog.Post oracle x.1 Q) :
    (prog.observe label see).Post oracle x fun y a => Q y.1 a := by
  intro n
  rw [(solo_observe label see prog oracle n x).1, (solo_observe label see prog oracle n x).2]
  exact h n

end Post

/-- The oracle denies at most `rounds` choices in a row. -/
def Patient (oracle : Nat → Nat) (rounds : Nat) : Prop := ∀ n, ∃ k, k < rounds ∧ oracle (n + k) = 0

theorem Patient.round {rounds : Nat} (patient : Patient oracle rounds) : ∃ fuel, rounds = fuel + 1 := by
  obtain ⟨k, lt, -⟩ := patient 0
  exact ⟨rounds - 1, by omega⟩

theorem solo_retry {f : Nat → Prog σ ℓ α} {result : σ × α}
    (granted : ∀ fuel n, oracle n = 0 → (f (fuel + 1)).solo oracle n s = result)
    (denied : ∀ fuel n, oracle n ≠ 0 → (f (fuel + 1)).solo oracle n s = (f fuel).solo oracle (n + 1) s)
    {rounds : Nat} (patient : Patient oracle rounds) (n : Nat) : (f rounds).solo oracle n s = result := by
  obtain ⟨k, lt, grant⟩ := patient n
  clear patient
  induction k generalizing n rounds with
  | zero =>
    obtain ⟨fuel, rfl⟩ : ∃ fuel, rounds = fuel + 1 := ⟨rounds - 1, by omega⟩
    exact granted fuel n grant
  | succ k ih =>
    obtain ⟨fuel, rfl⟩ : ∃ fuel, rounds = fuel + 1 := ⟨rounds - 1, by omega⟩
    by_cases here : oracle n = 0
    · exact granted fuel n here
    · rw [denied fuel n here]
      refine ih (n + 1) (by omega) ?_
      rw [← grant]
      congr 1
      omega

end Prog

/-! ### A protocol of a part -/

section Part

open Function

variable {V ω ω' : Type}

namespace Protocol

/-- The protocol of a part, followed by operations on the whole state that `part` sees as operations on the part. -/
def pull (P : Protocol τ ℓ ω V) (L : Lens σ τ) (part : ω' → ω) (cond : ω' → ℓ' → σ → Prop) : Protocol σ ℓ' ω' V where
  inv := fun s dead views => P.inv (L.get s) dead fun t => (views t).map fun th => (part th.1, th.2)
  idle := P.idle
  guar := fun s s' => P.guar (L.get s) (L.get s')
  cond := cond
  stop := fun s p => P.stop (L.get s) p

variable {P : Protocol τ ℓ ω V} {L : Lens σ τ} {part : ω' → ω} {cond : ω' → ℓ' → σ → Prop} {op : ω'} {v : V}

theorem Triple.focus {label : ℓ → ℓ'} {prog : Prog τ ℓ α} {Q : α → V → Prop} (h : P.Triple (part op) prog v Q)
    (sites : ∀ site s, cond op (label site) s → P.cond (part op) site (L.get s)) :
    (P.pull L part cond).Triple op (prog.focus L label) v Q := by
  induction prog generalizing v with
  | done a => exact h
  | choose next ih => exact fun n => ih n (h n)
  | atomic site act next ih =>
    intro s dead views t inv view allowed
    obtain ⟨v', inv', guar, rest⟩ := h (L.get s) dead _ t inv (by rw [view]; rfl) (sites site s allowed)
    refine ⟨v', ?_, ?_, ih _ rest⟩
    · simpa only [pull, Views.map_update, Option.map_some, L.get_put] using inv'
    · simpa only [pull, L.get_put] using guar

/-- A program that leaves the part alone. -/
theorem Triple.apart {prog : Prog σ ℓ' α} (refl : ∀ s, P.guar s s) (keeps : prog.Keeps L.get) :
    (P.pull L part cond).Triple op prog v fun _ w => w = v := by
  induction prog with
  | done a => exact rfl
  | choose next ih => exact fun n => ih n (keeps n)
  | atomic site act next ih =>
    intro s dead views t inv view _
    refine ⟨v, ?_, ?_, ih s (keeps s).2⟩
    · rw [update_same view]
      simpa only [pull, (keeps s).1] using inv
    · simpa only [pull, (keeps s).1] using refl _

end Protocol

end Part

end Evering.Interleave
