import Evering.Interleave.Focus
import Evering.Pool.Ledger

/-!
# Pool words when nobody else is at work

The retry loops of `release_token` and `Storage::recover` run alone: what they answer and which word they leave. A scan
frees the words that name the dead participant.
-/

namespace Evering.Pool

open Interleave

variable {oracle : Nat → Nat} {rounds : Nat}

/-! ### Words -/

section Words

variable {g : Nat}

theorem free_generation (h : g ≤ maxGeneration) : (State.free g).generation = g := by
  rw [State.free_eq h]
  exact @Auth.word_generation 0 (by omega) (.free g) h

theorem free_allocated (h : g ≤ maxGeneration) : (State.free g).allocated = false := by
  rw [State.free_eq h]
  exact @Auth.word_allocated 0 (by omega) (.free g) h

theorem free_canonical (h : g ≤ maxGeneration) : (State.free g).canonical = true := by
  rw [State.free_eq h]
  exact @Auth.word_canonical 0 (by omega) (.free g) h

theorem State.generation_le {state : State} (fits : state.word < 2 ^ 32) : state.generation ≤ maxGeneration := by
  rw [State.generation_eq, maxGeneration_eq]
  omega

end Words

/-! ### The loops -/

/-- The answer of `release_token` for a slot with this word. -/
def State.yields (state : State) (generation : Nat) (owner : Option Nat) : Bool :=
  state.canonical && decide (generation ≤ state.generation) &&
    (decide (generation < state.generation) || !state.allocated || !state.owner.any fun actual => decide (some actual ≠ owner))

/-- `release_token` frees the slot with this word. -/
def State.isFreed (state : State) (generation : Nat) (owner : Option Nat) : Bool :=
  state.yields generation owner && decide (state.generation = generation) && state.allocated

variable {t : Shared} {c i g dead : Nat}

theorem releaseLoop_alone {owner : Option Nat} (effect : Shared → Shared) (patient : Prog.Patient oracle rounds) :
    (releaseLoop c i g owner effect rounds (t.word c i)).Post oracle t fun t' r => r = (t.word c i).yields g owner ∧
      t' = if (t.word c i).isFreed g owner then effect (t.setWord c i (.free g)) else t := by
  obtain ⟨fuel, rfl⟩ := patient.round
  unfold State.isFreed State.yields
  rcases canonical : (t.word c i).canonical with _ | _
  · exact fun n => by simp [releaseLoop, canonical]
  rcases Nat.lt_trichotomy (t.word c i).generation g with early | here | late
  · have le : ¬g ≤ (t.word c i).generation := by omega
    exact fun n => by simp [releaseLoop, canonical, early, le]
  · rcases taken : (t.word c i).allocated with _ | _
    · exact fun n => by simp [releaseLoop, canonical, here, taken]
    simp only [ne_eq, decide_not]
    rcases other : (t.word c i).owner.any fun actual => !decide (some actual = owner) with _ | _
    swap
    · exact fun n => by simp [releaseLoop, canonical, here, taken, other]
    have ran : ∀ n, (releaseLoop c i g owner effect (fuel + 1) (t.word c i)).solo oracle n t =
        (effect (t.setWord c i (.free g)), true) := by
      refine Prog.solo_retry (f := fun fuel => releaseLoop c i g owner effect fuel (t.word c i)) ?_ ?_ patient
      · intro fuel n granted
        simp [releaseLoop, compareExchangeWeak, canonical, here, taken, other, granted, Prog.bind_assoc]
      · intro fuel n denied
        simp [releaseLoop, compareExchangeWeak, canonical, here, taken, other, denied, Prog.bind_assoc]
    intro n
    rw [ran]
    simp [here]
  · have le : g ≤ (t.word c i).generation := by omega
    have ne : (t.word c i).generation ≠ g := by omega
    have early : ¬(t.word c i).generation < g := by omega
    exact fun n => by simp [releaseLoop, canonical, early, late, le, ne]

/-- `Storage::recover` frees the slot with this word. -/
def State.isOwned (state : State) (dead : Nat) : Bool := state.allocated && decide (state.owner = some dead)

theorem recoverLoop_alone (canonical : (t.word c i).canonical = true) (patient : Prog.Patient oracle rounds) :
    (recoverLoop dead c i rounds (t.word c i)).Post oracle t fun t' r => r = true ∧ t' = if (t.word c i).isOwned dead then
        ((t.setWord c i (.free (t.word c i).generation)).voidAllocations dead c i (t.word c i).generation).logFree c i
          (t.word c i).generation else t := by
  obtain ⟨fuel, rfl⟩ := patient.round
  unfold State.isOwned
  rcases taken : (t.word c i).allocated with _ | _
  · exact fun n => by simp [recoverLoop, canonical, taken]
  by_cases mine : (t.word c i).owner = some dead
  swap
  · exact fun n => by simp [recoverLoop, canonical, mine]
  have ran : ∀ n, (recoverLoop dead c i (fuel + 1) (t.word c i)).solo oracle n t =
      (((t.setWord c i (.free (t.word c i).generation)).voidAllocations dead c i (t.word c i).generation).logFree c i
        (t.word c i).generation, true) := by
    refine Prog.solo_retry (f := fun fuel => recoverLoop dead c i fuel (t.word c i)) ?_ ?_ patient
    · intro fuel n granted
      simp [recoverLoop, compareExchangeWeak, canonical, taken, mine, granted, Prog.bind_assoc]
    · intro fuel n denied
      simp [recoverLoop, compareExchangeWeak, canonical, taken, mine, denied, Prog.bind_assoc]
  intro n
  rw [ran]
  simp [mine]

/-! ### The scan -/

/-- The word after a scan for `dead`. -/
def State.scanned (state : State) (dead : Nat) : State :=
  if state.isOwned dead then .free state.generation else state

theorem State.scanned_idem {state : State} (fits : state.word < 2 ^ 32) :
    (state.scanned dead).scanned dead = state.scanned dead := by
  unfold State.scanned
  by_cases owned : state.isOwned dead = true
  · rw [if_pos owned, if_neg]
    simp [State.isOwned, free_allocated (State.generation_le fits)]
  · rw [if_neg owned, if_neg owned]

/-- Every word is that of some slot. -/
structure Shared.Canonical (t : Shared) : Prop where
  canonical : ∀ c i, (t.word c i).canonical = true
  fits : ∀ c i, (t.word c i).word < 2 ^ 32

theorem free_fits (g : Nat) : (State.free g).word < 2 ^ 32 := Nat.mod_lt _ (by decide)

theorem Shared.Canonical.setWord (good : t.Canonical) (le : g ≤ maxGeneration) : (t.setWord c i (.free g)).Canonical := by
  refine ⟨fun c' i' => ?_, fun c' i' => ?_⟩ <;> by_cases here : c' = c ∧ i' = i
  · obtain ⟨rfl, rfl⟩ := here
    rw [word_setWord_self, free_canonical le]
  · rw [word_setWord_of_ne here, good.canonical]
  · obtain ⟨rfl, rfl⟩ := here
    rw [word_setWord_self]
    exact free_fits g
  · rw [word_setWord_of_ne here]
    exact good.fits c' i'

/-- **The scan of a Pool**, alone on canonical words: it succeeds and frees the slots of the dead participant. -/
theorem recoverAll_alone (slots : List (Nat × Nat)) (good : t.Canonical) (patient : Prog.Patient oracle rounds) :
    (recoverAll dead rounds slots).Post oracle t fun t' r => r = true ∧
      ∀ c i, t'.word c i = if (c, i) ∈ slots then (t.word c i).scanned dead else t.word c i := by
  induction slots generalizing t with
  | nil => exact .done ⟨rfl, fun c i => by simp⟩
  | cons slot slots ih =>
    obtain ⟨c, i⟩ := slot
    refine .bind (R := fun t' raw => t' = t ∧ raw = t.word c i) (.read ⟨rfl, rfl⟩) ?_
    rintro t₁ raw ⟨rfl, rfl⟩
    refine .bind (recoverLoop_alone (good.canonical c i) patient) ?_
    rintro t₂ r ⟨rfl, rfl⟩
    have le := State.generation_le (good.fits c i)
    -- the word of the slot is the scanned one, the others are as before
    have next : ∀ t₂ : Shared, (t₂ = if (t₁.word c i).isOwned dead then
          ((t₁.setWord c i (.free (t₁.word c i).generation)).voidAllocations dead c i (t₁.word c i).generation).logFree c i
            (t₁.word c i).generation
        else t₁) → t₂.Canonical ∧ ∀ c' i', t₂.word c' i' =
          if c' = c ∧ i' = i then (t₁.word c i).scanned dead else t₁.word c' i' := by
      rintro t₂ rfl
      unfold State.scanned
      by_cases owned : (t₁.word c i).isOwned dead = true
      · rw [if_pos owned, if_pos owned]
        have good' := good.setWord (c := c) (i := i) le
        refine ⟨⟨good'.canonical, good'.fits⟩, fun c' i' => ?_⟩
        by_cases here : c' = c ∧ i' = i
        · obtain ⟨rfl, rfl⟩ := here
          rw [if_pos ⟨rfl, rfl⟩]
          exact word_setWord_self
        · rw [if_neg here]
          exact word_setWord_of_ne here
      · rw [if_neg owned, if_neg owned]
        refine ⟨good, fun c' i' => ?_⟩
        split
        · rename_i here
          rw [here.1, here.2]
        · rfl
    obtain ⟨good', words⟩ := next _ rfl
    refine .mono (ih good') ?_
    rintro t' r ⟨rfl, rest⟩
    refine ⟨rfl, fun c' i' => ?_⟩
    rw [rest, words]
    by_cases here : c' = c ∧ i' = i
    · obtain ⟨rfl, rfl⟩ := here
      simp [State.scanned_idem (good.fits _ _)]
    · have ne : (c', i') ≠ (c, i) := fun h => here (by simpa using h)
      simp [here, ne]

end Evering.Pool
