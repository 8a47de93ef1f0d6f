import Evering.Session.Drain

/-!
# The scan of a Pool and the repair of queue slots

Recovery frees the Pool slots of a dead participant in two ways. `Storage::recover` goes through the words of a Pool and
frees those that the participant owns; the repair of a queue slot whose source is the participant releases the token in it
with `release_token`. Each of these passes is described by the words it frees and by whether it succeeds, which no other
pass changes, so neither their order nor their number matters.
-/

namespace Evering.Session

open Interleave List

inductive Pass
  /-- `Storage::recover` of the Pool with this geometry at an offset -/
  | scan (offset : Nat) (storage : Pool.Storage)
  /-- `release_token` with the dead participant as the owner -/
  | release (token : Pool.Token)

section

variable (U : Setup) (dead : Nat)

def Pass.code (rounds : Nat) : Pass → SessionProg U Bool
  | scan offset storage => onPool offset (Pool.recover storage dead rounds)
  | release token => releaseToken U (some dead) token rounds

/-- Passes one after the other; the first one that fails ends the recovery. -/
def passes (rounds : Nat) : List Pass → SessionProg U Bool
  | [] => return true
  | pass :: rest => do
    if ← pass.code U dead rounds then passes rounds rest else return false

/-- The Pool that `inspect_layout` finds at an offset. -/
def foundPool (dir : Directory.Shared) (offset : Nat) : Option Pool.Storage :=
  ((Directory.inspectLayout U.dir U.record Option.isSome offset).result dir).join

/-- The token is well formed and names a slot of a Pool that is found. -/
def tokenFits (dir : Directory.Shared) (token : Pool.Token) : Bool :=
  match foundPool U dir token.pool with
  | none => false
  | some storage => decide (token.generation = 0) ||
      !decide (token.generation > Pool.maxGeneration ∨ token.metadata = none) &&
        match storage.classes[token.cls]? with
        | none => false
        | some cls => decide (token.slot < cls.slots)

def Pass.succeeds (s : Shared U) : Pass → Bool
  | scan _ _ => true
  | release token => tokenFits U s.dir.1 token &&
      (decide (token.generation = 0) || (s.slotWord token).yields token.generation (some dead))

/-- The pass frees the slot with this word. -/
def Pass.frees (dir : Directory.Shared) (offset cls slot : Nat) (word : Pool.State) : Pass → Bool
  | scan offset' storage => decide (offset = offset' ∧ (cls, slot) ∈ storage.slots) && word.isOwned dead
  | release token => decide (offset = token.pool ∧ cls = token.cls ∧ slot = token.slot ∧ token.generation ≠ 0) &&
      tokenFits U dir token && word.isFreed token.generation (some dead)

end

variable {U : Setup} {s s' : Shared U} {oracle : Nat → Nat} {rounds dead : Nat}

/-- Every Pool word is that of some slot. -/
def Shared.Canonical (s : Shared U) : Prop := ∀ offset, (s.pool offset).Canonical

/-! ### One pass -/

/-- The state after a pass that frees what it should. -/
structure Passed (dead : Nat) (pass : Pass) (s s' : Shared U) : Prop where
  dir : s'.dir.1 = s.dir.1
  word : ∀ o c i, (s'.pool o).word c i = if pass.frees U dead s.dir.1 o c i ((s.pool o).word c i) then
    .free ((s.pool o).word c i).generation else (s.pool o).word c i

theorem inspectPool_alone (offset : Nat) : (inspectPool U offset).Post oracle s fun s' r =>
    ∃ x, s' = { s with dir := x } ∧ x.1 = s.dir.1 ∧ r = foundPool U s.dir.1 offset := by
  have reads : (Directory.inspectLayout U.dir U.record Option.isSome offset).Reads Directory.Shared.dir .plain :=
    Directory.inspectLayout_reads Option.isSome offset
  refine .bind (onDir_post (Q := fun d r => d = s.dir.1 ∧ r = (Directory.inspectLayout U.dir U.record Option.isSome
    offset).result s.dir.1) fun n => ?_) ?_
  · rw [reads.solo]
    exact ⟨rfl, rfl⟩
  · rintro s' r ⟨x, rfl, same, rfl⟩
    exact .done ⟨x, rfl, same, rfl⟩

theorem scan_alone (offset : Nat) (storage : Pool.Storage) (good : s.Canonical) (patient : Prog.Patient oracle rounds) :
    ((Pass.scan offset storage).code U dead rounds).Post oracle s fun s' r =>
      r = true ∧ Passed dead (.scan offset storage) s s' := by
  refine .mono (.focus (L := poolLens offset) (Pool.recoverAll_alone storage.slots (good offset) patient)) ?_
  rintro s' r ⟨t, rfl, rfl, words⟩
  refine ⟨rfl, rfl, fun o c i => ?_⟩
  by_cases here : o = offset
  · subst here
    have word : (((poolLens o).put t s).pool o).word c i = t.word c i := by simp [poolLens]
    rw [word, words]
    by_cases inside : (c, i) ∈ storage.slots
    · simp only [Pass.frees, inside, and_self, decide_true, Bool.true_and, if_true]
      rfl
    · simp [Pass.frees, inside, poolLens]
  · simp [Pass.frees, here, poolLens]

theorem release_alone (token : Pool.Token) (patient : Prog.Patient oracle rounds) :
    ((Pass.release token).code U dead rounds).Post oracle s fun s' r =>
      r = (Pass.release token).succeeds U dead s ∧ Passed dead (.release token) s s' := by
  -- nothing is freed unless the loop is reached
  have kept {x : Directory.Shared × Directory.Register} (still : tokenFits U s.dir.1 token = false ∨ token.generation = 0)
      (same : x.1 = s.dir.1) : Passed dead (.release token) s { s with dir := x } := by
    refine ⟨same, fun o c i => (if_neg ?_).symm⟩
    rcases still with unfit | zero <;> simp [Pass.frees, *]
  have failed {x : Directory.Shared × Directory.Register} (unfit : tokenFits U s.dir.1 token = false) (same : x.1 = s.dir.1) :
      false = (Pass.release token).succeeds U dead s ∧ Passed dead (.release token) s { s with dir := x } :=
    ⟨by simp [Pass.succeeds, unfit], kept (.inl unfit) same⟩
  rw [Pass.code, releaseToken]
  by_cases zero : token.generation = 0
  · rw [if_pos zero]
    refine .bind (inspectPool_alone token.pool) ?_
    rintro s' r ⟨x, rfl, same, rfl⟩
    refine .done ⟨?_, kept (.inr zero) same⟩
    cases found : foundPool U s.dir.1 token.pool <;> simp [Pass.succeeds, tokenFits, zero, found]
  by_cases wrong : token.generation > Pool.maxGeneration ∨ token.metadata = none
  · have unfit : tokenFits U s.dir.1 token = false := by
      unfold tokenFits
      split
      · rfl
      · simp [zero, wrong]
    rw [if_neg zero, if_pos wrong]
    exact .done (failed unfit rfl)
  rw [if_neg zero, if_neg wrong]
  refine .bind (inspectPool_alone token.pool) ?_
  rintro s₁ r ⟨x, rfl, same, rfl⟩
  rcases found : foundPool U s.dir.1 token.pool with _ | storage
  · have unfit : tokenFits U s.dir.1 token = false := by simp [tokenFits, found]
    exact .done (failed unfit same)
  simp only
  rcases there : storage.classes[token.cls]? with _ | cls
  · have unfit : tokenFits U s.dir.1 token = false := by simp [tokenFits, found, there, zero]
    exact .done (failed unfit same)
  simp only
  by_cases outside : token.slot ≥ cls.slots
  · have unfit : tokenFits U s.dir.1 token = false := by
      have : ¬token.slot < cls.slots := by omega
      simp [tokenFits, *]
    rw [if_pos outside]
    exact .done (failed unfit same)
  have fits : tokenFits U s.dir.1 token = true := by
    have : token.slot < cls.slots := by omega
    simp [tokenFits, *]
  rw [if_neg outside]
  refine .bind (R := fun t raw => t = { s with dir := x } ∧ raw = s.slotWord token) ?_ ?_
  · exact fun n => ⟨(poolLens (U := U) token.pool).put_get { s with dir := x }, rfl⟩
  rintro t raw ⟨rfl, rfl⟩
  refine .mono (.focus (Pool.releaseLoop_alone _ patient)) ?_
  rintro s' r ⟨t, rfl, rfl, ends⟩
  replace ends : t = if (s.slotWord token).isFreed token.generation (some dead) then
      releaseEffect (some dead) token ((s.pool token.pool).setWord token.cls token.slot (.free token.generation))
    else s.pool token.pool := ends
  refine ⟨?_, same, fun o c i => ?_⟩
  · simp only [Pass.succeeds, fits, zero, decide_false, Bool.false_or, Bool.true_and]
    rfl
  by_cases here : o = token.pool
  swap
  · simp [Pass.frees, here, poolLens]
  subst here
  have word : (((poolLens token.pool).put t { s with dir := x }).pool token.pool).word c i = t.word c i := by
    simp [poolLens]
  rw [word]
  by_cases slot : c = token.cls ∧ i = token.slot
  · obtain ⟨rfl, rfl⟩ := slot
    split at ends
    · rename_i freed
      have generation : ((s.pool token.pool).word token.cls token.slot).generation = token.generation := by
        simp only [Pool.State.isFreed, Bool.and_eq_true, decide_eq_true_eq] at freed
        exact freed.1.2
      have freed' : ((s.pool token.pool).word token.cls token.slot).isFreed token.generation (some dead) = true := freed
      rw [if_pos (by simp [Pass.frees, zero, fits, freed']), ends, generation]
      exact Pool.word_setWord_self
    · rename_i kept'
      have kept'' : ((s.pool token.pool).word token.cls token.slot).isFreed token.generation (some dead) = false :=
        Bool.not_eq_true _ ▸ kept'
      rw [if_neg (by simp [Pass.frees, kept'']), ends]
  · rw [if_neg (by simp only [Pass.frees, Bool.and_eq_true, decide_eq_true_eq]; exact fun h => slot ⟨h.1.1.2.1, h.1.1.2.2.1⟩),
      ends]
    split
    · exact Pool.word_setWord_of_ne slot
    · rfl

/-! ### Passes do not disturb each other -/

section Words

variable {w : Pool.State} {g : Nat}

/-- A word that some pass for `dead` frees. -/
def reapable (dead : Nat) (w : Pool.State) : Bool :=
  w.allocated && !w.owner.any fun actual => decide (some actual ≠ some dead)

variable {pass : Pass} {dir : Directory.Shared} {o c i : Nat}

theorem reapable_of_frees (frees : pass.frees U dead dir o c i w = true) : reapable dead w = true := by
  cases pass with
  | scan offset storage =>
    simp only [Pass.frees, Pool.State.isOwned, Bool.and_eq_true, decide_eq_true_eq] at frees
    simp [reapable, frees.2.1, frees.2.2]
  | release token =>
    simp only [Pass.frees, Pool.State.isFreed, Pool.State.yields, Bool.and_eq_true, decide_eq_true_eq] at frees
    obtain ⟨-, ⟨⟨⟨-, le⟩, mine⟩, generation⟩, allocated⟩ := frees
    have still : ¬token.generation < w.generation := by omega
    simpa [reapable, allocated, still] using mine

theorem yields_free (canonical : w.canonical = true) (fits : w.word < 2 ^ 32) (mine : reapable dead w = true) :
    (Pool.State.free w.generation).yields g (some dead) = w.yields g (some dead) := by
  have le := Pool.State.generation_le fits
  simp only [reapable, ne_eq, Option.some.injEq, decide_not, Bool.and_eq_true, Bool.not_eq_true'] at mine
  simp [Pool.State.yields, Pool.free_canonical le, Pool.free_generation le, Pool.free_allocated le, canonical, mine.2]

theorem frees_free (fits : w.word < 2 ^ 32) : pass.frees U dead dir o c i (.free w.generation) = false := by
  have free := Pool.free_allocated (Pool.State.generation_le fits)
  cases pass with
  | scan offset storage => simp [Pass.frees, Pool.State.isOwned, free]
  | release token => simp [Pass.frees, Pool.State.isFreed, free]

end Words

theorem pass_alone (pass : Pass) (good : s.Canonical) (patient : Prog.Patient oracle rounds) :
    (pass.code U dead rounds).Post oracle s fun s' r => r = pass.succeeds U dead s ∧ Passed dead pass s s' := by
  cases pass with
  | scan offset storage => exact scan_alone offset storage good patient
  | release token => exact release_alone token patient

theorem Passed.canonical {pass : Pass} (passed : Passed dead pass s s') (good : s.Canonical) : s'.Canonical := by
  intro o
  refine ⟨fun c i => ?_, fun c i => ?_⟩ <;> rw [passed.word] <;> split
  · exact Pool.free_canonical (Pool.State.generation_le ((good o).fits c i))
  · exact (good o).canonical c i
  · exact Pool.free_fits _
  · exact (good o).fits c i

theorem Passed.succeeds {pass pass' : Pass} (passed : Passed dead pass s s') (good : s.Canonical) :
    pass'.succeeds U dead s' = pass'.succeeds U dead s := by
  cases pass' with
  | scan offset storage => rfl
  | release token =>
    have yields : (s'.slotWord token).yields token.generation (some dead) =
        (s.slotWord token).yields token.generation (some dead) := by
      rw [Shared.slotWord, passed.word]
      split
      · rename_i frees
        exact yields_free ((good _).canonical _ _) ((good _).fits _ _) (reapable_of_frees frees)
      · rfl
    simp only [Pass.succeeds, passed.dir, yields]

/-- **Passes in a row**, alone: they succeed when each of them would at the start, and together they free the words that
each of them would free. -/
theorem passes_alone (list : List Pass) {s : Shared U} (good : s.Canonical) (patient : Prog.Patient oracle rounds) :
    (passes U dead rounds list).Post oracle s fun s' r => r = list.all (fun pass => pass.succeeds U dead s) ∧
      (r = true → ∀ o c i, (s'.pool o).word c i =
        if list.any (fun pass => pass.frees U dead s.dir.1 o c i ((s.pool o).word c i)) then
          .free ((s.pool o).word c i).generation else (s.pool o).word c i) := by
  induction list generalizing s with
  | nil => exact .done ⟨rfl, fun _ o c i => by simp⟩
  | cons pass list ih =>
    refine .bind (pass_alone pass good patient) ?_
    rintro s₁ r ⟨rfl, passed⟩
    rcases first : pass.succeeds U dead s with _ | _
    · exact .done ⟨by simp [first], nofun⟩
    refine .mono (ih (passed.canonical good)) ?_
    rintro s₂ r ⟨rfl, words⟩
    refine ⟨by simp [first, passed.succeeds good], fun ok o c i => ?_⟩
    rw [words ok, passed.word, passed.dir]
    have fits := (good o).fits c i
    by_cases frees : pass.frees U dead s.dir.1 o c i ((s.pool o).word c i) = true
    · have none : list.any (fun pass => pass.frees U dead s.dir.1 o c i
          (.free ((s.pool o).word c i).generation)) = false := by
        simp [frees_free fits]
      simp [frees, none]
    · simp [frees]

/-- **Scans and repairs commute.** Two recoveries made of the same passes, in any order and with any repetitions, agree
on success, and then on every Pool word. -/
theorem scan_repair_commute (good : s.Canonical) {list list' : List Pass} (same : ∀ pass, pass ∈ list ↔ pass ∈ list')
    {oracle' : Nat → Nat} (patient : Prog.Patient oracle rounds) (patient' : Prog.Patient oracle' rounds) (n n' : Nat) :
    let first := (passes U dead rounds list).solo oracle n s
    let second := (passes U dead rounds list').solo oracle' n' s
    (first.2 = true ↔ second.2 = true) ∧
      (first.2 = true → ∀ o c i, (first.1.pool o).word c i = (second.1.pool o).word c i) := by
  intro first second
  obtain ⟨ok, words⟩ := @passes_alone U oracle rounds dead list s good patient n
  obtain ⟨ok', words'⟩ := @passes_alone U oracle' rounds dead list' s good patient' n'
  have agree : (first.2 = true ↔ second.2 = true) := by
    rw [ok, ok', all_eq_true, all_eq_true]
    simp only [same]
  refine ⟨agree, fun success o c i => ?_⟩
  rw [words success, words' (agree.mp success)]
  have any : list.any (fun pass => pass.frees U dead s.dir.1 o c i ((s.pool o).word c i)) =
      list'.any (fun pass => pass.frees U dead s.dir.1 o c i ((s.pool o).word c i)) := by
    rw [Bool.eq_iff_iff, any_eq_true, any_eq_true]
    simp only [same]
  rw [any]

/-- The scan before the repair, and after two repairs of the same token. -/
theorem scan_repair_pair : ((passes pairSetup 0 1 [.scan 100 pairPool, .release pairToken]).solo (fun _ => 0) 0
      pairStart).2 = true ∧
    (((passes pairSetup 0 1 [.release pairToken, .release pairToken, .scan 100 pairPool]).solo (fun _ => 0) 0
      pairStart).1.pool 100).word 0 0 = .free 3 := by
  have patient : Prog.Patient (fun _ => 0) 1 := fun n => ⟨0, by decide, rfl⟩
  have canonical : (Pool.State.detached 3).canonical = true := by decide
  have fits : (Pool.State.detached 3).word < 2 ^ 32 := by decide
  have good : pairStart.Canonical := fun _ => ⟨fun _ _ => canonical, fun _ _ => fits⟩
  have same : ∀ pass, pass ∈ [Pass.scan 100 pairPool, .release pairToken] ↔
      pass ∈ [Pass.release pairToken, .release pairToken, .scan 100 pairPool] := by
    simp [or_comm]
  have words := (@scan_repair_commute _ _ _ _ 0 good _ _ same _ patient patient 0 0).2
  have ok : ((passes pairSetup 0 1 [.scan 100 pairPool, .release pairToken]).solo (fun _ => 0) 0 pairStart).2 = true := by
    decide +kernel
  refine ⟨ok, ?_⟩
  rw [← words ok]
  decide +kernel

end Evering.Session
