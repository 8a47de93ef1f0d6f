import Evering.Interleave.Focus
import Evering.Directory.Finish
import Evering.Directory.Tenancy

/-!
# Looking through the directory

`scan` visits the published entries in the order of the chain and gives up at an entry that a transaction is changing.
`inspect_layout` uses it to find the layout that a token names. What the record at an offset says, if there is one, is
given by `record`.

Alone on a directory at rest, `scan` comes to every published entry, `inspect_layout` finds the layout at an offset, and
`remove_in` of a layout with one member vacates its entry.
-/

namespace Evering.Directory

open Interleave

inductive ScanError
  | inUse
  | admission
  | full
  deriving DecidableEq

section Scan

variable {ρ γ : Type} (S : Setup) (record : Nat → Option ρ) (visit : Id → ρ → γ → DirProg (γ × Bool))

/-- The entries of one slab that `scan` has still to look at. -/
def scanIn (k : Nat) : Nat → Nat → γ → DirProg (Except ScanError (γ × Bool))
  | 0, _, found => return .ok (found, true)
  | n + 1, e, found => do
    let word ← loadState k e
    match word.state with
    | .vacant => scanIn k n (e + 1) found
    | .quarantined => scanIn k n (e + 1) found
    | .published =>
      match record (← loadOffset k e) with
      | none => return .error .admission
      | some recorded =>
        let (found, complete) ← visit ⟨S.region, k, e, word.generation⟩ recorded found
        if complete then scanIn k n (e + 1) found else return .ok (found, false)
    | _ => return .error .inUse

def scanFrom : Nat → Nat → γ → DirProg (Except ScanError (γ × Bool))
  | 0, _, _ => return .error .full
  | n + 1, k, found => do
    match ← scanIn S record visit k capacity 0 found with
    | .error error => return .error error
    | .ok (found, false) => return .ok (found, false)
    | .ok (found, true) =>
      if (← loadNext k) = 0 then return .ok (found, true)
      scanFrom n (k + 1) found

/-- `scan`; the visitor's variables are passed along. -/
def scan (found : γ) : DirProg (Except ScanError (γ × Bool)) := scanFrom S record visit maxSlabs 0 found

/-- The visitor of `inspect_layout` -/
def seek (kind : ρ → Bool) (target : Nat) (id : Id) (recorded : ρ) (found : Option Id) :
    DirProg (Option Id × Bool) := do
  if kind recorded then
    match ← offset S id with
    | .ok found' => return (if found' = target then some id else found, true)
    | .error _ => return (found, true)
  else return (found, true)

/-- `inspect_layout` of the layout of some kind at `target`: what is recorded there. -/
def inspectLayout (kind : ρ → Bool) (target : Nat) : DirProg (Option ρ) := do
  match ← scan S record (seek S kind target) none with
  | .error _ => return none
  | .ok (none, _) => return none
  | .ok (some id, _) =>
    match ← offset S id with
    | .error _ => return none
    | .ok found => return record found

end Scan

/-! ### The scan only reads -/

section Reads

variable {ρ γ : Type} {S : Setup} {record : Nat → Option ρ} {visit : Id → ρ → γ → DirProg (γ × Bool)}

theorem scanIn_reads (visits : ∀ id recorded found, (visit id recorded found).Reads Shared.dir .plain) (k n e : Nat)
    (found : γ) : (scanIn S record visit k n e found).Reads Shared.dir .plain := by
  induction n generalizing e found with
  | zero => exact .done _
  | succ n ih =>
    refine .bind (loadState_reads k e) fun word => ?_
    cases word.state
    case vacant => exact ih _ _
    case quarantined => exact ih _ _
    case published =>
      refine .bind (loadOffset_reads k e) fun o => ?_
      cases record o with
      | none => exact .done _
      | some recorded => exact .bind (visits _ _ _) fun r => .ite (ih _ _) (.done _)
    all_goals exact .done _

theorem scanFrom_reads (visits : ∀ id recorded found, (visit id recorded found).Reads Shared.dir .plain) (n k : Nat)
    (found : γ) : (scanFrom S record visit n k found).Reads Shared.dir .plain := by
  induction n generalizing k found with
  | zero => exact .done _
  | succ n ih =>
    refine .bind (scanIn_reads visits _ _ _ _) fun r => ?_
    rcases r with error | ⟨found, _ | _⟩
    · exact .done _
    · exact .done _
    · exact .bind (loadNext_reads k) fun next => .ite (.done _) (ih _ _)

theorem inspectLayout_reads (kind : ρ → Bool) (target : Nat) :
    (inspectLayout S record kind target).Reads Shared.dir .plain := by
  refine .bind (scanFrom_reads (fun id recorded found => ?_) _ _ _) fun r => ?_
  · refine .ite (.bind (offset_reads id) fun r => ?_) (.done _)
    cases r with
    | error error => exact .done _
    | ok o => exact .done _
  · rcases r with error | ⟨_ | id, complete⟩
    · exact .done _
    · exact .done _
    · refine .bind (offset_reads id) fun r => ?_
      cases r with
      | error error => exact .done _
      | ok o => exact .done _

end Reads

/-! ### A directory at rest -/

section Rest

variable {ρ γ : Type} {S : Setup} {record : Nat → Option ρ} {visit : Id → ρ → γ → DirProg (γ × Bool)}
  {oracle : Nat → Nat} {s : Shared} {d : Dir} {last : Nat}

/-- No entry is in transition, and what is published has a record. -/
structure Dir.Rests (record : Nat → Option ρ) (last : Nat) (d : Dir) : Prop where
  linked : d.Linked last
  ends : d.next last = 0
  few : last < maxSlabs
  calm : ∀ k e, k ≤ last → e < capacity → (d.entry k e).word.state.isCalm = true
  recorded : ∀ k e, k ≤ last → e < capacity → (d.entry k e).word.state = .published →
    (record (d.entry k e).offset).isSome = true

variable {k e o owner : Nat} {id : Id}

theorem entry_post (linked : s.dir.Linked k) (inside : e < capacity) :
    (entry k e).Post oracle s fun s' r => s' = s ∧ r = .ok () :=
  (entry_reads k e).finds.mono fun _ _ h => ⟨h.1, h.2.symm.trans (entry_result.mpr ⟨linked, inside⟩)⟩

theorem offset_post (names : s.dir.Names S id o) : (offset S id).Post oracle s fun s' r => s' = s ∧ r = .ok o :=
  (offset_reads id).finds.mono fun _ _ h => ⟨h.1, h.2.symm.trans (offset_result.mpr names)⟩

/-- Every published entry is visited when the visitor goes on; `I k e` holds when the entries before entry `e` of slab `k`
were looked at. -/
theorem scanIn_post {I : Nat → γ → Prop} (le : k ≤ last) (rests : s.dir.Rests record last)
    (skip : ∀ e found, (s.dir.entry k e).word.state ≠ .published → I e found → I (e + 1) found)
    (visits : ∀ e found recorded, e < capacity → (s.dir.entry k e).word.state = .published →
      record (s.dir.entry k e).offset = some recorded → I e found →
      (visit ⟨S.region, k, e, (s.dir.entry k e).word.generation⟩ recorded found).Post oracle s fun s' r =>
        s' = s ∧ r.2 = true ∧ I (e + 1) r.1) (m e : Nat) (found : γ) (rest : e + m = capacity) (now : I e found) :
    (scanIn S record visit k m e found).Post oracle s fun s' r =>
      s' = s ∧ ∃ found', r = .ok (found', true) ∧ I capacity found' := by
  induction m generalizing e found with
  | zero => exact .done ⟨rfl, found, rfl, by rwa [← rest]⟩
  | succ m ih =>
    refine .bind (R := fun s' word => s' = s ∧ word = (s.dir.entry k e).word) (.read ⟨rfl, rfl⟩) ?_
    rintro s' word ⟨rfl, rfl⟩
    have calm := rests.calm k e le (by omega)
    cases state : (s'.dir.entry k e).word.state with
    | vacant => exact ih (e + 1) found (by omega) (skip e found (by simp [state]) now)
    | quarantined => exact ih (e + 1) found (by omega) (skip e found (by simp [state]) now)
    | published =>
      obtain ⟨recorded, here⟩ := Option.isSome_iff_exists.mp (rests.recorded k e le (by omega) state)
      refine .bind (R := fun t o => t = s' ∧ o = (s'.dir.entry k e).offset) (.read ⟨rfl, rfl⟩) ?_
      rintro t o ⟨rfl, rfl⟩
      rw [here]
      refine .bind (visits e found recorded (by omega) state here now) ?_
      rintro t' ⟨found', complete⟩ ⟨rfl, rfl, next⟩
      exact ih (e + 1) found' (by omega) next
    | pending => simp [state, EntryState.isCalm] at calm
    | closing => simp [state, EntryState.isCalm] at calm
    | removing => simp [state, EntryState.isCalm] at calm
    | released => simp [state, EntryState.isCalm] at calm

theorem scan_post {I : Nat → Nat → γ → Prop} (rests : s.dir.Rests record last)
    (skip : ∀ k e found, (s.dir.entry k e).word.state ≠ .published → I k e found → I k (e + 1) found)
    (visits : ∀ k e found recorded, k ≤ last → e < capacity → (s.dir.entry k e).word.state = .published →
      record (s.dir.entry k e).offset = some recorded → I k e found →
      (visit ⟨S.region, k, e, (s.dir.entry k e).word.generation⟩ recorded found).Post oracle s fun s' r =>
        s' = s ∧ r.2 = true ∧ I k (e + 1) r.1)
    (turn : ∀ k found, I k capacity found → I (k + 1) 0 found) (found : γ) (begins : I 0 0 found) :
    (scan S record visit found).Post oracle s fun s' r =>
      s' = s ∧ ∃ found', r = .ok (found', true) ∧ I (last + 1) 0 found' := by
  have from_ : ∀ m k found, k ≤ last → last < k + m → I k 0 found →
      (scanFrom S record visit m k found).Post oracle s fun s' r =>
        s' = s ∧ ∃ found', r = .ok (found', true) ∧ I (last + 1) 0 found' := by
    -- the induction is on the slabs that the bound on slab indices leaves
    intro m
    induction m with
    | zero => intro k found le lt; omega
    | succ m ih =>
      intro k found le lt now
      refine .bind (scanIn_post le rests (skip k) (fun e found recorded => visits k e found recorded le) capacity 0
        found (Nat.zero_add _) now) ?_
      rintro s' r ⟨rfl, found', rfl, done⟩
      refine .bind (R := fun t next => t = s' ∧ next = s'.dir.next k) (.read ⟨rfl, rfl⟩) ?_
      rintro t next ⟨rfl, rfl⟩
      by_cases here : k = last
      · subst here
        rw [if_pos rests.ends]
        exact .done ⟨rfl, found', rfl, turn k found' done⟩
      · rw [if_neg (rests.linked k (by omega))]
        exact ih (k + 1) found' (by omega) (by omega) (turn k found' done)
  exact from_ maxSlabs 0 found (Nat.zero_le _) (by have := rests.few; omega) begins

/-- A scan whose visitor goes on fails, or what is published has a record. -/
theorem scanIn_goes (goes : ∀ id recorded found, visit id recorded found = pure (found, true)) (n e : Nat) (found : γ) :
    (scanIn S record visit k n e found).Post oracle s fun s' r => s' = s ∧ ((∃ error, r = .error error) ∨
      (∃ found', r = .ok (found', true)) ∧ ∀ e', e ≤ e' → e' < e + n → (s.dir.entry k e').word.state = .published →
        record (s.dir.entry k e').offset ≠ none) := by
  induction n generalizing e found with
  | zero => exact .done ⟨rfl, .inr ⟨⟨found, rfl⟩, fun e' _ _ => by omega⟩⟩
  | succ n ih =>
    -- the rest of the slab, when nothing is wrong with entry `e`
    have rest (found : γ) (here : (s.dir.entry k e).word.state = .published → record (s.dir.entry k e).offset ≠ none) :
        (scanIn S record visit k n (e + 1) found).Post oracle s fun s' r => s' = s ∧ ((∃ error, r = .error error) ∨
          (∃ found', r = .ok (found', true)) ∧ ∀ e', e ≤ e' → e' < e + (n + 1) → (s.dir.entry k e').word.state = .published →
            record (s.dir.entry k e').offset ≠ none) := by
      refine .mono (ih (e + 1) found) ?_
      rintro s' r ⟨rfl, failed | ⟨ended, later⟩⟩
      · exact ⟨rfl, .inl failed⟩
      · refine ⟨rfl, .inr ⟨ended, fun e' le lt => ?_⟩⟩
        by_cases same : e' = e
        · exact same ▸ here
        · exact later e' (by omega) (by omega)
    refine .bind (R := fun t word => t = s ∧ word = (s.dir.entry k e).word) (.read ⟨rfl, rfl⟩) ?_
    rintro t _ ⟨rfl, rfl⟩
    cases state : (t.dir.entry k e).word.state
    case vacant => exact rest found (by rw [state]; nofun)
    case quarantined => exact rest found (by rw [state]; nofun)
    case published =>
      refine .bind (R := fun t' o => t' = t ∧ o = (t.dir.entry k e).offset) (.read ⟨rfl, rfl⟩) ?_
      rintro t' _ ⟨rfl, rfl⟩
      cases recorded : record (t'.dir.entry k e).offset with
      | none => exact .done ⟨rfl, .inl ⟨_, rfl⟩⟩
      | some recorded' =>
        simp only [goes]
        exact rest found fun _ none => by rw [recorded] at none; cases none
    all_goals exact .done ⟨rfl, .inl ⟨_, rfl⟩⟩

theorem scanFrom_goes (goes : ∀ id recorded found, visit id recorded found = pure (found, true)) (n k : Nat) (found : γ) :
    (scanFrom S record visit n k found).Post oracle s fun _ r => (∃ error, r = .error error) ∨
      ∀ k' e', k ≤ k' → s.dir.Linked k' → e' < capacity → (s.dir.entry k' e').word.state = .published →
        record (s.dir.entry k' e').offset ≠ none := by
  induction n generalizing k found with
  | zero => exact .done (.inl ⟨_, rfl⟩)
  | succ n ih =>
    refine .bind (scanIn_goes goes capacity 0 found) ?_
    rintro t _ ⟨rfl, ⟨error, rfl⟩ | ⟨⟨found', rfl⟩, here⟩⟩
    · exact .done (.inl ⟨error, rfl⟩)
    refine .bind (R := fun t' next => t' = t ∧ next = t.dir.next k) (.read ⟨rfl, rfl⟩) ?_
    rintro t' _ ⟨rfl, rfl⟩
    split
    · rename_i last
      refine .done (.inr fun k' e' le linked lt => ?_)
      obtain rfl : k' = k := by
        by_contra later
        exact linked k (by omega) last
      exact here e' (Nat.zero_le _) (by omega)
    · refine .mono (ih (k + 1) found') ?_
      rintro _ r (failed | later)
      · exact .inl failed
      · refine .inr fun k' e' le linked lt => ?_
        by_cases same : k' = k
        · exact same ▸ here e' (Nat.zero_le _) (by omega)
        · exact later k' e' (by omega) linked lt

theorem inspectLayout_post {kind : ρ → Bool} {target : Nat} {recorded : ρ} (rests : s.dir.Rests record last)
    (le : k ≤ last) (inside : e < capacity) (published : (s.dir.entry k e).word.state = .published)
    (there : (s.dir.entry k e).offset = target) (known : record target = some recorded) (suits : kind recorded = true) :
    (inspectLayout S record kind target).Post oracle s fun s' r => s' = s ∧ r = some recorded := by
  let I (k' e' : Nat) (found : Option Id) : Prop := (∀ id, found = some id → s.dir.Names S id target) ∧
    ((k < k' ∨ k = k' ∧ e < e') → found.isSome = true)
  have skip : ∀ k' e' found, (s.dir.entry k' e').word.state ≠ .published → I k' e' found → I k' (e' + 1) found := by
    rintro k' e' found other ⟨sound, complete⟩
    refine ⟨sound, fun passed => complete ?_⟩
    by_cases here : k' = k ∧ e' = e
    · rw [here.1, here.2] at other
      exact absurd published other
    · omega
  have visits : ∀ k' e' found recorded', k' ≤ last → e' < capacity → (s.dir.entry k' e').word.state = .published →
      record (s.dir.entry k' e').offset = some recorded' → I k' e' found →
      (seek S kind target ⟨S.region, k', e', (s.dir.entry k' e').word.generation⟩ recorded' found).Post oracle s
        fun s' r => s' = s ∧ r.2 = true ∧ I k' (e' + 1) r.1 := by
    rintro k' e' found recorded' le' inside' published' known' ⟨sound, complete⟩
    have names : s.dir.Names S ⟨S.region, k', e', (s.dir.entry k' e').word.generation⟩ (s.dir.entry k' e').offset :=
      ⟨rfl, rests.linked.mono le', inside', by rw [← published'], rfl⟩
    have earlier : ¬(k' = k ∧ e' = e) → (k < k' ∨ k = k' ∧ e < e' + 1) → found.isSome = true :=
      fun other passed => complete (by omega)
    rw [seek]
    by_cases suits' : kind recorded' = true
    · rw [if_pos suits']
      refine .bind (offset_post names) ?_
      rintro s' r ⟨rfl, rfl⟩
      refine .done ⟨rfl, rfl, ?_⟩
      by_cases hit : (s'.dir.entry k' e').offset = target
      · rw [if_pos hit]
        exact ⟨fun id h => by rw [← Option.some.inj h, ← hit]; exact names, fun _ => rfl⟩
      · rw [if_neg hit]
        exact ⟨sound, earlier fun same => hit (by rw [same.1, same.2, there])⟩
    · rw [if_neg suits']
      refine .done ⟨rfl, rfl, sound, earlier fun same => suits' ?_⟩
      rw [same.1, same.2, there, known, Option.some.injEq] at known'
      rw [← known', suits]
  have turn : ∀ k' found, I k' capacity found → I (k' + 1) 0 found :=
    fun k' found now => ⟨now.1, fun passed => now.2 (by omega)⟩
  have seeks : (scan S record (seek S kind target) none).Post oracle s fun s' r =>
      s' = s ∧ ∃ found', r = .ok (found', true) ∧ I (last + 1) 0 found' :=
    scan_post rests skip visits turn none ⟨nofun, fun passed => by omega⟩
  refine .bind seeks ?_
  rintro s' r ⟨rfl, found, rfl, sound, complete⟩
  obtain ⟨id, rfl⟩ := Option.isSome_iff_exists.mp (complete (.inl (by omega)))
  refine .bind (offset_post (sound id rfl)) ?_
  rintro t o ⟨rfl, rfl⟩
  exact .done ⟨rfl, known⟩

/-- What follows the claim of the transaction and of the heap in `remove_in` of a layout with one member. -/
theorem removeHeld_post (only : s.members o = 2 ^ owner) : (removeHeld S owner id o).Post oracle s fun s' r =>
      r = .ok () ∧ (s'.dir.entry id.slab id.entry).word = ⟨id.generation, .vacant⟩ := by
  intro n
  simp [removeHeld, removeClosed, storeHome, storeState, persist, update, closeUnique, deallocateDuring, commitMutation,
    clearPending, commit, only, Prog.bind_assoc, Dir.setHandled, Dir.setTransaction, Dir.issue, Dir.setWord, Dir.setEntry]

theorem remove_post (names : s.dir.Names S id o) (transaction : s.dir.transaction = .clean)
    (mutation : s.heap.mutation = .clean) (only : s.members o = 2 ^ owner) :
    (remove S owner S.region id o true true).Post oracle s fun s' r =>
      r = .ok () ∧ (s'.dir.entry id.slab id.entry).word = ⟨id.generation, .vacant⟩ := by
  rw [remove, if_neg (by simp), if_neg (by simp)]
  refine .bind (offset_post names) ?_
  rintro s' r ⟨rfl, rfl⟩
  simp only [ne_eq, not_true_eq_false, if_false]
  refine .bind (R := fun t r => t = { s' with dir := s'.dir.begin owner } ∧ r = .ok ())
    (.action (by simp [transaction])) ?_
  rintro t r ⟨rfl, rfl⟩
  refine .bind (entry_post (k := id.slab) (e := id.entry) (fun j lt => names.linked j lt) names.inside) ?_
  rintro t r ⟨rfl, rfl⟩
  have word : (({ s' with dir := s'.dir.begin owner } : Shared).dir.entry id.slab id.entry).word =
      ⟨id.generation, .published⟩ := names.published
  refine .bind (R := fun t word => t = { s' with dir := s'.dir.begin owner } ∧ word = ⟨id.generation, .published⟩)
    (.read ⟨rfl, word⟩) ?_
  rintro t word ⟨rfl, rfl⟩
  simp only [not_true_eq_false, if_false, Bool.not_true, Bool.false_eq_true]
  refine .bind (R := fun t r => t = { s' with
      dir := s'.dir.begin owner, heap := s'.heap.setMutation (.owned owner) true } ∧ r = .ok ())
    (.action (by simp [mutation])) ?_
  rintro t r ⟨rfl, rfl⟩
  exact removeHeld_post only

end Rest

end Evering.Directory
