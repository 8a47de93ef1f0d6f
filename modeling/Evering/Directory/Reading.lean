import Evering.Interleave.Reads
import Evering.Directory.Model

/-!
# Reading the directory

The walks over the chain of slabs only read, so that what they find is a property of the directory they read. A thread that
knows the directory knows what its walks find, and so does an operation that runs alone.
-/

namespace Evering.Directory

open Interleave

variable {S : Setup} {s : Shared} {d : Dir} {k e : Nat}

theorem Dir.linked_zero (d : Dir) : d.Linked 0 := fun j lt => absurd lt (Nat.not_lt_zero j)

theorem Dir.linked_succ : d.Linked (k + 1) ↔ d.Linked k ∧ d.next k ≠ 0 := by
  refine ⟨fun h => ⟨fun j lt => h j (by omega), h k (by omega)⟩, fun h j lt => ?_⟩
  rcases Nat.lt_succ_iff_lt_or_eq.mp lt with before | rfl
  · exact h.1 j before
  · exact h.2

theorem Dir.Linked.mono {j : Nat} (linked : d.Linked k) (le : j ≤ k) : d.Linked j :=
  fun i lt => linked i (Nat.lt_of_lt_of_le lt le)

/-! ### The walks only read -/

/-- The program reads the directory and nothing else. -/
abbrev Reading {β : Type} (prog : DirProg β) : Prop := prog.Reads Shared.dir .plain

theorem loadNext_reads (k : Nat) : Reading (loadNext k) :=
  @Prog.Reads.load Shared Site Dir Shared.dir .plain _ fun d => d.next k

theorem loadState_reads (k e : Nat) : Reading (loadState k e) :=
  @Prog.Reads.load Shared Site Dir Shared.dir .plain _ fun d => (d.entry k e).word

theorem loadOffset_reads (k e : Nat) : Reading (loadOffset k e) :=
  @Prog.Reads.load Shared Site Dir Shared.dir .plain _ fun d => (d.entry k e).offset

theorem walk_reads (k n : Nat) : Reading (walk k n) := by
  induction n generalizing k with
  | zero => exact .done _
  | succ n ih => exact .bind (loadNext_reads k) fun next => .ite (.done _) (ih (k + 1))

theorem entry_reads (k e : Nat) : Reading (entry k e) :=
  .bind (walk_reads 0 k) fun found => by cases found <;> exact .done _

theorem reserveIn_reads (k n e : Nat) : Reading (reserveIn S k n e) := by
  induction n generalizing e with
  | zero => exact .done _
  | succ n ih => exact .bind (loadState_reads k e) fun word => .ite (.done _) (ih (e + 1))

theorem reserveFrom_reads (n k : Nat) : Reading (reserveFrom S n k) := by
  induction n generalizing k with
  | zero => exact .done _
  | succ n ih =>
    refine .bind (reserveIn_reads k capacity 0) fun slot => ?_
    cases slot with
    | some slot => exact .done _
    | none => exact .bind (loadNext_reads k) fun next => .ite (.done _) (ih (k + 1))

theorem tailFrom_reads (n k : Nat) : Reading (tailFrom n k) := by
  induction n generalizing k with
  | zero => exact .done _
  | succ n ih => exact .bind (loadNext_reads k) fun next => .ite (.done _) (ih (k + 1))

theorem transitionIn_reads (k n e : Nat) : Reading (transitionIn k n e) := by
  induction n generalizing e with
  | zero => exact .done _
  | succ n ih => exact .bind (loadState_reads k e) fun word => .ite (.done _) (ih (e + 1))

theorem transitionFrom_reads (n k : Nat) : Reading (transitionFrom n k) := by
  induction n generalizing k with
  | zero => exact .done _
  | succ n ih =>
    refine .bind (transitionIn_reads k capacity 0) fun found => ?_
    cases found with
    | some found => exact .done _
    | none => exact .bind (loadNext_reads k) fun next => .ite (.done _) (ih (k + 1))

theorem offset_reads (id : Id) : Reading (offset S id) := by
  refine .ite (.done _) (.bind (entry_reads _ _) fun r => ?_)
  cases r with
  | error error => exact .done _
  | ok =>
    refine .bind (loadState_reads _ _) fun word => ?_
    exact .ite (.done _) (.bind (loadOffset_reads _ _) fun o => .done _)

/-! ### What the walks find -/

theorem walk_result (n : Nat) (linked : s.dir.Linked k) : (walk k n).result s = .ok () ↔ s.dir.Linked (k + n) := by
  induction n generalizing k with
  | zero => exact iff_of_true rfl linked
  | succ n ih =>
    show Prog.result (if s.dir.next k = 0 then _ else walk (k + 1) n) s = _ ↔ _
    split
    · next last => exact iff_of_false nofun fun all => all k (by omega) last
    · next more =>
      rw [show k + (n + 1) = k + 1 + n by omega]
      exact ih (Dir.linked_succ.mpr ⟨linked, more⟩)

theorem entry_result : (entry k e).result s = .ok () ↔ s.dir.Linked k ∧ e < capacity := by
  have found := walk_result k s.dir.linked_zero
  rw [Nat.zero_add] at found
  refine (iff_of_eq (congrArg (· = _) ((walk_reads 0 k).result_bind _ s))).trans ?_
  rcases reached : (walk 0 k).result s with error | ⟨⟩
  · exact iff_of_false nofun fun h => by cases reached.symm.trans (found.mpr h.1)
  · show (if e < capacity then Except.ok () else .error Error.stale) = _ ↔ _
    rw [and_iff_right (found.mp reached)]
    split
    · next inside => exact iff_of_true rfl inside
    · next outside => exact iff_of_false nofun outside

/-- A slot that `reserve` gives -/
structure Slot.Free (S : Setup) (slot : Slot) : Prop where
  state : slot.vacant.state = .vacant
  generation : slot.generation = slot.vacant.generation + 1
  room : slot.vacant.generation ≠ generationMax S.target

structure Slot.Vacant (S : Setup) (d : Dir) (slot : Slot) : Prop extends slot.Free S where
  word : (d.entry slot.slab slot.entry).word = slot.vacant

theorem reserveIn_result {slot : Slot} (n e : Nat) (found : (reserveIn S k n e).result s = some slot) :
    slot.Vacant S s.dir := by
  induction n generalizing e with
  | zero => cases found
  | succ n ih =>
    change Prog.result (if _ then _ else reserveIn S k n (e + 1)) s = _ at found
    split at found
    · next vacant =>
      cases found
      exact ⟨⟨vacant.1, rfl, vacant.2⟩, rfl⟩
    · exact ih (e + 1) found

theorem reserveFrom_result {slot : Slot} (n k : Nat) (found : (reserveFrom S n k).result s = .ok slot) :
    slot.Vacant S s.dir := by
  induction n generalizing k with
  | zero => cases found
  | succ n ih =>
    rw [reserveFrom, Prog.bind_eq, (reserveIn_reads k capacity 0).result_bind] at found
    rcases here : (reserveIn S k capacity 0).result s with _ | slot'
    · rw [here] at found
      change Prog.result (if s.dir.next k = 0 then _ else reserveFrom S n (k + 1)) s = _ at found
      split at found
      · cases found
      · exact ih (k + 1) found
    · rw [here] at found
      cases found
      exact reserveIn_result capacity 0 here

theorem tailFrom_result {j : Nat} (n k : Nat) (linked : s.dir.Linked k) (found : (tailFrom n k).result s = .ok j) :
    s.dir.Linked j ∧ s.dir.next j = 0 := by
  induction n generalizing k with
  | zero => cases found
  | succ n ih =>
    change Prog.result (if s.dir.next k = 0 then _ else tailFrom n (k + 1)) s = _ at found
    split at found
    · next last =>
      cases found
      exact ⟨linked, last⟩
    · next more => exact ih (k + 1) (Dir.linked_succ.mpr ⟨linked, more⟩) found

/-- The identifier is that of the layout at `offset`. -/
structure Dir.Names (S : Setup) (d : Dir) (id : Id) (offset : Nat) : Prop where
  region : id.region = S.region
  linked : d.Linked id.slab
  inside : id.entry < capacity
  published : (d.entry id.slab id.entry).word = ⟨id.generation, .published⟩
  offset : (d.entry id.slab id.entry).offset = offset

theorem offset_result {id : Id} {o : Nat} : (offset S id).result s = .ok o ↔ s.dir.Names S id o := by
  unfold offset
  split
  · next other => exact iff_of_false nofun fun h => other h.region
  next home =>
  refine (iff_of_eq (congrArg (· = _) ((entry_reads id.slab id.entry).result_bind _ s))).trans ?_
  rcases found : (entry id.slab id.entry).result s with error | ⟨⟩
  · exact iff_of_false nofun fun h => by cases found.symm.trans (entry_result.mpr ⟨h.linked, h.inside⟩)
  obtain ⟨linked, inside⟩ := entry_result.mp found
  show Prog.result (if _ ∨ _ then _ else _) s = _ ↔ _
  split
  · next stale =>
    refine iff_of_false nofun fun h => ?_
    dsimp only at stale
    rw [h.published] at stale
    simp at stale
  · next current =>
    rw [not_or, not_not, not_not] at current
    refine ⟨fun same => ⟨not_not.mp home, linked, inside, ?_, Except.ok.inj same⟩, fun h => congrArg Except.ok h.offset⟩
    rw [← current.1, ← current.2]

/-! ### What leaves the directory alone -/

section Keeps

variable {γ : Type} {get : Shared → γ} {owner offset : Nat}

theorem offsetOf_keeps : (offsetOf offset).Keeps get := fun _ => trivial

theorem admitAt_keeps (still : ∀ s m, get { s with members := m } = get s) :
    (admitAt owner offset).Keeps get := by
  intro fault
  show Prog.Keeps get (if fault = 0 then _ else _)
  split
  · exact .bind (.write fun _ => still _ _) fun _ => trivial
  · trivial

theorem closeUnique_keeps (still : ∀ s m, get { s with members := m } = get s) :
    (closeUnique S owner offset).Keeps get :=
  .action fun s => by
    dsimp only
    split
    · exact still _ _
    · rfl

end Keeps

end Evering.Directory
