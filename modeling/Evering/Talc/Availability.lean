import Evering.Talc.Claim

/-!
# Availability

A bin has one bit that says whether it is available, and the summary has one bit for each word of these. The two are changed
together by `toggle_avail`, and `next_avail_bin_idx` goes by the summary where the word of its index has no bit left.
-/

namespace Evering.Talc

open Memory Function

/-- Calls of `set_avail` and `clear_avail` -/
inductive Toggle
  | set (idx : Nat)
  | clear (idx : Nat)

namespace Toggle

def idx : Toggle → Nat
  | set idx => idx
  | clear idx => idx

def shouldBe : Toggle → Bool
  | set _ => true
  | clear _ => false

/-- What should be available afterwards -/
def after (avail : Nat → Bool) (toggle : Toggle) : Nat → Bool := update avail toggle.idx toggle.shouldBe

/-- Both calls flip the bit. -/
def run (T : Target) (st : TalcMeta) (toggle : Toggle) : TalcMeta := st.toggleAvail T toggle.idx

/-- Every toggle is of a bin that is not yet as it should be. -/
def Alternate (G : Geometry) : (Nat → Bool) → List Toggle → Prop
  | _, [] => True
  | avail, toggle :: toggles =>
    (toggle.idx < G.bins ∧ avail toggle.idx ≠ toggle.shouldBe) ∧ Alternate G (toggle.after avail) toggles

end Toggle

variable {T : Target} {G : Geometry} {st : TalcMeta} {avail : Nat → Bool}

/-- The bits say what is available. -/
def Tells (T : Target) (G : Geometry) (st : TalcMeta) (avail : Nat → Bool) : Prop :=
  Marks T.bits (G.availabilityWords T.bits) (fun j => st.mem (st.availPtr T j)) st.summary fun n => n < G.bins ∧ avail n = true

theorem Geometry.words_le (few : G.bins ≤ T.bits * T.bits) : G.availabilityWords T.bits ≤ T.bits := by
  have bits := T.supported
  unfold availabilityWords
  rw [← Nat.lt_succ_iff, Nat.div_lt_iff_lt_mul (by omega), Nat.succ_mul]
  omega

theorem Tells.toggle {toggle : Toggle} (tells : Tells T G st avail) (few : G.bins ≤ T.bits * T.bits) (lt : toggle.idx < G.bins)
    (changes : avail toggle.idx ≠ toggle.shouldBe) : Tells T G (toggle.run T st) (toggle.after avail) := by
  refine marks_toggle ⟨by omega, Geometry.words_le few⟩ lt tells ?_ fun n ne => ?_
  · rw [Toggle.after, update_self]
    cases was : avail toggle.idx <;> cases is : toggle.shouldBe <;> simp_all
  · rw [Toggle.after, update_of_ne ne]

theorem Tells.toggles {toggles : List Toggle} (tells : Tells T G st avail) (few : G.bins ≤ T.bits * T.bits)
    (alternate : Toggle.Alternate G avail toggles) :
    Tells T G (toggles.foldl (Toggle.run T) st) (toggles.foldl Toggle.after avail) := by
  induction toggles generalizing st avail with
  | nil => exact tells
  | cons toggle toggles ih => exact ih (tells.toggle few alternate.1.1 alternate.1.2) alternate.2

/-- **The lookup is exact.** After any toggles that alternate per bin, from empty metadata on: the summary has a bit for the words
that are not zero, and `next_avail_bin_idx` finds the least bin from its index on that is available, or nothing if there is
none. -/
theorem availability_exact (T : Target) (G : Geometry) (mem : Words) (ptr : Nat) (toggles : List Toggle)
    (few : G.bins ≤ T.bits * T.bits) (alternate : Toggle.Alternate G (fun _ => false) toggles) :
    let st := toggles.foldl (Toggle.run T) (claimMetadata T G (.null T mem) ptr).1
    let avail := toggles.foldl Toggle.after fun _ => false
    (∀ j, j < G.availabilityWords T.bits → (st.summary.testBit j = true ↔ st.mem (st.availPtr T j) ≠ 0)) ∧
    ∀ i, match st.nextAvailBinIdx T G i with
      | some n => i ≤ n ∧ n < G.bins ∧ avail n = true ∧ ∀ m, i ≤ m → m < n → avail m = false
      | none => ∀ m, i ≤ m → m < G.bins → avail m = false := by
  intro st avail
  have words := Geometry.words_le few
  have empty : Tells T G (claimMetadata T G (.null T mem) ptr).1 fun _ => false :=
    (claimMetadata_binned (.null T mem) rfl ptr).marks.congr (fun _ => rfl) fun n => by simp
  have tells : Tells T G st avail := empty.toggles few alternate
  refine ⟨fun j lt => (tells.summary j).trans (and_iff_right lt), fun i => ?_⟩
  have least {m : Nat} (ge : i ≤ m) (lt : m < G.bins) (before : ∀ n, st.nextAvailBinIdx T G i = some n → m < n) :
    avail m = false :=
    Bool.eq_false_iff.mpr fun is => nextAvail_least words tells ge lt before ⟨lt, is⟩
  cases next : st.nextAvailBinIdx T G i with
  | none => exact fun m ge lt => least ge lt (by rw [next]; nofun)
  | some n =>
    obtain ⟨ge, lt, is⟩ := nextAvail_marked words tells next
    refine ⟨ge, lt, is, fun m ge' before => least ge' (by omega) fun n' eq => ?_⟩
    cases next.symm.trans eq
    exact before

/-- A bin in the second word, and the last bin of the last word -/
theorem availability_exact_distant :
    let G : Geometry := ⟨192, 64, 0, 6, 3, 0⟩
    let toggles := [Toggle.set 71, .set 191, .clear 71]
    Toggle.Alternate G (fun _ => false) toggles ∧ ∀ mem i, i ≤ 191 → ∃ n,
      (toggles.foldl (Toggle.run ⟨64, .inr rfl⟩) (claimMetadata ⟨64, .inr rfl⟩ G (.null ⟨64, .inr rfl⟩ mem) 0).1).nextAvailBinIdx
        ⟨64, .inr rfl⟩ G i = some n ∧ i ≤ n := by
  intro G toggles
  have alternate : Toggle.Alternate G (fun _ => false) toggles := by
    simp [toggles, G, Toggle.Alternate, Toggle.idx, Toggle.shouldBe,
    Toggle.after, update]
  refine ⟨alternate, fun mem i le => ?_⟩
  have exact_ := (availability_exact ⟨64, .inr rfl⟩ G mem 0 toggles (by decide) alternate).2 i
  split at exact_
  · next n found => exact ⟨n, found, exact_.1⟩
  · have := exact_ 191 le (by decide)
    cases this

end Evering.Talc
