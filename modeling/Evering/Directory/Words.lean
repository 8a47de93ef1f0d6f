import Evering.Target
import Evering.Word.Bits

/-!
# Words of the directory and of the heap

The transaction word, the state word of an entry and the mutation word of the heap are kept as the values that
they stand for. Each packing is injective, so that a compare-and-exchange decides the same on the words and on
the values.
-/

namespace Evering.Directory

open Word

inductive Phase
  | held
  | evidence
  | rollingBack
  deriving DecidableEq, Repr

def Phase.code : Phase → Nat
  | held => 1
  | evidence => 2
  | rollingBack => 3

/-- The transaction word: `CLEAN`, or its owner and phase. -/
inductive Txn
  | clean
  | owned (owner : Nat) (phase : Phase)
  deriving DecidableEq, Repr

def Txn.word : Txn → Nat
  | clean => 0
  | owned owner phase => (owner + 1) <<< 2 ||| phase.code

def Txn.wordOwner : Txn → Option Nat
  | clean => none
  | owned owner _ => some owner

inductive EntryState
  | vacant
  | pending
  | published
  | closing
  | removing
  | released
  | quarantined
  deriving DecidableEq, Repr

def EntryState.code : EntryState → Nat
  | vacant => 0
  | pending => 1
  | published => 2
  | closing => 3
  | removing => 4
  | released => 5
  | quarantined => 6

structure EntryWord where
  generation : Nat
  state : EntryState
  deriving DecidableEq, Repr

def EntryWord.word (w : EntryWord) : Nat :=
  w.generation <<< 3 ||| w.state.code

def generationMax (target : Target) : Nat :=
  2 ^ (target.bits - 3) - 1

inductive Mutation
  | clean
  | owned (owner : Nat)
  | poisoned
  deriving DecidableEq, Repr

def Mutation.word (target : Target) : Mutation → Nat
  | clean => 0
  | owned owner => owner + 1
  | poisoned => 2 ^ target.bits - 1

theorem Txn.word_injective : Function.Injective Txn.word := by
  have code_lt (phase : Phase) : 0 < phase.code ∧ phase.code < 2 ^ 2 := by
    cases phase <;> decide
  have word_eq (p : Nat) (phase : Phase) : (owned p phase).word = (p + 1) * 2 ^ 2 + phase.code :=
    shiftLeft_or _ (code_lt phase).2
  intro x y h
  cases x with
  | clean =>
    cases y with
    | clean => rfl
    | owned q phase =>
      rw [word_eq, word] at h
      omega
  | owned p phase =>
    cases y with
    | clean =>
      rw [word_eq, word] at h
      omega
    | owned q phase' =>
      rw [word_eq, word_eq] at h
      have := code_lt phase
      have := code_lt phase'
      obtain rfl : p = q := by omega
      have same : phase.code = phase'.code := by omega
      cases phase <;> cases phase' <;> first | rfl | cases same

theorem EntryWord.word_injective : Function.Injective EntryWord.word := by
  have code_lt (state : EntryState) : state.code < 2 ^ 3 := by
    cases state <;> decide
  have word_eq (w : EntryWord) : w.word = w.generation * 2 ^ 3 + w.state.code := shiftLeft_or _ (code_lt w.state)
  rintro ⟨g, state⟩ ⟨g', state'⟩ h
  rw [word_eq, word_eq] at h
  have := code_lt state
  have := code_lt state'
  simp only at h
  obtain rfl : g = g' := by omega
  have same : state.code = state'.code := by omega
  cases state <;> cases state' <;> first | rfl | cases same

/-- A state word fits the word of the target as long as its generation is not beyond the last one. -/
theorem EntryWord.word_lt (target : Target) {w : EntryWord} (h : w.generation ≤ generationMax target) :
    w.word < 2 ^ target.bits := by
  have code_lt : w.state.code < 2 ^ 3 := by
    cases w.state <;> decide
  have width : 2 ^ target.bits = 2 ^ (target.bits - 3) * 2 ^ 3 := by
    rw [← Nat.pow_add]
    congr 1
    have := target.supported
    omega
  have positive : 0 < 2 ^ (target.bits - 3) := Nat.two_pow_pos _
  rw [word, shiftLeft_or _ code_lt, width]
  unfold generationMax at h
  omega

end Evering.Directory
