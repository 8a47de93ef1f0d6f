import Mathlib.Data.List.Pairwise
import Mathlib.Logic.Function.Basic
import Mathlib.Tactic.Common

/-!
# Intrusive lists in a memory of words

A memory is a function from offsets to words; neighbouring words are `w` apart. A nullable link is a cell of two words,
of which the first says whether there is a target. A node is such a cell, its link to the next node, followed by one
word that holds the offset of the cell that points to the node: the root of the list or the node before. So nodes are
linked and unlinked without a look at the root.
-/

namespace Evering.Memory

open Function List

abbrev Words := Nat → Nat

variable {w : Nat} {m m' : Words} {cell x : Nat} {xs ys zs : List Nat}

/-! ### Links -/

def readLink (w : Nat) (m : Words) (cell : Nat) : Option Nat :=
  if m cell = 0 then none else some (m (cell + w))

def writeLink (w : Nat) (m : Words) (cell : Nat) : Option Nat → Words
  | none => update m cell 0
  | some x => update (update m cell 1) (cell + w) x

theorem readLink_writeLink (pos : 0 < w) (link : Option Nat) : readLink w (writeLink w m cell link) cell = link := by
  cases link with
  | none => simp [readLink, writeLink]
  | some x =>
    have ne : cell ≠ cell + w := by omega
    simp [readLink, writeLink, update_of_ne ne]

theorem writeLink_of_ne {link : Option Nat} {o : Nat} (ne : o ≠ cell) (ne' : o ≠ cell + w) :
    writeLink w m cell link o = m o := by
  cases link with
  | none => rw [writeLink, update_of_ne ne]
  | some x => rw [writeLink, update_of_ne ne', update_of_ne ne]

theorem readLink_congr (first : m' cell = m cell) (second : m' (cell + w) = m (cell + w)) :
    readLink w m' cell = readLink w m cell := by
  rw [readLink, readLink, first, second]

/-! ### Lists -/

/-- The cell is the root of a list with these nodes. -/
def Linked (w : Nat) (m : Words) : Nat → List Nat → Prop
  | cell, [] => readLink w m cell = none
  | cell, x :: xs => readLink w m cell = some x ∧ m (x + 2 * w) = cell ∧ Linked w m x xs

theorem Linked.root (linked : Linked w m cell xs) : readLink w m cell = xs.head? := by
  cases xs with
  | nil => exact linked
  | cons x xs => exact linked.1

theorem Linked.back (linked : Linked w m cell (x :: xs)) : m (x + 2 * w) = cell := linked.2.1

/-- The root and the nodes do not overlap. -/
def Spaced (w cell : Nat) (xs : List Nat) : Prop :=
  (∀ x ∈ xs, cell + 2 * w ≤ x ∨ x + 3 * w ≤ cell) ∧
    xs.Pairwise fun x y => x + 3 * w ≤ y ∨ y + 3 * w ≤ x

theorem Spaced.tail (spaced : Spaced w cell (x :: xs)) : Spaced w x xs := by
  obtain ⟨apart, rest⟩ := pairwise_cons.mp spaced.2
  refine ⟨fun y mem => ?_, rest⟩
  have := apart y mem
  omega

theorem nodes_apart (nodes : xs.Pairwise fun x y => x + 3 * w ≤ y ∨ y + 3 * w ≤ x) {y z : Nat} (hy : y ∈ xs)
    (hz : z ∈ xs) : z = y ∨ z + 3 * w ≤ y ∨ y + 3 * w ≤ z := by
  by_cases same : z = y
  · exact .inl same
  · have : Std.Symm fun x y => x + 3 * w ≤ y ∨ y + 3 * w ≤ x := ⟨fun _ _ h => h.symm⟩
    exact .inr (nodes.forall hz hy same)

theorem Linked.before (linked : Linked w m cell (ys ++ x :: zs)) : m (x + 2 * w) = cell ∨ m (x + 2 * w) ∈ ys := by
  induction ys generalizing cell with
  | nil => exact .inl linked.back
  | cons y ys ih =>
    rcases ih linked.2.2 with same | mem
    · exact .inr (same ▸ mem_cons_self ..)
    · exact .inr (mem_cons_of_mem y mem)

theorem Linked.next (linked : Linked w m cell (ys ++ x :: zs)) : readLink w m x = zs.head? := by
  induction ys generalizing cell with
  | nil => exact linked.2.2.root
  | cons y ys ih => exact ih linked.2.2

theorem Linked.frame (linked : Linked w m cell xs) (root : readLink w m' cell = readLink w m cell)
    (nodes : ∀ x ∈ xs, readLink w m' x = readLink w m x ∧ m' (x + 2 * w) = m (x + 2 * w)) : Linked w m' cell xs := by
  induction xs generalizing cell with
  | nil => exact root.trans linked
  | cons x xs ih =>
    obtain ⟨head, back, rest⟩ := linked
    obtain ⟨link, word⟩ := nodes x (mem_cons_self ..)
    exact ⟨root.trans head, word.trans back, ih rest link fun y mem => nodes y (mem_cons_of_mem x mem)⟩

theorem Linked.reroot {cell' : Nat} (linked : Linked w m cell xs) (root : readLink w m' cell' = xs.head?)
    (first : ∀ x, xs.head? = some x → m' (x + 2 * w) = cell') (links : ∀ x ∈ xs, readLink w m' x = readLink w m x)
    (backs : ∀ x ∈ xs.tail, m' (x + 2 * w) = m (x + 2 * w)) : Linked w m' cell' xs := by
  cases xs with
  | nil => exact root
  | cons x xs =>
    refine ⟨root, first x rfl, linked.2.2.frame (links x (mem_cons_self ..)) fun y mem => ?_⟩
    exact ⟨links y (mem_cons_of_mem x mem), backs y mem⟩

/-! ### Linking and unlinking -/

/-- The word that points back to a node's predecessor, if there is a node. -/
def writeBack (w : Nat) (m : Words) (node : Option Nat) (cell : Nat) : Words :=
  match node with
  | none => m
  | some x => update m (x + 2 * w) cell

theorem writeBack_of_ne {node : Option Nat} {o : Nat} (ne : ∀ x, node = some x → o ≠ x + 2 * w) :
    writeBack w m node cell o = m o := by
  cases node with
  | none => rfl
  | some x => rw [writeBack, update_of_ne (ne x rfl)]

theorem writeBack_self (node : Nat) : writeBack w m (some node) cell (node + 2 * w) = cell :=
  update_self ..

/-- A node becomes the first one of the list at `cell`. -/
def link (w : Nat) (m : Words) (node : Nat) (next : Option Nat) (cell : Nat) : Words :=
  writeBack w
    (writeLink w (update (writeLink w m node next) (node + 2 * w) cell) cell (some node)) next node

def unlink (w : Nat) (m : Words) (node : Nat) : Words :=
  let next := readLink w m node
  writeBack w (writeLink w m (m (node + 2 * w)) next) next (m (node + 2 * w))

theorem link_of_ne {next : Option Nat} {node o : Nat} (node₀ : o ≠ node) (node₁ : o ≠ node + w)
    (node₂ : o ≠ node + 2 * w) (cell₀ : o ≠ cell) (cell₁ : o ≠ cell + w) (ne : ∀ x, next = some x → o ≠ x + 2 * w) :
    link w m node next cell o = m o := by
  rw [link, writeBack_of_ne ne, writeLink_of_ne cell₀ cell₁, update_of_ne node₂, writeLink_of_ne node₀ node₁]

theorem unlink_of_ne {node o : Nat} (cell₀ : o ≠ m (node + 2 * w)) (cell₁ : o ≠ m (node + 2 * w) + w)
    (ne : ∀ x, readLink w m node = some x → o ≠ x + 2 * w) : unlink w m node o = m o := by
  rw [unlink, writeBack_of_ne ne, writeLink_of_ne cell₀ cell₁]

theorem Linked.link (pos : 0 < w) (linked : Linked w m cell xs) (spaced : Spaced w cell (x :: xs)) :
    Linked w (link w m x xs.head? cell) cell (x :: xs) := by
  obtain ⟨apart, rest⟩ := pairwise_cons.mp spaced.2
  have root := spaced.1 x (mem_cons_self ..)
  have heads : ∀ y, xs.head? = some y → y ∈ xs := fun y => mem_of_mem_head?
  -- the only words that change are those of the node, of the root, and the word of the first node that points back
  have kept : ∀ o, o ≠ x → o ≠ x + w → o ≠ x + 2 * w → o ≠ cell → o ≠ cell + w →
      (∀ y, xs.head? = some y → o ≠ y + 2 * w) → Memory.link w m x xs.head? cell o = m o :=
    fun o h₀ h₁ h₂ h₃ h₄ h₅ => link_of_ne h₀ h₁ h₂ h₃ h₄ h₅
  refine ⟨?_, ?_, ?_⟩
  · rw [Memory.link, readLink_congr (writeBack_of_ne ?_) (writeBack_of_ne ?_), readLink_writeLink pos]
    all_goals
      intro y head
      have := spaced.1 y (mem_cons_of_mem x (heads y head))
      omega
  · rw [Memory.link, writeBack_of_ne, writeLink_of_ne (by omega) (by omega), update_self]
    intro y head
    have := apart y (heads y head)
    omega
  · refine linked.reroot ?_ ?_ ?_ ?_
    · rw [Memory.link, readLink_congr (writeBack_of_ne ?_) (writeBack_of_ne ?_),
        readLink_congr (writeLink_of_ne (by omega) (by omega)) (writeLink_of_ne (by omega) (by omega)),
        readLink_congr (update_of_ne (by omega) ..) (update_of_ne (by omega) ..),
        readLink_writeLink pos]
      all_goals
        intro y head
        have := apart y (heads y head)
        omega
    · intro y head
      rw [Memory.link, head, writeBack_self]
    · intro y mem
      have := apart y mem
      have := spaced.1 y (mem_cons_of_mem x mem)
      have others : ∀ z, xs.head? = some z → z = y ∨ z + 3 * w ≤ y ∨ y + 3 * w ≤ z :=
        fun z head => nodes_apart rest mem (heads z head)
      refine readLink_congr (kept _ ?_ ?_ ?_ ?_ ?_ fun z head => ?_) (kept _ ?_ ?_ ?_ ?_ ?_ fun z head => ?_)
      all_goals first
        | omega
        | exact (by have := others z head; omega)
    · intro y mem
      have mem' : y ∈ xs := mem_of_mem_tail mem
      have := apart y mem'
      have := spaced.1 y (mem_cons_of_mem x mem')
      refine kept _ (by omega) (by omega) (by omega) (by omega) (by omega) fun z head => ?_
      cases xs with
      | nil => cases head
      | cons z' xs =>
        obtain rfl : z' = z := Option.some.inj head
        have := (pairwise_cons.mp rest).1 y mem
        omega

theorem Linked.unlink (pos : 0 < w) (linked : Linked w m cell (ys ++ x :: zs)) (spaced : Spaced w cell (ys ++ x :: zs)) :
    Linked w (unlink w m x) cell (ys ++ zs) := by
  induction ys generalizing cell with
  | nil =>
    obtain ⟨-, back, rest⟩ := linked
    obtain ⟨apart, nodes⟩ := pairwise_cons.mp spaced.2
    have root := spaced.1 x (mem_cons_self ..)
    have heads : ∀ y, zs.head? = some y → y ∈ zs := fun y => mem_of_mem_head?
    have next : readLink w m x = zs.head? := rest.root
    refine rest.reroot ?_ ?_ ?_ ?_
    · rw [Memory.unlink, back, next, readLink_congr (writeBack_of_ne ?_) (writeBack_of_ne ?_), readLink_writeLink pos]
      all_goals
        intro y head
        have := spaced.1 y (mem_cons_of_mem x (heads y head))
        omega
    · intro y head
      rw [Memory.unlink, back, next, head, writeBack_self]
    · intro y mem
      have := spaced.1 y (mem_cons_of_mem x mem)
      have others : ∀ z, zs.head? = some z → z = y ∨ z + 3 * w ≤ y ∨ y + 3 * w ≤ z :=
        fun z head => nodes_apart nodes mem (heads z head)
      refine readLink_congr (unlink_of_ne ?_ ?_ ?_) (unlink_of_ne ?_ ?_ ?_)
      all_goals
        simp only [back, next]
        first
          | omega
          | (intro z head
             have := others z head
             omega)
    · intro y mem
      have mem' : y ∈ zs := mem_of_mem_tail mem
      have := spaced.1 y (mem_cons_of_mem x mem')
      refine unlink_of_ne (by rw [back]; omega) (by rw [back]; omega) ?_
      rw [next]
      intro z head
      cases zs with
      | nil => cases head
      | cons z' zs =>
        obtain rfl : z' = z := Option.some.inj head
        have := (pairwise_cons.mp nodes).1 y mem
        omega
  | cons y ys ih =>
    obtain ⟨head, back, rest⟩ := linked
    have tail : Spaced w y (ys ++ x :: zs) := spaced.tail
    obtain ⟨apart, nodes⟩ := pairwise_cons.mp spaced.2
    have root := spaced.1 y (mem_cons_self ..)
    have before := rest.before
    have after : ∀ z, readLink w m x = some z → z ∈ ys ++ x :: zs := by
      intro z link
      rw [rest.next] at link
      exact mem_append_right _ (mem_cons_of_mem x (mem_of_mem_head? link))
    have cells : m (x + 2 * w) = y ∨ y + 3 * w ≤ m (x + 2 * w) ∨ m (x + 2 * w) + 3 * w ≤ y := by
      rcases before with same | mem
      · exact .inl same
      · exact .inr (apart _ (mem_append_left _ mem))
    have root' : cell + 2 * w ≤ m (x + 2 * w) ∨ m (x + 2 * w) + 3 * w ≤ cell := by
      rcases before with same | mem
      · rw [same]
        exact root
      · exact spaced.1 _ (mem_cons_of_mem y (mem_append_left _ mem))
    refine ⟨?_, ?_, ih rest tail⟩
    · rw [readLink_congr (unlink_of_ne ?_ ?_ ?_) (unlink_of_ne ?_ ?_ ?_)]
      · exact head
      all_goals first
        | omega
        | (intro z link
           have := spaced.1 z (mem_cons_of_mem y (after z link))
           omega)
    · rw [unlink_of_ne]
      · exact back
      · omega
      · omega
      · intro z link
        have := apart z (after z link)
        omega

end Evering.Memory
