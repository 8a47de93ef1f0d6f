import Mathlib.Tactic.Common

/-!
# Tilings of an interval

A list of pieces, each with a lower and an upper end, tiles an interval if every piece begins where the one before it
ends. Pieces that are apart in the list are apart in the interval.
-/

namespace Evering.Memory

open List

variable {α : Type} {lo hi : α → Nat} {a b : Nat} {x y : α} {xs ys : List α}

def Tiles (lo hi : α → Nat) : Nat → List α → Nat → Prop
  | a, [], b => a = b
  | a, x :: xs, b => lo x = a ∧ lo x ≤ hi x ∧ Tiles lo hi (hi x) xs b

theorem tiles_append : Tiles lo hi a (xs ++ ys) b ↔ ∃ c, Tiles lo hi a xs c ∧ Tiles lo hi c ys b := by
  induction xs generalizing a with
  | nil => simp [Tiles]
  | cons x xs ih =>
    simp only [cons_append, Tiles, ih]
    constructor
    · intro ⟨low, le, c, left, right⟩
      exact ⟨c, ⟨low, le, left⟩, right⟩
    · intro ⟨c, ⟨low, le, left⟩, right⟩
      exact ⟨low, le, c, left, right⟩

theorem Tiles.le (tiles : Tiles lo hi a xs b) : a ≤ b := by
  induction xs generalizing a with
  | nil => exact Nat.le_of_eq tiles
  | cons x xs ih =>
    obtain ⟨low, le, rest⟩ := tiles
    have := ih rest
    omega

theorem Tiles.bounds (tiles : Tiles lo hi a xs b) (mem : x ∈ xs) : a ≤ lo x ∧ lo x ≤ hi x ∧ hi x ≤ b := by
  induction xs generalizing a with
  | nil => cases mem
  | cons y xs ih =>
    obtain ⟨low, le, rest⟩ := tiles
    rcases mem_cons.mp mem with here | later
    · subst here
      exact ⟨Nat.le_of_eq low.symm, le, rest.le⟩
    · have := ih rest later
      omega

theorem Tiles.split (tiles : Tiles lo hi a (xs ++ x :: ys) b) :
    Tiles lo hi a xs (lo x) ∧ lo x ≤ hi x ∧ Tiles lo hi (hi x) ys b := by
  obtain ⟨c, left, low, le, right⟩ := tiles_append.mp tiles
  subst low
  exact ⟨left, le, right⟩

theorem Tiles.join (left : Tiles lo hi a xs (lo x)) (le : lo x ≤ hi x) (right : Tiles lo hi (hi x) ys b) :
    Tiles lo hi a (xs ++ x :: ys) b :=
  tiles_append.mpr ⟨lo x, left, rfl, le, right⟩

theorem Tiles.apart (tiles : Tiles lo hi a (xs ++ x :: ys) b) (mem : y ∈ xs ++ ys) : hi y ≤ lo x ∨ hi x ≤ lo y := by
  obtain ⟨left, -, right⟩ := tiles.split
  rcases mem_append.mp mem with before | after
  · exact .inl (left.bounds before).2.2
  · exact .inr (right.bounds after).1

theorem Tiles.disjoint (tiles : Tiles lo hi a xs b) (hx : x ∈ xs) (hy : y ∈ xs) (ne : y ≠ x) : hi y ≤ lo x ∨ hi x ≤ lo y := by
  obtain ⟨before, after, split⟩ := append_of_mem hx
  rw [split] at tiles hy
  refine tiles.apart ?_
  rcases mem_append.mp hy with left | right
  · exact mem_append_left _ left
  · rcases mem_cons.mp right with same | right
    · exact absurd same ne
    · exact mem_append_right _ right

end Evering.Memory
