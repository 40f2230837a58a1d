import Mathlib.Data.List.Perm.Basic
import Mathlib.Order.Lattice
import Mathlib.Order.MinMax

/-!
# The first of the greatest

A loop that replaces what it holds only by something that ranks higher ends with the first of
the elements of greatest rank.
-/

namespace FastTAK.Worst

variable {α β : Type} [LinearOrder α]

/-- The greatest of the ranks, with a least rank if there are none. -/
def greatest (bottom : α) (ranks : List α) : α := ranks.foldl max bottom

theorem greatest_cons (bottom rank : α) (ranks : List α) :
    greatest bottom (rank :: ranks) = greatest (max bottom rank) ranks := rfl

theorem greatest_perm {ranks ranks' : List α} (h : ranks.Perm ranks') (bottom : α) :
    greatest bottom ranks = greatest bottom ranks' := h.foldl_eq bottom

theorem greatest_le_iff {bottom bound : α} {ranks : List α} :
    greatest bottom ranks ≤ bound ↔ bottom ≤ bound ∧ ∀ rank ∈ ranks, rank ≤ bound := by
  induction ranks generalizing bottom with
  | nil => simp [greatest]
  | cons rank ranks ih => rw [greatest_cons, ih, max_le_iff, List.forall_mem_cons, and_assoc]

theorem le_greatest_iff {bottom bound : α} {ranks : List α} :
    bound ≤ greatest bottom ranks ↔ bound ≤ bottom ∨ ∃ rank ∈ ranks, bound ≤ rank := by
  induction ranks generalizing bottom with
  | nil => simp [greatest]
  | cons rank ranks ih => rw [greatest_cons, ih, le_max_iff, List.exists_mem_cons_iff, or_assoc]

section Keep

variable (rank : β → α)

/-- One round of the loop. -/
def keepWorse (worst x : β) : β := if rank worst < rank x then x else worst

theorem rank_keepWorse (worst x : β) :
    rank (keepWorse rank worst x) = max (rank worst) (rank x) := by
  rw [keepWorse]
  split_ifs with hless
  · rw [max_eq_right hless.le]
  · rw [max_eq_left (not_lt.mp hless)]

/-- The loop ends with the greatest rank. -/
theorem rank_foldl_keepWorse (worst : β) (xs : List β) :
    rank (xs.foldl (keepWorse rank) worst) = greatest (rank worst) (xs.map rank) := by
  induction xs generalizing worst with
  | nil => rfl
  | cons x xs ih => rw [List.foldl_cons, ih, rank_keepWorse rank, List.map_cons, greatest_cons]

/-- What the loop holds in the end was there before or is a worse element. -/
theorem foldl_keepWorse_mem (worst : β) (xs : List β) :
    xs.foldl (keepWorse rank) worst = worst ∨ xs.foldl (keepWorse rank) worst ∈ xs ∧
      rank worst < rank (xs.foldl (keepWorse rank) worst) := by
  induction xs generalizing worst with
  | nil => exact .inl rfl
  | cons x xs ih =>
      rw [List.foldl_cons]
      cases ih (keepWorse rank worst x) with
      | inr hmem =>
          apply Or.inr
          use List.mem_cons_of_mem x hmem.1
          apply lt_of_le_of_lt _ hmem.2
          rw [rank_keepWorse rank]
          exact le_max_left _ _
      | inl hsame =>
          rw [hsame, keepWorse]
          split_ifs with hless
          · exact .inr ⟨List.mem_cons_self, hless⟩
          · exact .inl rfl

end Keep

end FastTAK.Worst
