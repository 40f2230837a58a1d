import Mathlib.Data.List.Sort
import Mathlib.Order.Basic

/-!
# Keeping the newest of a list

A list of distinct elements of a linear order, sorted with the greatest first and cut
after `keep` elements.  An element is beyond the cut when at least `keep` others are
greater.
-/

namespace FastTAK.Newest

variable {α : Type} [LinearOrder α]

/-- The elements with the greatest first. -/
def newestFirst (xs : List α) : List α := xs.insertionSort (fun x y => y ≤ x)

/-- The elements beyond the first `keep`. -/
def surplus (keep : ℕ) (xs : List α) : List α := (newestFirst xs).drop keep

theorem perm_newestFirst (xs : List α) : (newestFirst xs).Perm xs :=
  List.perm_insertionSort _ xs

@[simp]
theorem mem_newestFirst {x : α} {xs : List α} : x ∈ newestFirst xs ↔ x ∈ xs :=
  (perm_newestFirst xs).mem_iff

theorem pairwise_newestFirst (xs : List α) :
    (newestFirst xs).Pairwise (fun x y => y ≤ x) :=
  List.pairwise_insertionSort _ xs

theorem mem_of_mem_surplus {keep : ℕ} {x : α} {xs : List α} (hx : x ∈ surplus keep xs) :
    x ∈ xs :=
  mem_newestFirst.mp (List.mem_of_mem_drop hx)

/-- In a strictly falling list, an element is beyond the cut if at least `keep` elements
are greater. -/
theorem mem_drop_iff_of_falling {xs : List α} (hxs : xs.Pairwise (fun x y => y < x))
    {x : α} (hx : x ∈ xs) (keep : ℕ) :
    x ∈ xs.drop keep ↔ keep ≤ xs.countP (fun y => x < y) := by
  induction xs generalizing keep with
  | nil => simp at hx
  | cons y ys ih =>
      obtain ⟨hhead, htail⟩ := List.pairwise_cons.mp hxs
      cases keep with
      | zero => simp [hx]
      | succ keep =>
          rw [List.drop_succ_cons, List.countP_cons]
          rw [List.mem_cons] at hx
          cases hx with
          | inl hsame =>
              subst hsame
              have hnone : ys.countP (fun z => decide (x < z)) = 0 := by
                rw [List.countP_eq_zero]
                intro z hz
                simpa using (hhead z hz).le
              have hout : x ∉ ys.drop keep := fun hmem =>
                lt_irrefl x (hhead x (List.mem_of_mem_drop hmem))
              simp [hnone, hout]
          | inr hrest =>
              have hless : x < y := hhead x hrest
              rw [ih htail hrest keep]
              simp [hless]

theorem falling_newestFirst {xs : List α} (hnodup : xs.Nodup) :
    (newestFirst xs).Pairwise (fun x y => y < x) := by
  have hdistinct : (newestFirst xs).Nodup := (perm_newestFirst xs).nodup_iff.mpr hnodup
  have hboth := (pairwise_newestFirst xs).and hdistinct
  exact hboth.imp (fun hle => lt_of_le_of_ne hle.1 hle.2.symm)

/-- An element is surplus exactly when at least `keep` elements are greater. -/
theorem mem_surplus_iff {xs : List α} (hnodup : xs.Nodup) {x : α} (hx : x ∈ xs)
    (keep : ℕ) : x ∈ surplus keep xs ↔ keep ≤ xs.countP (fun y => x < y) := by
  rw [surplus, mem_drop_iff_of_falling (falling_newestFirst hnodup) (mem_newestFirst.mpr hx),
    (perm_newestFirst xs).countP_eq]

/-- A falling list is sorted already. -/
theorem newestFirst_of_falling {xs : List α} (hxs : xs.Pairwise (fun x y => y < x)) :
    newestFirst xs = xs :=
  List.Pairwise.insertionSort_eq (hxs.imp fun hlt => hlt.le)

/-- Dropping the surplus of a falling list leaves its first elements. -/
theorem filter_surplus_of_falling {β : Type} {key : β → α} {xs : List β}
    (hxs : (xs.map key).Pairwise (fun x y => y < x)) (keep : ℕ) :
    (xs.filter fun x => key x ∉ surplus keep (xs.map key)) = xs.take keep := by
  have hnodup : (xs.map key).Nodup := hxs.imp fun hlt => hlt.ne'
  rw [surplus, newestFirst_of_falling hxs, ← List.map_drop]
  have hdisjoint : ∀ x ∈ xs.take keep, key x ∉ (xs.drop keep).map key := by
    intro x hx hmem
    rw [← List.take_append_drop keep xs, List.map_append, List.nodup_append'] at hnodup
    exact hnodup.2.2 (List.mem_map_of_mem hx) hmem
  have hsurplus : ∀ x ∈ xs.drop keep, ¬ key x ∉ (xs.drop keep).map key :=
    fun x hx hnot => hnot (List.mem_map_of_mem hx)
  calc (xs.filter fun x => key x ∉ (xs.drop keep).map key)
      = (xs.take keep ++ xs.drop keep).filter fun x => key x ∉ (xs.drop keep).map key := by
        rw [List.take_append_drop]
    _ = xs.take keep := by
        rw [List.filter_append, List.filter_eq_self.mpr (by simpa using hdisjoint),
          List.filter_eq_nil_iff.mpr (by simpa using hsurplus), List.append_nil]

/-! ## Stable sorting -/

section Stable

variable {β : Type} {r s : β → β → Prop} [DecidableRel r] [DecidableRel s]

theorem orderedInsert_congr {x : β} {ys : List β} (h : ∀ y ∈ ys, r x y ↔ s x y) :
    ys.orderedInsert r x = ys.orderedInsert s x := by
  induction ys with
  | nil => rfl
  | cons y ys ih =>
      have hhead : r x y ↔ s x y := h y List.mem_cons_self
      rw [List.orderedInsert, List.orderedInsert,
        ih (fun z hz => h z (List.mem_cons_of_mem y hz))]
      by_cases hy : s x y
      · rw [if_pos (hhead.mpr hy), if_pos hy]
      · rw [if_neg (fun hr => hy (hhead.mp hr)), if_neg hy]

/-- A stable sort only compares elements with those that came after them. -/
theorem insertionSort_congr {xs : List β} (h : xs.Pairwise (fun x y => r x y ↔ s x y)) :
    xs.insertionSort r = xs.insertionSort s := by
  induction xs with
  | nil => rfl
  | cons x xs ih =>
      obtain ⟨hhead, htail⟩ := List.pairwise_cons.mp h
      rw [List.insertionSort_cons, List.insertionSort_cons, ih htail]
      apply orderedInsert_congr
      intro y hy
      exact hhead y ((List.mem_insertionSort s).mp hy)

end Stable

end FastTAK.Newest
