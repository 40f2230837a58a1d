import Mathlib

/-!
# `sort -u` and `comm`

Two sorted lists are compared from the front.  What is left of each are its elements that the
other does not have.
-/

namespace FastTAK.Comm

variable {α : Type} [LinearOrder α]

/-- `sort -u`. -/
def sortUnique (xs : List α) : List α := xs.dedup.insertionSort (· ≤ ·)

/-- The columns of `comm` for one list only, and for the other only. -/
def comm : List α → List α → List α × List α
  | [], ys => ([], ys)
  | xs, [] => (xs, [])
  | x :: xs, y :: ys =>
      if x < y then (x :: (comm xs (y :: ys)).1, (comm xs (y :: ys)).2)
      else if y < x then ((comm (x :: xs) ys).1, y :: (comm (x :: xs) ys).2)
      else comm xs ys
termination_by xs ys => xs.length + ys.length

section Comm

variable {xs ys : List α} {x y : α}

theorem mem_sortUnique : x ∈ sortUnique xs ↔ x ∈ xs := by
  rw [sortUnique, List.mem_insertionSort, List.mem_dedup]

theorem pairwise_sortUnique (xs : List α) : (sortUnique xs).Pairwise (· < ·) := by
  have hsorted := List.pairwise_insertionSort (· ≤ ·) xs.dedup
  have hnodup : (sortUnique xs).Nodup :=
    (List.perm_insertionSort (· ≤ ·) xs.dedup).nodup_iff.mpr (List.nodup_dedup xs)
  exact (hsorted.and hnodup).imp fun h => lt_of_le_of_ne h.1 h.2

/-- Sorted lists without repetition are what they contain. -/
theorem eq_of_pairwise (hxs : xs.Pairwise (· < ·)) (hys : ys.Pairwise (· < ·))
    (h : ∀ x, x ∈ xs ↔ x ∈ ys) : xs = ys := by
  have hperm := (List.perm_ext_iff_of_nodup (hxs.imp ne_of_lt) (hys.imp ne_of_lt)).mpr h
  exact hperm.eq_of_pairwise (fun a b _ _ hab hba => absurd hba hab.asymm) hxs hys

theorem not_mem_of_lt (hys : (y :: ys).Pairwise (· < ·)) (h : x < y) : x ∉ y :: ys := by
  rw [List.mem_cons, not_or]
  exact ⟨h.ne, fun hx => ((List.pairwise_cons.mp hys).1 x hx).asymm h⟩

/-- The columns are the differences of the lists. -/
theorem comm_eq (hxs : xs.Pairwise (· < ·)) (hys : ys.Pairwise (· < ·)) :
    comm xs ys = (xs.filter fun x => x ∉ ys, ys.filter fun y => y ∉ xs) := by
  induction xs, ys using comm.induct with
  | case1 ys => simp [comm]
  | case2 xs hne => simp [comm]
  | case3 x xs y ys hlt ih =>
      have hrest := ih (List.pairwise_cons.mp hxs).2 hys
      have hx := not_mem_of_lt hys hlt
      have hsame : (y :: ys).filter (fun z => z ∉ x :: xs) = (y :: ys).filter fun z => z ∉ xs := by
        apply List.filter_congr
        intro z hz
        have hne : z ≠ x := fun heq => hx (heq ▸ hz)
        simp [hne]
      have hkeep : (x :: xs).filter (fun z => z ∉ y :: ys) =
          x :: xs.filter fun z => z ∉ y :: ys := List.filter_cons_of_pos (decide_eq_true hx)
      rw [comm, if_pos hlt, hrest, hsame, hkeep]
  | case4 x xs y ys hlt hgt ih =>
      have hrest := ih hxs (List.pairwise_cons.mp hys).2
      have hy := not_mem_of_lt hxs hgt
      have hsame : (x :: xs).filter (fun z => z ∉ y :: ys) = (x :: xs).filter fun z => z ∉ ys := by
        apply List.filter_congr
        intro z hz
        have hne : z ≠ y := fun heq => hy (heq ▸ hz)
        simp [hne]
      have hkeep : (y :: ys).filter (fun z => z ∉ x :: xs) =
          y :: ys.filter fun z => z ∉ x :: xs := List.filter_cons_of_pos (decide_eq_true hy)
      rw [comm, if_neg hlt, if_pos hgt, hrest, hsame, hkeep]
  | case5 x xs y ys hlt hgt ih =>
      obtain rfl : x = y := le_antisymm (not_lt.mp hgt) (not_lt.mp hlt)
      obtain ⟨hfirst, hxs⟩ := List.pairwise_cons.mp hxs
      obtain ⟨hfirst', hys⟩ := List.pairwise_cons.mp hys
      have hsame : ∀ {zs us : List α}, (∀ z ∈ zs, x < z) →
          zs.filter (fun z => z ∉ x :: us) = zs.filter fun z => z ∉ us := by
        intro zs us hzs
        apply List.filter_congr
        intro z hz
        simp [(hzs z hz).ne']
      rw [comm, if_neg hlt, if_neg hgt, ih hxs hys, List.filter_cons_of_neg (by simp),
        List.filter_cons_of_neg (by simp), hsame hfirst, hsame hfirst']

end Comm

end FastTAK.Comm
