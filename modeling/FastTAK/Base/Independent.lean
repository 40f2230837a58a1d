import Mathlib

/-!
# Rounds that stay out of each other's way

A loop goes through a list and handles each element in a round of its own, which reads and
changes only what belongs to the key of the element.  Then each element fares as if it were
alone.
-/

namespace FastTAK.Independent

variable {α κ σ β ε : Type}

/-- The loop, with what its rounds put out. -/
def forEach (round : α → σ → List ε × σ) : List α → σ → List ε × σ
  | [], s => ([], s)
  | x :: xs, s =>
      let first := round x s
      let rest := forEach round xs first.2
      (first.1 ++ rest.1, rest.2)

/-- A round reads and changes only what belongs to its key. -/
structure Rounds (key : α → κ) (part : σ → κ → β) (round : α → σ → List ε × σ) : Prop where
  frame : ∀ x s k, k ≠ key x → part (round x s).2 k = part s k
  own : ∀ x s t, part s (key x) = part t (key x) →
    (round x s).1 = (round x t).1 ∧ part (round x s).2 (key x) = part (round x t).2 (key x)

variable {key : α → κ} {part : σ → κ → β} {round : α → σ → List ε × σ}

@[simp]
theorem forEach_nil (s : σ) : forEach round [] s = ([], s) := rfl

theorem forEach_cons (x : α) (xs : List α) (s : σ) :
    forEach round (x :: xs) s =
      ((round x s).1 ++ (forEach round xs (round x s).2).1,
        (forEach round xs (round x s).2).2) := rfl

theorem forEach_congr {round' : α → σ → List ε × σ} {xs : List α}
    (hsame : ∀ x ∈ xs, round x = round' x) (s : σ) :
    forEach round xs s = forEach round' xs s := by
  induction xs generalizing s with
  | nil => rfl
  | cons x xs ih =>
      rw [forEach_cons, forEach_cons, hsame x List.mem_cons_self,
        ih fun y hy => hsame y (List.mem_cons_of_mem x hy)]

section Rounds

variable (h : Rounds key part round)

include h

/-- What belongs to no element is left alone. -/
theorem part_forEach_of_notMem {xs : List α} {k : κ} (hk : k ∉ xs.map key) (s : σ) :
    part (forEach round xs s).2 k = part s k := by
  induction xs generalizing s with
  | nil => rfl
  | cons x xs ih =>
      rw [List.map_cons, List.mem_cons, not_or] at hk
      rw [forEach_cons, ih hk.2, h.frame x s k hk.1]

/-- Each element fares as if it were alone. -/
theorem part_forEach {xs : List α} (hnodup : (xs.map key).Nodup) {x : α} (hx : x ∈ xs) (s : σ) :
    part (forEach round xs s).2 (key x) = part (round x s).2 (key x) := by
  induction xs generalizing s with
  | nil => cases hx
  | cons y ys ih =>
      rw [List.map_cons, List.nodup_cons] at hnodup
      rw [forEach_cons]
      rcases List.mem_cons.mp hx with rfl | hx
      · exact part_forEach_of_notMem h hnodup.1 _
      · have hne : key x ≠ key y := by
          intro heq
          exact hnodup.1 (heq ▸ List.mem_map_of_mem hx)
        have hsame := h.frame y s (key x) hne
        exact (ih hnodup.2 hx _).trans (h.own x _ s hsame).2

/-- The loop puts out what its elements would put out alone. -/
theorem mem_forEach_iff {xs : List α} (hnodup : (xs.map key).Nodup) (s : σ) (e : ε) :
    e ∈ (forEach round xs s).1 ↔ ∃ x ∈ xs, e ∈ (round x s).1 := by
  induction xs generalizing s with
  | nil => simp
  | cons y ys ih =>
      rw [List.map_cons, List.nodup_cons] at hnodup
      rw [forEach_cons, List.mem_append, ih hnodup.2, List.exists_mem_cons_iff]
      apply or_congr_right
      apply exists_congr
      intro x
      apply and_congr_right
      intro hx
      have hne : key x ≠ key y := by
        intro heq
        exact hnodup.1 (heq ▸ List.mem_map_of_mem hx)
      rw [(h.own x _ s (h.frame y s (key x) hne)).1]

end Rounds

end FastTAK.Independent
