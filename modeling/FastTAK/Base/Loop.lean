import Mathlib.Data.List.Forall2
import Mathlib.Data.Option.Basic
import Mathlib.Order.Basic

/-!
# Loops that may stop

A loop over a list whose rounds may fail, with an accumulator that only grows.
-/

namespace FastTAK.Loop

variable {σ α ρ : Type}

/-- The loop ends if no round fails. -/
theorem foldlM_isSome {step : σ → α → Option σ} {xs : List α}
    (hstep : ∀ s, ∀ x ∈ xs, (step s x).isSome) (s : σ) : (xs.foldlM step s).isSome := by
  induction xs generalizing s with
  | nil => rfl
  | cons x xs ih =>
      obtain ⟨s', hs'⟩ := Option.isSome_iff_exists.mp (hstep s x (by simp))
      rw [List.foldlM_cons, hs']
      apply ih
      intro s₁ y hy
      exact hstep s₁ y (List.mem_cons_of_mem _ hy)

/-- What every round keeps holds in the end. -/
theorem keeps_of_foldlM {keeps : σ → Prop} {step : σ → α → Option σ} {xs : List α}
    (hstep : ∀ s, ∀ x ∈ xs, ∀ s', keeps s → step s x = some s' → keeps s') {s s' : σ}
    (hs : keeps s) (hloop : xs.foldlM step s = some s') : keeps s' := by
  induction xs generalizing s with
  | nil =>
      obtain rfl := Option.some.inj hloop
      exact hs
  | cons x xs ih =>
      rw [List.foldlM_cons] at hloop
      obtain ⟨next, hround, hrest⟩ := Option.bind_eq_some_iff.mp hloop
      apply ih _ (hstep s x List.mem_cons_self next hs hround) hrest
      intro s₁ y hy
      exact hstep s₁ y (List.mem_cons_of_mem x hy)

/-- A list of answers, all of which there are. -/
theorem mapM_cons_eq_some {β : Type} {f : α → Option β} {x : α} {xs : List α} {ys : List β} :
    (x :: xs).mapM f = some ys ↔
      ∃ y others, f x = some y ∧ xs.mapM f = some others ∧ ys = y :: others := by
  rw [List.mapM_cons]
  constructor
  · intro h
    obtain ⟨y, hy, hrest⟩ := Option.bind_eq_some_iff.mp h
    obtain ⟨others, hothers, hreturn⟩ := Option.bind_eq_some_iff.mp hrest
    exact ⟨y, others, hy, hothers, (Option.some.inj hreturn).symm⟩
  · intro h
    obtain ⟨y, others, hy, hothers, rfl⟩ := h
    rw [hy, hothers]
    rfl

theorem filterMap_of_mapM {β : Type} {f : α → Option β} {xs : List α} {ys : List β}
    (h : xs.mapM f = some ys) : xs.filterMap f = ys := by
  induction xs generalizing ys with
  | nil => exact Option.some.inj h
  | cons x xs ih =>
      obtain ⟨y, others, hy, hothers, rfl⟩ := mapM_cons_eq_some.mp h
      rw [List.filterMap_cons_some hy, ih hothers]

/-- One answer for each element, made from another. -/
theorem mapM_of_mapM {β γ : Type} {f : α → Option β} {f' : α → Option γ} {g : β → γ}
    {xs : List α} {ys : List β} (h : xs.mapM f = some ys)
    (hmade : ∀ x ∈ xs, f' x = (f x).map g) : xs.mapM f' = some (ys.map g) := by
  induction xs generalizing ys with
  | nil =>
      obtain rfl := Option.some.inj h
      rfl
  | cons x xs ih =>
      obtain ⟨y, others, hy, hothers, rfl⟩ := mapM_cons_eq_some.mp h
      apply mapM_cons_eq_some.mpr
      refine ⟨g y, others.map g, ?_, ?_, rfl⟩
      · rw [hmade x List.mem_cons_self, hy, Option.map_some]
      · exact ih hothers (fun x' hx' => hmade x' (List.mem_cons_of_mem x hx'))

/-- What is the same of each answer and of what it was made from. -/
theorem map_of_mapM {β γ : Type} {f : α → Option β} {g : β → γ} {k : α → γ} {xs : List α}
    {ys : List β} (h : xs.mapM f = some ys) (hsame : ∀ x y, f x = some y → g y = k x) :
    ys.map g = xs.map k := by
  induction xs generalizing ys with
  | nil =>
      obtain rfl := Option.some.inj h
      rfl
  | cons x xs ih =>
      obtain ⟨y, others, hy, hothers, rfl⟩ := mapM_cons_eq_some.mp h
      rw [List.map_cons, List.map_cons, hsame x y hy, ih hothers]

theorem all_of_mapM {β : Type} {f : α → Option β} {p : β → Bool} {q : α → Bool} {xs : List α}
    {ys : List β} (h : xs.mapM f = some ys) (hsame : ∀ x y, f x = some y → p y = q x) :
    ys.all p = xs.all q :=
  calc
    ys.all p = (ys.map p).all id := by rw [List.all_map]; rfl
    _ = (xs.map q).all id := by rw [map_of_mapM h hsame]
    _ = xs.all q := by rw [List.all_map]; rfl

theorem mapM_eq_self {f : α → Option α} {xs : List α} (h : ∀ x ∈ xs, f x = some x) :
    xs.mapM f = some xs := by
  induction xs with
  | nil => rfl
  | cons x xs ih =>
      apply mapM_cons_eq_some.mpr
      exact ⟨x, xs, h x List.mem_cons_self, ih (fun y hy => h y (List.mem_cons_of_mem x hy)), rfl⟩

/-- Answers stand where their elements do. -/
theorem getElem?_of_mapM {β : Type} {f : α → Option β} {xs : List α} {ys : List β}
    (h : xs.mapM f = some ys) (i : ℕ) : xs[i]? = none ∧ ys[i]? = none ∨
      ∃ x y, xs[i]? = some x ∧ ys[i]? = some y ∧ f x = some y := by
  induction xs generalizing ys i with
  | nil =>
      obtain rfl := Option.some.inj h
      exact .inl ⟨rfl, rfl⟩
  | cons x xs ih =>
      obtain ⟨y, others, hy, hothers, rfl⟩ := mapM_cons_eq_some.mp h
      cases i with
      | zero => exact .inr ⟨x, y, rfl, rfl, hy⟩
      | succ i => exact ih hothers i

theorem mapM_congr {β γ : Type} {f : α → Option γ} {g : β → Option γ} {xs : List α} {ys : List β}
    (h : List.Forall₂ (fun x y => f x = g y) xs ys) : xs.mapM f = ys.mapM g := by
  induction h with
  | nil => rfl
  | cons hsame _ ih => rw [List.mapM_cons, List.mapM_cons, hsame, ih]

theorem mapM_isSome {β : Type} {f : α → Option β} {xs : List α}
    (h : ∀ x ∈ xs, (f x).isSome) : (xs.mapM f).isSome := by
  induction xs with
  | nil => rfl
  | cons x xs ih =>
      obtain ⟨y, hy⟩ := Option.isSome_iff_exists.mp (h x List.mem_cons_self)
      obtain ⟨ys, hys⟩ := Option.isSome_iff_exists.mp
        (ih (fun x' hx' => h x' (List.mem_cons_of_mem x hx')))
      rw [mapM_cons_eq_some.mpr ⟨y, ys, hy, hys, rfl⟩]
      rfl

section Growing

variable [Preorder ρ] {measure : σ → ρ} {step : σ → α → Option σ}

/-- The accumulator of the loop has grown. -/
theorem le_of_foldlM (hgrows : ∀ s x s', step s x = some s' → measure s ≤ measure s')
    {xs : List α} {s s' : σ} (hloop : xs.foldlM step s = some s') :
    measure s ≤ measure s' := by
  induction xs generalizing s with
  | nil =>
      obtain rfl := Option.some.inj hloop
      exact le_refl _
  | cons x xs ih =>
      rw [List.foldlM_cons] at hloop
      obtain ⟨next, hround, hrest⟩ := Option.bind_eq_some_iff.mp hloop
      exact (hgrows s x next hround).trans (ih hrest)

/-- It has grown over what each of its rounds puts in. -/
theorem bound_le_of_foldlM (hgrows : ∀ s x s', step s x = some s' → measure s ≤ measure s')
    {xs : List α} {s s' : σ} (hloop : xs.foldlM step s = some s') {x : α} (hx : x ∈ xs)
    {bound : ρ} (hbound : ∀ s s', step s x = some s' → bound ≤ measure s') :
    bound ≤ measure s' := by
  induction xs generalizing s with
  | nil => simp at hx
  | cons y xs ih =>
      rw [List.foldlM_cons] at hloop
      obtain ⟨next, hround, hrest⟩ := Option.bind_eq_some_iff.mp hloop
      rw [List.mem_cons] at hx
      cases hx with
      | inl hhead =>
          subst hhead
          exact (hbound s next hround).trans (le_of_foldlM hgrows hrest)
      | inr htail => exact ih hrest htail

end Growing

end FastTAK.Loop
