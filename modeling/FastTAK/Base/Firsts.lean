import Mathlib

/-!
# First occurrences

The elements of a list that are the first of their key.  Elements that are not one's own do not
matter if each of them has a key that an own element before it has.
-/

namespace FastTAK.Firsts

variable {α κ : Type} [DecidableEq κ]

/-- The elements of which no element before has the key, with their keys, after some keys. -/
def firsts (key : α → Option κ) : List κ → List α → List (α × κ)
  | _, [] => []
  | seen, x :: xs =>
      match key x with
      | none => firsts key seen xs
      | some k => if k ∈ seen then firsts key seen xs else (x, k) :: firsts key (k :: seen) xs

/-- An element that is not one's own has a key that is known or that an own element before has. -/
def Announced (own : α → Bool) (key : α → Option κ) (seen : List κ) (xs : List α) : Prop :=
  ∀ before x after, xs = before ++ x :: after → own x = false → ∀ k, key x = some k →
    k ∈ seen ∨ ∃ y ∈ before, own y ∧ key y = some k

section Firsts

variable {own : α → Bool} {key : α → Option κ} {seen seen' : List κ} {x : α} {k : κ}
  {xs ys : List α}

theorem firsts_none (hx : key x = none) : firsts key seen (x :: xs) = firsts key seen xs := by
  rw [firsts, hx]

theorem firsts_seen (hx : key x = some k) (hk : k ∈ seen) :
    firsts key seen (x :: xs) = firsts key seen xs := by
  rw [firsts, hx]
  exact if_pos hk

theorem firsts_new (hx : key x = some k) (hk : k ∉ seen) :
    firsts key seen (x :: xs) = (x, k) :: firsts key (k :: seen) xs := by
  rw [firsts, hx]
  exact if_neg hk

/-- Only which keys are known matters. -/
theorem firsts_congr (h : ∀ k, k ∈ seen ↔ k ∈ seen') (xs : List α) :
    firsts key seen xs = firsts key seen' xs := by
  induction xs generalizing seen seen' with
  | nil => rfl
  | cons x xs ih =>
      cases hx : key x with
      | none => rw [firsts_none hx, firsts_none hx, ih h]
      | some k =>
          by_cases hk : k ∈ seen
          · rw [firsts_seen hx hk, firsts_seen hx ((h k).mp hk), ih h]
          · rw [firsts_new hx hk, firsts_new hx (fun hk' => hk ((h k).mpr hk'))]
            apply congrArg (List.cons (x, k))
            apply ih
            intro l
            rw [List.mem_cons, List.mem_cons, h]

/-- The first occurrences of a longer list, where the keys of its front are known for the rest. -/
theorem firsts_append (xs ys : List α) :
    firsts key seen (xs ++ ys) =
      firsts key seen xs ++ firsts key (xs.filterMap key ++ seen) ys := by
  induction xs generalizing seen with
  | nil => rfl
  | cons x xs ih =>
      rw [List.cons_append]
      cases hx : key x with
      | none => rw [firsts_none hx, firsts_none hx, ih, List.filterMap_cons_none hx]
      | some k =>
          rw [List.filterMap_cons_some hx]
          by_cases hk : k ∈ seen
          · rw [firsts_seen hx hk, firsts_seen hx hk, ih]
            apply congrArg (firsts key seen xs ++ ·)
            apply firsts_congr
            intro l
            simp only [List.cons_append, List.mem_cons, List.mem_append]
            constructor
            · exact Or.inr
            · rintro (rfl | hl)
              · exact Or.inr hk
              · exact hl
          · rw [firsts_new hx hk, firsts_new hx hk, ih, List.cons_append]
            apply congrArg (fun rest => (x, k) :: (firsts key (k :: seen) xs ++ rest))
            apply firsts_congr
            intro l
            simp only [List.cons_append, List.mem_cons, List.mem_append]
            tauto

theorem firsts_map {β : Type} (f : β → α) (ys : List β) :
    firsts key seen (ys.map f) =
      (firsts (key ∘ f) seen ys).map fun entry => (f entry.1, entry.2) := by
  induction ys generalizing seen with
  | nil => rfl
  | cons y ys ih =>
      rw [List.map_cons]
      cases hy : key (f y) with
      | none =>
          have hy' : (key ∘ f) y = none := hy
          rw [firsts_none hy, firsts_none hy', ih]
      | some k =>
          have hy' : (key ∘ f) y = some k := hy
          by_cases hk : k ∈ seen
          · rw [firsts_seen hy hk, firsts_seen hy' hk, ih]
          · rw [firsts_new hy hk, firsts_new hy' hk, ih, List.map_cons]

theorem firsts_eq_nil_iff :
    firsts key seen xs = [] ↔ ∀ x ∈ xs, ∀ k, key x = some k → k ∈ seen := by
  induction xs with
  | nil => simp [firsts]
  | cons x xs ih =>
      rw [List.forall_mem_cons, ← ih]
      cases hx : key x with
      | none => simp [firsts_none hx]
      | some k =>
          by_cases hk : k ∈ seen
          · simp [firsts_seen hx hk, hk]
          · simp [firsts_new hx hk, hk]

omit [DecidableEq κ] in
theorem announced_cons :
    Announced own key seen (x :: xs) ↔
      (own x = false → ∀ k, key x = some k → k ∈ seen) ∧
        Announced own key ((if own x then (key x).toList else []) ++ seen) xs := by
  have hknown : ∀ l, l ∈ (if own x then (key x).toList else []) ++ seen ↔
      own x ∧ key x = some l ∨ l ∈ seen := by
    intro l
    cases own x with
    | true => simp
    | false => simp
  constructor
  · intro h
    constructor
    · intro hown k hk
      rcases h [] x xs rfl hown k hk with hseen | ⟨y, hy, -⟩
      · exact hseen
      · cases hy
    · rintro before y after rfl hown k hk
      rw [hknown]
      rcases h (x :: before) y after rfl hown k hk with hseen | ⟨z, hz, hz'⟩
      · exact Or.inl (Or.inr hseen)
      · rcases List.mem_cons.mp hz with rfl | hz
        · exact Or.inl (Or.inl hz')
        · exact Or.inr ⟨z, hz, hz'⟩
  · rintro ⟨hhead, htail⟩ before y after heq hown k hk
    cases before with
    | nil =>
        obtain ⟨rfl, rfl⟩ := List.cons.inj heq
        exact Or.inl (hhead hown k hk)
    | cons z before =>
        obtain ⟨rfl, rfl⟩ := List.cons.inj heq
        rcases htail before y after rfl hown k hk with hseen | ⟨z', hz', hkey⟩
        · rcases (hknown k).mp hseen with hx | hseen
          · exact Or.inr ⟨x, List.mem_cons_self, hx⟩
          · exact Or.inl hseen
        · exact Or.inr ⟨z', List.mem_cons_of_mem _ hz', hkey⟩

/-- Only one's own elements are first if and only if the others are announced. -/
theorem announced_iff :
    Announced own key seen xs ↔ ∀ entry ∈ firsts key seen xs, own entry.1 := by
  induction xs generalizing seen with
  | nil =>
      constructor
      · exact fun _ entry hentry => absurd hentry List.not_mem_nil
      · intro _ before x after heq
        cases before <;> cases heq
  | cons x xs ih =>
      rw [announced_cons, ih]
      cases hx : key x with
      | none => simp [firsts_none hx]
      | some k =>
          have hafter : ∀ l, k ∈ seen → (l ∈ (if own x then [k] else []) ++ seen ↔ l ∈ seen) := by
            intro l hk
            cases own x with
            | true => simpa using fun h => h ▸ hk
            | false => simp
          by_cases hk : k ∈ seen
          · rw [firsts_seen hx hk, Option.toList_some, firsts_congr fun l => hafter l hk]
            apply and_iff_right
            intro _ l hl
            rwa [← Option.some.inj hl]
          · rw [firsts_new hx hk, List.forall_mem_cons]
            cases hown : own x with
            | true => simp
            | false => simp [hk]

/-- Announced elements do not matter. -/
theorem firsts_filter (h : Announced own key seen xs) :
    firsts key seen xs = firsts key seen (xs.filter own) := by
  induction xs generalizing seen with
  | nil => rfl
  | cons x xs ih =>
      rw [announced_cons] at h
      obtain ⟨hhead, htail⟩ := h
      have hrest := ih htail
      cases hown : own x with
      | false =>
          rw [hown] at hrest
          rw [List.filter_cons_of_neg (by rw [hown]; exact Bool.false_ne_true)]
          cases hx : key x with
          | none =>
              rw [firsts_none hx]
              exact hrest
          | some k =>
              rw [firsts_seen hx (hhead hown k hx)]
              exact hrest
      | true =>
          rw [hown] at hrest
          rw [List.filter_cons_of_pos hown]
          cases hx : key x with
          | none =>
              rw [hx] at hrest
              rw [firsts_none hx, firsts_none hx]
              exact hrest
          | some k =>
              rw [hx] at hrest
              by_cases hk : k ∈ seen
              · have hknown : ∀ l, l ∈ seen ↔ l ∈ k :: seen := by
                  intro l
                  rw [List.mem_cons]
                  exact ⟨Or.inr, fun hl => hl.elim (fun heq => heq ▸ hk) id⟩
                rw [firsts_seen hx hk, firsts_seen hx hk, firsts_congr hknown,
                  firsts_congr hknown (xs.filter own)]
                exact hrest
              · rw [firsts_new hx hk, firsts_new hx hk]
                exact congrArg (List.cons (x, k)) hrest

/-- The first occurrences of one's own elements alone. -/
theorem firsts_own {made : α → Option κ} (hown : ∀ x, own x → made x = key x)
    (hother : ∀ x, own x = false → made x = none) :
    firsts made seen xs = firsts key seen (xs.filter own) := by
  induction xs generalizing seen with
  | nil => rfl
  | cons x xs ih =>
      cases hx : own x with
      | false =>
          rw [List.filter_cons_of_neg (by rw [hx]; exact Bool.false_ne_true),
            firsts_none (hother x hx), ih]
      | true =>
          rw [List.filter_cons_of_pos hx, firsts, firsts, hown x hx, ih]
          cases key x with
          | none => rfl
          | some k => simp only [ih]

theorem mem_of_mem_firsts {entry : α × κ} (h : entry ∈ firsts key seen xs) :
    entry.1 ∈ xs ∧ key entry.1 = some entry.2 := by
  induction xs generalizing seen with
  | nil => cases h
  | cons x xs ih =>
      have hlater : ∀ {seen}, entry ∈ firsts key seen xs →
          entry.1 ∈ x :: xs ∧ key entry.1 = some entry.2 :=
        fun hentry => ⟨List.mem_cons_of_mem _ (ih hentry).1, (ih hentry).2⟩
      cases hx : key x with
      | none =>
          rw [firsts_none hx] at h
          exact hlater h
      | some k =>
          by_cases hk : k ∈ seen
          · rw [firsts_seen hx hk] at h
            exact hlater h
          · rw [firsts_new hx hk] at h
            rcases List.mem_cons.mp h with rfl | h
            · exact ⟨List.mem_cons_self, hx⟩
            · exact hlater h

/-- The first occurrences in the front of a list are those of one's own elements in the whole list
if and only if the others in the front are announced, and the rest brings nothing new. -/
theorem firsts_eq_iff :
    firsts key seen xs = firsts key seen ((xs ++ ys).filter own) ↔
      Announced own key seen xs ∧
        ∀ y ∈ ys, own y → ∀ k, key y = some k → k ∈ (xs.filter own).filterMap key ++ seen := by
  have hnew : firsts key ((xs.filter own).filterMap key ++ seen) (ys.filter own) = [] ↔
      ∀ y ∈ ys, own y → ∀ k, key y = some k → k ∈ (xs.filter own).filterMap key ++ seen := by
    rw [firsts_eq_nil_iff]
    simp only [List.mem_filter, and_imp]
  rw [List.filter_append, firsts_append, ← hnew]
  constructor
  · intro h
    have hannounced : Announced own key seen xs := by
      rw [announced_iff, h, ← firsts_append, ← List.filter_append]
      exact fun entry hentry => (List.mem_filter.mp (mem_of_mem_firsts hentry).1).2
    rw [firsts_filter hannounced] at h
    exact ⟨hannounced, List.append_cancel_left (h.symm.trans (List.append_nil _).symm)⟩
  · rintro ⟨hannounced, hrest⟩
    rw [firsts_filter hannounced, hrest, List.append_nil]

end Firsts

end FastTAK.Firsts
