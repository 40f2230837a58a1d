import FastTAK.Base.Firsts

/-!
# The latest of each kind

`SELECT DISTINCT ON (key) … ORDER BY key, time DESC`: of the rows with the same key the first in
the order of the statement, which is one of the latest.
-/

namespace FastTAK.Latest

open FastTAK.Firsts

/-! ## First occurrences in a sorted list -/

section Firsts

variable {α κ : Type} [DecidableEq κ] {key : α → Option κ} {seen : List κ} {xs : List α}
  {entry : α × κ}

theorem not_mem_seen_of_mem_firsts (h : entry ∈ firsts key seen xs) : entry.2 ∉ seen := by
  induction xs generalizing seen with
  | nil => cases h
  | cons x xs ih =>
      cases hx : key x with
      | none =>
          rw [firsts_none hx] at h
          exact ih h
      | some k =>
          by_cases hk : k ∈ seen
          · rw [firsts_seen hx hk] at h
            exact ih h
          · rw [firsts_new hx hk] at h
            rcases List.mem_cons.mp h with rfl | h
            · exact hk
            · exact fun hseen => ih h (List.mem_cons_of_mem k hseen)

theorem nodup_firsts (seen : List κ) (xs : List α) :
    ((firsts key seen xs).map Prod.snd).Nodup := by
  induction xs generalizing seen with
  | nil => exact List.nodup_nil
  | cons x xs ih =>
      cases hx : key x with
      | none =>
          rw [firsts_none hx]
          exact ih seen
      | some k =>
          by_cases hk : k ∈ seen
          · rw [firsts_seen hx hk]
            exact ih seen
          · rw [firsts_new hx hk, List.map_cons, List.nodup_cons]
            refine ⟨fun hmem => ?_, ih (k :: seen)⟩
            obtain ⟨entry, hentry, heq⟩ := List.mem_map.mp hmem
            apply not_mem_seen_of_mem_firsts hentry
            rw [heq]
            exact List.mem_cons_self

/-- Every key has a first occurrence. -/
theorem exists_mem_firsts {x : α} {k : κ} (hx : x ∈ xs) (hkey : key x = some k) (hk : k ∉ seen) :
    ∃ entry ∈ firsts key seen xs, entry.2 = k := by
  induction xs generalizing seen with
  | nil => cases hx
  | cons y ys ih =>
      have hlater : ∀ {seen}, k ∉ seen → x ∈ ys → ∃ entry ∈ firsts key seen ys, entry.2 = k :=
        fun hk hx => ih hx hk
      cases hy : key y with
      | none =>
          have hne : x ≠ y := by
            rintro rfl
            rw [hkey] at hy
            cases hy
          rw [firsts_none hy]
          exact hlater hk ((List.mem_cons.mp hx).resolve_left hne)
      | some l =>
          by_cases hl : l ∈ seen
          · have hne : x ≠ y := by
              rintro rfl
              rw [hkey] at hy
              exact hk (Option.some.inj hy ▸ hl)
            rw [firsts_seen hy hl]
            exact hlater hk ((List.mem_cons.mp hx).resolve_left hne)
          · rw [firsts_new hy hl]
            by_cases hkl : k = l
            · exact ⟨(y, l), List.mem_cons_self, hkl.symm⟩
            · have hne : x ≠ y := by
                rintro rfl
                rw [hkey] at hy
                exact hkl (Option.some.inj hy)
              have hnew : k ∉ l :: seen := by
                rw [List.mem_cons, not_or]
                exact ⟨hkl, hk⟩
              obtain ⟨entry, hentry, heq⟩ := hlater hnew ((List.mem_cons.mp hx).resolve_left hne)
              exact ⟨entry, List.mem_cons_of_mem _ hentry, heq⟩

/-- In a sorted list the first of its key comes before the others of the key. -/
theorem firsts_before {r : α → α → Prop} (hsorted : xs.Pairwise r)
    (h : entry ∈ firsts key seen xs) {y : α} (hy : y ∈ xs) (hkey : key y = some entry.2) :
    y = entry.1 ∨ r entry.1 y := by
  induction xs generalizing seen with
  | nil => cases hy
  | cons x xs ih =>
      obtain ⟨hhead, htail⟩ := List.pairwise_cons.mp hsorted
      have hlater : ∀ {seen}, entry ∈ firsts key seen xs → (key x = some entry.2 → entry.2 ∈ seen) →
          y = entry.1 ∨ r entry.1 y := by
        intro seen hentry hknown
        rcases List.mem_cons.mp hy with rfl | hy
        · exact absurd (hknown hkey) (not_mem_seen_of_mem_firsts hentry)
        · exact ih htail hentry hy
      cases hx : key x with
      | none =>
          rw [firsts_none hx] at h
          exact hlater h (fun heq => absurd (hx.symm.trans heq) (by simp))
      | some k =>
          by_cases hk : k ∈ seen
          · rw [firsts_seen hx hk] at h
            exact hlater h (fun heq => Option.some.inj (hx.symm.trans heq) ▸ hk)
          · rw [firsts_new hx hk] at h
            rcases List.mem_cons.mp h with rfl | h
            · exact (List.mem_cons.mp hy).imp_right (hhead y)
            · apply hlater h
              intro heq
              rw [← Option.some.inj (hx.symm.trans heq)]
              exact List.mem_cons_self

end Firsts

/-! ## The statement -/

variable {α κ : Type} [LinearOrder κ]

/-- The order of the statement. -/
def inOrder (key : α → κ) (time : α → ℕ) (a b : α) : Prop :=
  key a < key b ∨ key a = key b ∧ time b ≤ time a

instance (key : α → κ) (time : α → ℕ) : DecidableRel (inOrder key time) := fun a b =>
  inferInstanceAs (Decidable (key a < key b ∨ key a = key b ∧ time b ≤ time a))

def distinctOn (key : α → κ) (time : α → ℕ) (rows : List α) : List α :=
  (firsts (fun row => some (key row)) [] (rows.insertionSort (inOrder key time))).map Prod.fst

/-- One of the latest rows for each key. -/
structure IsLatest (key : α → κ) (time : α → ℕ) (rows chosen : List α) : Prop where
  once : (chosen.map key).Nodup
  complete : ∀ row ∈ rows, ∃ found ∈ chosen, key found = key row
  mem : ∀ found ∈ chosen, found ∈ rows
  latest : ∀ found ∈ chosen, ∀ row ∈ rows, key row = key found → time row ≤ time found

theorem inOrder_total (key : α → κ) (time : α → ℕ) (a b : α) :
    inOrder key time a b ∨ inOrder key time b a := by
  rcases lt_trichotomy (key a) (key b) with h | h | h
  · exact Or.inl (Or.inl h)
  · exact (le_total (time b) (time a)).imp (fun ht => Or.inr ⟨h, ht⟩) fun ht =>
      Or.inr ⟨h.symm, ht⟩
  · exact Or.inr (Or.inl h)

theorem inOrder_trans {key : α → κ} {time : α → ℕ} {a b c : α} (hab : inOrder key time a b)
    (hbc : inOrder key time b c) : inOrder key time a c := by
  rcases hab with hab | ⟨hab, htab⟩
  · rcases hbc with hbc | ⟨hbc, -⟩
    · exact Or.inl (hab.trans hbc)
    · exact Or.inl (hab.trans_eq hbc)
  · rcases hbc with hbc | ⟨hbc, htbc⟩
    · exact Or.inl (hab.trans_lt hbc)
    · exact Or.inr ⟨hab.trans hbc, htbc.trans htab⟩

instance (key : α → κ) (time : α → ℕ) : Std.Total (inOrder key time) := ⟨inOrder_total key time⟩

instance (key : α → κ) (time : α → ℕ) : IsTrans α (inOrder key time) :=
  ⟨fun _ _ _ => inOrder_trans⟩

theorem isLatest_distinctOn (key : α → κ) (time : α → ℕ) (rows : List α) :
    IsLatest key time rows (distinctOn key time rows) := by
  have hperm := List.perm_insertionSort (inOrder key time) rows
  have hsorted := List.pairwise_insertionSort (inOrder key time) rows
  have hkeys : (distinctOn key time rows).map key =
      (firsts (fun row => some (key row)) [] (rows.insertionSort (inOrder key time))).map
        Prod.snd := by
    rw [distinctOn, List.map_map]
    apply List.map_congr_left
    intro entry hentry
    exact Option.some.inj (mem_of_mem_firsts hentry).2
  constructor
  · rw [hkeys]
    exact nodup_firsts _ _
  · intro row hrow
    have hfirst : ∃ entry ∈ firsts (fun row => some (key row)) []
        (rows.insertionSort (inOrder key time)), entry.2 = key row :=
      exists_mem_firsts (hperm.mem_iff.mpr hrow) rfl List.not_mem_nil
    obtain ⟨entry, hentry, heq⟩ := hfirst
    refine ⟨entry.1, List.mem_map_of_mem hentry, ?_⟩
    rw [← heq]
    exact Option.some.inj (mem_of_mem_firsts hentry).2
  · intro found hfound
    obtain ⟨entry, hentry, rfl⟩ := List.mem_map.mp hfound
    exact hperm.mem_iff.mp (mem_of_mem_firsts hentry).1
  · intro found hfound row hrow hkey
    obtain ⟨entry, hentry, rfl⟩ := List.mem_map.mp hfound
    have hsame : some (key row) = some entry.2 := by
      rw [hkey]
      exact (mem_of_mem_firsts hentry).2
    rcases firsts_before hsorted hentry (hperm.mem_iff.mpr hrow) hsame with rfl | hafter
    · exact le_rfl
    · rcases hafter with hlt | ⟨-, htime⟩
      · exact absurd hkey hlt.ne'
      · exact htime

end FastTAK.Latest
