import Mathlib

/-!
# Blocks between two markers

A list in which a block is set off by an item that begins it and an item that ends it, and a
filter that drops the blocks in one pass, with a flag.  The filter drops what comes after a
beginning whether an end follows or not.
-/

namespace FastTAK.MarkedBlock

variable {α : Type} [DecidableEq α]

/-- The filter: the flag says that the items are dropped. -/
def strip (first last : α) : Bool → List α → List α
  | _, [] => []
  | skip, item :: rest =>
      if item = first then strip first last true rest
      else if item = last then strip first last false rest
      else if skip then strip first last skip rest
      else item :: strip first last skip rest

/-- The last marker of these items is a beginning. -/
def isOpen (first last : α) (before : List α) : Bool :=
  first ∈ before.reverse.takeWhile (· ≠ last)

/-- The items that are no markers and do not stand between a beginning and the end that follows
it. -/
def outside (first last : α) (before : List α) : List α → List α
  | [] => []
  | item :: after =>
      if item = first ∨ item = last ∨ (isOpen first last before ∧ last ∈ after) then
        outside first last (before ++ [item]) after
      else item :: outside first last (before ++ [item]) after

/-- Where a block is open, an end follows every item that is no marker. -/
def Closed (first last : α) (before items : List α) : Prop :=
  ∀ lead item rest, items = lead ++ item :: rest → item ≠ first → item ≠ last →
    isOpen first last (before ++ lead) → last ∈ rest

section Markers

variable {first last : α} {before items : List α}

theorem isOpen_first (hne : first ≠ last) : isOpen first last (before ++ [first]) := by
  simp [isOpen, hne]

theorem isOpen_last : isOpen first last (before ++ [last]) = false := by
  simp [isOpen]

theorem isOpen_other {item : α} (hfirst : item ≠ first) (hlast : item ≠ last) :
    isOpen first last (before ++ [item]) = isOpen first last before := by
  simp [isOpen, hlast, Ne.symm hfirst]

theorem closed_cons_marker {item : α} (h : item = first ∨ item = last) :
    Closed first last before (item :: items) ↔ Closed first last (before ++ [item]) items := by
  constructor
  · intro hclosed lead other rest hitems hfirst hlast hopen
    apply hclosed (item :: lead) other rest (by rw [hitems, List.cons_append]) hfirst hlast
    simpa using hopen
  · intro hclosed lead other rest hitems hfirst hlast hopen
    cases lead with
    | nil =>
        obtain ⟨rfl, -⟩ := List.cons.inj hitems
        exact (h.elim hfirst hlast).elim
    | cons head lead =>
        obtain ⟨rfl, htail⟩ := List.cons.inj hitems
        apply hclosed lead other rest htail hfirst hlast
        simpa using hopen

theorem closed_cons_other {item : α} (hfirst : item ≠ first) (hlast : item ≠ last) :
    Closed first last before (item :: items) ↔
      (isOpen first last before → last ∈ items) ∧ Closed first last (before ++ [item]) items := by
  constructor
  · intro hclosed
    constructor
    · intro hopen
      apply hclosed [] item items rfl hfirst hlast
      simpa using hopen
    · intro lead other rest hitems hother hother' hopen
      apply hclosed (item :: lead) other rest (by rw [hitems, List.cons_append]) hother hother'
      simpa using hopen
  · intro hclosed lead other rest hitems hother hother' hopen
    cases lead with
    | nil =>
        obtain ⟨rfl, rfl⟩ := List.cons.inj hitems
        exact hclosed.1 (by simpa using hopen)
    | cons head lead =>
        obtain ⟨rfl, htail⟩ := List.cons.inj hitems
        apply hclosed.2 lead other rest htail hother hother'
        simpa using hopen

/-- The filter drops at least what is to be dropped. -/
theorem length_strip_le (hne : first ≠ last) (before items : List α) :
    (strip first last (isOpen first last before) items).length ≤
      (outside first last before items).length := by
  induction items generalizing before with
  | nil => rfl
  | cons item items ih =>
      have ih := ih (before ++ [item])
      rw [strip, outside]
      by_cases hfirst : item = first
      · subst hfirst
        rw [isOpen_first hne] at ih
        simpa using ih
      · by_cases hlast : item = last
        · subst hlast
          rw [isOpen_last] at ih
          simpa [hfirst] using ih
        · rw [isOpen_other hfirst hlast] at ih
          rw [if_neg hfirst, if_neg hlast]
          by_cases hopen : isOpen first last before
          · rw [if_pos hopen]
            split_ifs
            · exact ih
            · exact ih.trans (Nat.le_succ _)
          · rw [if_neg hopen, if_neg (by simp [hfirst, hlast, hopen])]
            exact Nat.succ_le_succ ih

/-- The filter drops the blocks and nothing else if and only if no block is left open. -/
theorem strip_eq_outside_iff (hne : first ≠ last) (before items : List α) :
    strip first last (isOpen first last before) items = outside first last before items ↔
      Closed first last before items := by
  induction items generalizing before with
  | nil => exact iff_of_true rfl fun lead item rest h => by simp at h
  | cons item items ih =>
      have ih := ih (before ++ [item])
      rw [strip, outside]
      by_cases hfirst : item = first
      · subst hfirst
        rw [isOpen_first hne] at ih
        rw [closed_cons_marker (Or.inl rfl), ← ih]
        simp
      · by_cases hlast : item = last
        · subst hlast
          rw [isOpen_last] at ih
          rw [closed_cons_marker (Or.inr rfl), ← ih]
          simp [hfirst]
        · rw [isOpen_other hfirst hlast] at ih
          rw [closed_cons_other hfirst hlast, ← ih, if_neg hfirst, if_neg hlast]
          by_cases hopen : isOpen first last before
          · rw [if_pos hopen]
            by_cases hend : last ∈ items
            · rw [if_pos (Or.inr (Or.inr ⟨hopen, hend⟩))]
              simp [hend]
            · rw [if_neg (by simp [hfirst, hlast, hend])]
              apply iff_of_false
              · -- The item is dropped although nothing ends the block.
                intro heq
                have hlength := length_strip_le hne (before ++ [item]) items
                rw [isOpen_other hfirst hlast, heq, List.length_cons] at hlength
                exact absurd hlength (Nat.not_succ_le_self _)
              · exact fun h => hend (h.1 hopen)
          · rw [if_neg hopen, if_neg (by simp [hfirst, hlast, hopen])]
            simp [hopen]

theorem not_marker_of_mem_strip {skip : Bool} {item : α}
    (h : item ∈ strip first last skip items) : item ≠ first ∧ item ≠ last := by
  induction items generalizing skip with
  | nil => cases h
  | cons head items ih =>
      rw [strip] at h
      split_ifs at h with hfirst hlast hskip
      · exact ih h
      · exact ih h
      · exact ih h
      · rcases List.mem_cons.mp h with rfl | h
        · exact ⟨hfirst, hlast⟩
        · exact ih h

theorem strip_sublist {skip : Bool} : (strip first last skip items).Sublist items := by
  induction items generalizing skip with
  | nil => exact List.Sublist.slnil
  | cons item items ih =>
      rw [strip]
      split_ifs
      · exact ih.cons item
      · exact ih.cons item
      · exact ih.cons item
      · exact ih.cons_cons item

theorem outside_sublist : (outside first last before items).Sublist items := by
  induction items generalizing before with
  | nil => exact List.Sublist.slnil
  | cons item items ih =>
      rw [outside]
      split_ifs
      · exact ih.cons item
      · exact ih.cons_cons item

/-- Without markers nothing is dropped. -/
theorem strip_append (h : ∀ item ∈ items, item ≠ first ∧ item ≠ last) (rest : List α) :
    strip first last false (items ++ rest) = items ++ strip first last false rest := by
  induction items with
  | nil => rfl
  | cons item items ih =>
      have hitem := h item List.mem_cons_self
      rw [List.cons_append, strip, if_neg hitem.1, if_neg hitem.2,
        ih fun other hother => h other (List.mem_cons_of_mem _ hother)]
      rfl

/-- In a block everything is dropped. -/
theorem strip_block (h : ∀ item ∈ items, item ≠ first ∧ item ≠ last) (hne : first ≠ last) :
    strip first last true (items ++ [last]) = [] := by
  induction items with
  | nil => simp [strip, hne.symm]
  | cons item items ih =>
      have hitem := h item List.mem_cons_self
      rw [List.cons_append, strip, if_neg hitem.1, if_neg hitem.2, if_pos rfl]
      exact ih fun other hother => h other (List.mem_cons_of_mem _ hother)

/-- What was filtered and got one block is as before when it is filtered again. -/
theorem strip_strip {inner : List α} {skip : Bool}
    (hinner : ∀ item ∈ inner, item ≠ first ∧ item ≠ last) (hne : first ≠ last) :
    strip first last false (strip first last skip items ++ first :: (inner ++ [last])) =
      strip first last skip items := by
  rw [strip_append (fun item => not_marker_of_mem_strip), strip, if_pos rfl,
    strip_block hinner hne, List.append_nil]

end Markers

end FastTAK.MarkedBlock
