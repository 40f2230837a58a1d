import FastTAK.Base.Text

/-!
# Lower case

What holds of `str.lower` for every text.  It looks at single characters, except for a sigma, of
which the form depends on the letters before and after it, and leaves blanks as they are.
-/

namespace FastTAK.Text

/-- `str.lower` as far as comparisons by leading characters need it. -/
structure Lowering where
  lower : List Char → List Char
  nil : lower [] = []
  head : ∀ c text, lower [c] <+: lower (c :: text)
  letter : ∀ c, ¬ isBlank c → ∃ d text, lower [c] = d :: text ∧ ¬ isBlank d
  blank_append : ∀ blanks text, (∀ c ∈ blanks, isBlank c) → lower (blanks ++ text) =
    blanks ++ lower text
  append_blank : ∀ text blanks, (∀ c ∈ blanks, isBlank c) → lower (text ++ blanks) =
    lower text ++ blanks
  plain : ∀ text, (∀ c ∈ text, c.toNat < 128) → lower text = text.map Char.toLower
  ascii : ∀ text rest, (∀ c ∈ text, c.toNat < 128) → text.map Char.toLower <+: lower (text ++ rest)

/-- Lowering neither makes nor changes a blank. -/
theorem isBlank_toLower (c : Char) : isBlank c.toLower = isBlank c := by
  have hcode := toNat_toLower c
  rw [Bool.eq_iff_iff]
  simp only [isBlank, hcode, Bool.or_eq_true, Bool.and_eq_true, decide_eq_true_eq, beq_iff_eq]
  split_ifs <;> omega

theorem toLower_of_isBlank {c : Char} (hc : isBlank c) : c.toLower = c := by
  apply Char.toNat_inj.mp
  rw [toNat_toLower]
  simp only [isBlank, Bool.or_eq_true, Bool.and_eq_true, decide_eq_true_eq, beq_iff_eq] at hc
  split_ifs <;> omega

theorem map_toLower_of_isBlank {blanks : List Char} (hblanks : ∀ c ∈ blanks, isBlank c) :
    blanks.map Char.toLower = blanks :=
  calc
    blanks.map Char.toLower = blanks.map id :=
      List.map_congr_left fun c hc => toLower_of_isBlank (hblanks c hc)
    _ = blanks := List.map_id blanks

/-- The part of `str.lower` that covers ASCII. -/
def asciiLowering : Lowering where
  lower := List.map Char.toLower
  nil := rfl
  head := by
    intro c text
    exact List.prefix_append [c.toLower] (text.map Char.toLower)
  letter := by
    intro c hc
    refine ⟨c.toLower, [], rfl, ?_⟩
    rw [isBlank_toLower]
    exact hc
  blank_append := by
    intro blanks text hblanks
    rw [List.map_append, map_toLower_of_isBlank hblanks]
  append_blank := by
    intro text blanks hblanks
    rw [List.map_append, map_toLower_of_isBlank hblanks]
  plain := by
    intro text _
    rfl
  ascii := by
    intro text rest _
    rw [List.map_append]
    exact List.prefix_append _ _

theorem toList_toLower (name : String) :
    name.toLower.toList = asciiLowering.lower name.toList := String.toList_map

/-! ## The first character -/

namespace Lowering

variable (lowering : Lowering)

/-- What a text without a leading blank becomes has none either. -/
theorem exists_lower_cons {c : Char} (hc : ¬ isBlank c) (text : List Char) :
    ∃ d rest, lowering.lower (c :: text) = d :: rest ∧ ¬ isBlank d := by
  obtain ⟨d, front, hfront, hd⟩ := lowering.letter c hc
  obtain ⟨rest, hrest⟩ := lowering.head c text
  rw [hfront] at hrest
  exact ⟨d, front ++ rest, hrest.symm, hd⟩

theorem lower_cons_of_blank {c : Char} (hc : isBlank c) (text : List Char) :
    lowering.lower (c :: text) = c :: lowering.lower text :=
  lowering.blank_append [c] text (by simpa using hc)

/-- A text that is not empty starts with a blank, in lower case, just if it did before. -/
theorem not_isBlank_of_prefix {c b : Char} {text other : List Char} (hc : ¬ isBlank c)
    (hstarts : lowering.lower (b :: other) <+: lowering.lower (c :: text)) : ¬ isBlank b := by
  intro hb
  obtain ⟨d, rest, hlower, hd⟩ := lowering.exists_lower_cons hc text
  rw [hlower, lowering.lower_cons_of_blank hb] at hstarts
  obtain rfl := (List.cons_prefix_cons.mp hstarts).1
  exact hd hb

theorem lower_ne_nil {text : List Char} (hne : text ≠ []) : lowering.lower text ≠ [] := by
  cases text with
  | nil => exact absurd rfl hne
  | cons c text =>
      by_cases hc : isBlank c
      · rw [lowering.lower_cons_of_blank hc]
        exact List.cons_ne_nil _ _
      · obtain ⟨d, rest, hlower, -⟩ := lowering.exists_lower_cons hc text
        rw [hlower]
        exact List.cons_ne_nil _ _

/-- Only an empty text starts an empty one. -/
theorem not_prefix_lower_nil {text : List Char} (hne : text ≠ []) :
    ¬ lowering.lower text <+: lowering.lower [] := by
  rw [lowering.nil, List.prefix_nil]
  exact lowering.lower_ne_nil hne

end Lowering

end FastTAK.Text
