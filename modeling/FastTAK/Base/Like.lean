import Mathlib

/-!
# `LIKE`

Patterns with a sign for any text, a sign for any one letter and an escape, over the letters of
some alphabet, compared after folding.
-/

namespace FastTAK.Like

/-- The letters with a meaning in a pattern, and what makes letters the same. -/
structure Alphabet (α : Type) where
  many : α
  one : α
  escape : α
  fold : α → α

variable {α : Type} [DecidableEq α]

inductive Piece (α : Type)
  | many
  | one
  | letter (c : α)

/-- The pieces of a pattern.  An escape at its end stands for itself. -/
def Alphabet.pieces (a : Alphabet α) : List α → List (Piece α)
  | [] => []
  | [c] => if c = a.many then [.many] else if c = a.one then [.one] else [.letter c]
  | c :: d :: pattern =>
      if c = a.escape then .letter d :: a.pieces pattern
      else if c = a.many then .many :: a.pieces (d :: pattern)
      else if c = a.one then .one :: a.pieces (d :: pattern)
      else .letter c :: a.pieces (d :: pattern)

def Alphabet.fits (a : Alphabet α) : List (Piece α) → List α → Bool
  | [], text => text.isEmpty
  | .many :: pieces, text => text.tails.any (a.fits pieces)
  | .one :: pieces, text => !text.isEmpty && a.fits pieces text.tail
  | .letter c :: pieces, text =>
      (text.head?.any fun d => a.fold c = a.fold d) && a.fits pieces text.tail

/-- `text ILIKE pattern`. -/
def Alphabet.ilike (a : Alphabet α) (pattern text : List α) : Bool := a.fits (a.pieces pattern) text

/-- A text without signs. -/
def Alphabet.IsPlain (a : Alphabet α) (text : List α) : Prop :=
  ∀ c ∈ text, c ≠ a.many ∧ c ≠ a.one ∧ c ≠ a.escape

section Plain

variable {a : Alphabet α} {lead : List α}

theorem pieces_plain_many (hplain : a.IsPlain lead) :
    a.pieces (lead ++ [a.many]) = lead.map .letter ++ [.many] := by
  induction lead with
  | nil => simp [Alphabet.pieces]
  | cons c lead ih =>
      obtain ⟨⟨hmany, hone, hescape⟩, hrest⟩ := List.forall_mem_cons.mp hplain
      have hne : lead ++ [a.many] ≠ [] := by simp
      obtain ⟨d, pattern, heq⟩ := List.exists_cons_of_ne_nil hne
      rw [List.cons_append, heq, Alphabet.pieces, if_neg hescape, if_neg hmany, if_neg hone, ← heq,
        ih hrest]
      rfl

theorem fits_letters_many (lead text : List α) :
    a.fits (lead.map .letter ++ [.many]) text = true ↔
      lead.map a.fold <+: text.map a.fold := by
  induction lead generalizing text with
  | nil =>
      have hend : [] ∈ text.tails := (List.mem_tails [] text).mpr List.nil_suffix
      simp only [List.map_nil, List.nil_append, List.nil_prefix, iff_true, Alphabet.fits,
        List.any_eq_true]
      exact ⟨[], hend, rfl⟩
  | cons c lead ih =>
      cases text with
      | nil => simp [Alphabet.fits]
      | cons d text => simp [Alphabet.fits, ih, List.cons_prefix_cons]

/-- A plain text and the sign for any text fit what begins with the plain text. -/
theorem ilike_plain_many (hplain : a.IsPlain lead) (text : List α) :
    a.ilike (lead ++ [a.many]) text = true ↔ lead.map a.fold <+: text.map a.fold := by
  rw [Alphabet.ilike, pieces_plain_many hplain, fits_letters_many]

end Plain

end FastTAK.Like
