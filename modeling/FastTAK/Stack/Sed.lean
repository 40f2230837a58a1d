import FastTAK.Base.Substitute
import FastTAK.Base.Text

/-!
# Values in scripts of `sed`

A password is spliced into the replacement of an `s` command and into the text of a `c` command,
with a quote after it.  In both a backslash takes the character that follows as it is.
-/

namespace FastTAK.Sed

open FastTAK.Substitute

abbrev Line := List Char

/-! ## The `s` command -/

/-- The replacement of an `s` command, up to its delimiter, and the rest of the script.  `none` in
a replacement is `&`.  The patterns here have no groups that a digit could refer to. -/
def replacement (d : Char) : List Char → Option (List (Option Char) × List Char)
  | [] => none
  | ['\\'] => none
  | '\\' :: c :: rest =>
      if c ∈ "123456789".toList then none
      else (replacement d rest).map fun r => (some c :: r.1, r.2)
  | c :: rest =>
      if c = d then some ([], rest)
      else if c = '\n' then none
      else (replacement d rest).map fun r => ((if c = '&' then none else some c) :: r.1, r.2)

def expand (pieces : List (Option Char)) (matched : List Char) : List Char :=
  pieces.flatMap fun piece => piece.elim matched fun c => [c]

/-- `sed '<address>s<d><pattern><d><script>'`, where the script has the replacement and the
delimiter.  What follows the delimiter makes it another command, or none. -/
def substitute (d : Char) (address : Line → Bool) (p : Pattern) (script : List Char)
    (lines : List Line) : Option (List Line) :=
  match replacement d script with
  | some (pieces, []) =>
      some (lines.flatMap fun line =>
        if address line then (p.substFirst (expand pieces) line).splitOn '\n' else [line])
  | _ => none

/-! ## The `c` command -/

/-- The text of a `c` command.  A line break that no backslash precedes ends it. -/
def changeText : List Char → Option (List Char)
  | [] => some []
  | ['\\'] => none
  | '\\' :: c :: rest => (changeText rest).map (c :: ·)
  | c :: rest =>
      if c = '\n' then if rest = [] then some [] else none
      else (changeText rest).map (c :: ·)

/-- `/<first>/,/<last>/c\<text>`.  The flag says that the range has begun; the line that begins it
does not end it. -/
def changeRange (first last : Line → Bool) (text : List Line) : Bool → List Line → List Line
  | _, [] => []
  | false, line :: rest =>
      if first line then changeRange first last text true rest
      else line :: changeRange first last text false rest
  | true, line :: rest =>
      if last line then text ++ changeRange first last text false rest
      else changeRange first last text true rest

/-! ## A value before a quote -/

/-- What a script makes of a value that a quote follows.  `ends` are the characters that end the
argument, `refuses` those that may not follow a backslash. -/
def unquote (ends refuses : Char → Bool) : List Char → Option (List Char)
  | [] => some []
  | ['\\'] => some []
  | '\\' :: c :: rest => if refuses c then none else (unquote ends refuses rest).map (c :: ·)
  | c :: rest => if ends c then none else (unquote ends refuses rest).map (c :: ·)

/-- In a replacement. -/
def unquoteReplacement (d : Char) : List Char → Option (List Char) :=
  unquote (fun c => c = d || c = '\n') fun c => c ∈ "123456789".toList

/-- In the text of a `c` command. -/
def unquoteText : List Char → Option (List Char) := unquote (· = '\n') fun _ => false

section Values

variable {ends refuses : Char → Bool} {value out : List Char} {d : Char}

theorem ne_backslash {c : Char} {rest : List Char} (hlone : c = '\\' → rest = [] → False)
    (hescape : ∀ d tail, c = '\\' → rest = d :: tail → False) : c ≠ '\\' := by
  intro hc
  cases rest with
  | nil => exact hlone hc rfl
  | cons d tail => exact hescape d tail hc rfl

theorem unquote_cons {c : Char} (hc : c ≠ '\\') (rest : List Char) :
    unquote ends refuses (c :: rest) =
      if ends c then none else (unquote ends refuses rest).map (c :: ·) :=
  unquote.eq_4 ends refuses c rest (fun h _ => hc h) fun _ _ h _ => hc h

theorem replacement_cons {c : Char} (hc : c ≠ '\\') (rest : List Char) :
    replacement d (c :: rest) =
      if c = d then some ([], rest)
      else if c = '\n' then none
      else (replacement d rest).map fun r => ((if c = '&' then none else some c) :: r.1, r.2) :=
  replacement.eq_4 d c rest (fun h _ => hc h) fun _ _ h _ => hc h

theorem changeText_cons {c : Char} (hc : c ≠ '\\') (rest : List Char) :
    changeText (c :: rest) =
      if c = '\n' then if rest = [] then some [] else none
      else (changeText rest).map (c :: ·) :=
  changeText.eq_4 c rest (fun h _ => hc h) fun _ _ h _ => hc h

/-- A value with a backslash loses one. -/
theorem unquote_cases (h : unquote ends refuses value = some out) :
    ('\\' ∉ value ∧ out = value) ∨ out.count '\\' < value.count '\\' := by
  induction value using unquote.induct ends refuses generalizing out with
  | case1 => exact Or.inl ⟨List.not_mem_nil, by simpa [unquote] using h.symm⟩
  | case2 =>
      obtain rfl : out = [] := by simpa [unquote] using h.symm
      exact Or.inr (by simp)
  | case3 c rest hrefuses => simp [unquote, hrefuses] at h
  | case4 c rest hrefuses ih =>
      rw [unquote, if_neg hrefuses, Option.map_eq_some_iff] at h
      obtain ⟨tail, htail, rfl⟩ := h
      apply Or.inr
      have hle : tail.count '\\' ≤ rest.count '\\' := by
        rcases ih htail with ⟨-, rfl⟩ | hlt
        · exact le_rfl
        · exact hlt.le
      rw [List.count_cons_self, List.count_cons, List.count_cons]
      omega
  | case5 c rest hlone hescape hends =>
      rw [unquote_cons (ne_backslash hlone hescape), if_pos hends] at h
      cases h
  | case6 c rest hlone hescape hends ih =>
      have hc := ne_backslash hlone hescape
      rw [unquote_cons hc, if_neg hends, Option.map_eq_some_iff] at h
      obtain ⟨tail, htail, rfl⟩ := h
      rcases ih htail with ⟨hnone, rfl⟩ | hlt
      · left
        exact ⟨by simp [hnone, Ne.symm hc], rfl⟩
      · right
        rwa [List.count_cons_of_ne hc, List.count_cons_of_ne hc]

theorem mem_of_unquote (h : unquote ends refuses value = some out) {c : Char} (hc : c ∈ out) :
    c ∈ value := by
  induction value using unquote.induct ends refuses generalizing out with
  | case1 =>
      obtain rfl : out = [] := by simpa [unquote] using h.symm
      exact hc
  | case2 =>
      obtain rfl : out = [] := by simpa [unquote] using h.symm
      cases hc
  | case3 d rest hrefuses => simp [unquote, hrefuses] at h
  | case4 d rest hrefuses ih =>
      rw [unquote, if_neg hrefuses, Option.map_eq_some_iff] at h
      obtain ⟨tail, htail, rfl⟩ := h
      apply List.mem_cons_of_mem
      rcases List.mem_cons.mp hc with rfl | hc
      · exact List.mem_cons_self
      · exact List.mem_cons_of_mem _ (ih htail hc)
  | case5 d rest hlone hescape hends =>
      rw [unquote_cons (ne_backslash hlone hescape), if_pos hends] at h
      cases h
  | case6 d rest hlone hescape hends ih =>
      rw [unquote_cons (ne_backslash hlone hescape), if_neg hends, Option.map_eq_some_iff] at h
      obtain ⟨tail, htail, rfl⟩ := h
      rcases List.mem_cons.mp hc with rfl | hc
      · exact List.mem_cons_self
      · exact List.mem_cons_of_mem _ (ih htail hc)

theorem unquote_plain (hnone : '\\' ∉ value) (hends : ∀ c ∈ value, ¬ ends c) :
    unquote ends refuses value = some value := by
  induction value with
  | nil => rfl
  | cons c value ih =>
      have hc : c ≠ '\\' := fun h => hnone (h ▸ List.mem_cons_self)
      rw [unquote_cons hc, if_neg (hends c List.mem_cons_self),
        ih (fun h => hnone (List.mem_cons_of_mem _ h))
          fun d hd => hends d (List.mem_cons_of_mem _ hd)]
      rfl

theorem unquote_ends (hnone : '\\' ∉ value) {c : Char} (hc : c ∈ value) (hends : ends c) :
    unquote ends refuses value = none := by
  induction value with
  | nil => cases hc
  | cons d value ih =>
      rw [unquote_cons fun h => hnone (h ▸ List.mem_cons_self)]
      split_ifs with hd
      · rfl
      · have hmem : c ∈ value := by
          rcases List.mem_cons.mp hc with rfl | hmem
          · exact absurd hends hd
          · exact hmem
        rw [ih (fun h => hnone (List.mem_cons_of_mem _ h)) hmem, Option.map_none]

/-- The value passes as it is if and only if nothing in it is special. -/
theorem unquote_eq_self_iff :
    unquote ends refuses value = some value ↔ '\\' ∉ value ∧ ∀ c ∈ value, ¬ ends c := by
  constructor
  · intro h
    have hnone : '\\' ∉ value := by
      rcases unquote_cases h with hplain | hlt
      · exact hplain.1
      · exact absurd hlt (lt_irrefl _)
    refine ⟨hnone, fun c hc hends => ?_⟩
    rw [unquote_ends hnone hc hends] at h
    cases h
  · exact fun h => unquote_plain h.1 h.2

theorem replacement_value (hamp : '&' ∉ value) (hd : d ≠ '"')
    (h : unquoteReplacement d value = some out) (rest : List Char) :
    replacement d (value ++ '"' :: rest) =
      (replacement d rest).map fun r => ((out ++ ['"']).map some ++ r.1, r.2) := by
  rw [unquoteReplacement] at h
  induction value using unquote.induct (fun c => c = d || c = '\n')
      (fun c => decide (c ∈ "123456789".toList)) generalizing out with
  | case1 =>
      obtain rfl : out = [] := by simpa [unquote] using h.symm
      rw [List.nil_append, replacement_cons (by decide), if_neg hd.symm, if_neg (by decide)]
      rfl
  | case2 =>
      obtain rfl : out = [] := by simpa [unquote] using h.symm
      rw [List.cons_append, List.nil_append, replacement, if_neg (by decide)]
      rfl
  | case3 c value hrefuses =>
      rw [unquote, if_pos hrefuses] at h
      cases h
  | case4 c value hrefuses ih =>
      rw [unquote, if_neg hrefuses, Option.map_eq_some_iff] at h
      obtain ⟨tail, htail, rfl⟩ := h
      rw [List.cons_append, List.cons_append, replacement, if_neg (by simpa using hrefuses),
        ih (fun hmem => hamp (by simp [hmem])) htail, Option.map_map]
      rfl
  | case5 c value hlone hescape hends =>
      rw [unquote_cons (ne_backslash hlone hescape), if_pos hends] at h
      cases h
  | case6 c value hlone hescape hends ih =>
      have hc := ne_backslash hlone hescape
      rw [unquote_cons hc, if_neg hends, Option.map_eq_some_iff] at h
      obtain ⟨tail, htail, rfl⟩ := h
      simp only [Bool.or_eq_true, decide_eq_true_eq, not_or] at hends
      have hcamp : c ≠ '&' := fun heq => hamp (heq ▸ List.mem_cons_self)
      rw [List.cons_append, replacement_cons hc, if_neg hends.1, if_neg hends.2, if_neg hcamp,
        ih (fun hmem => hamp (List.mem_cons_of_mem _ hmem)) htail, Option.map_map]
      rfl

/-- A script whose value is cut short is another script. -/
theorem replacement_value_none (h : unquoteReplacement d value = none)
    (rest : List Char) (pieces : List (Option Char)) :
    replacement d (value ++ '"' :: rest) ≠ some (pieces, []) := by
  rw [unquoteReplacement] at h
  induction value using unquote.induct (fun c => c = d || c = '\n')
      (fun c => decide (c ∈ "123456789".toList)) generalizing pieces with
  | case1 => cases h
  | case2 => cases h
  | case3 c value hrefuses =>
      rw [List.cons_append, List.cons_append, replacement, if_pos (by simpa using hrefuses)]
      exact fun h => Option.some_ne_none _ h.symm
  | case4 c value hrefuses ih =>
      rw [unquote, if_neg hrefuses, Option.map_eq_none_iff] at h
      rw [List.cons_append, List.cons_append, replacement, if_neg (by simpa using hrefuses)]
      intro hsome
      obtain ⟨r, hr, heq⟩ := Option.map_eq_some_iff.mp hsome
      apply ih h r.1
      rw [hr, ← (Prod.mk.inj heq).2]
  | case5 c value hlone hescape hends =>
      rw [List.cons_append, replacement_cons (ne_backslash hlone hescape)]
      by_cases hc : c = d
      · rw [if_pos hc]
        intro hsome
        exact absurd (Prod.mk.inj (Option.some.inj hsome)).2 (by simp)
      · have hbreak : c = '\n' := by simpa [hc] using hends
        rw [if_neg hc, if_pos hbreak]
        exact fun h => Option.some_ne_none _ h.symm
  | case6 c value hlone hescape hends ih =>
      have hc := ne_backslash hlone hescape
      rw [unquote_cons hc, if_neg hends, Option.map_eq_none_iff] at h
      simp only [Bool.or_eq_true, decide_eq_true_eq, not_or] at hends
      rw [List.cons_append, replacement_cons hc, if_neg hends.1, if_neg hends.2]
      intro hsome
      obtain ⟨r, hr, heq⟩ := Option.map_eq_some_iff.mp hsome
      apply ih h r.1
      rw [hr, ← (Prod.mk.inj heq).2]

theorem replacement_plain {head : List Char}
    (hhead : head.all fun c => c ∉ ['\\', d, '\n', '&']) (rest : List Char) :
    replacement d (head ++ rest) =
      (replacement d rest).map fun r => (head.map some ++ r.1, r.2) := by
  induction head with
  | nil => simp
  | cons c head ih =>
      rw [List.all_cons, Bool.and_eq_true] at hhead
      obtain ⟨hc, hrest⟩ := hhead
      simp only [List.mem_cons, List.not_mem_nil, or_false, not_or, decide_eq_true_eq] at hc
      obtain ⟨hslash, hdelim, hbreak, hamp⟩ := hc
      rw [List.cons_append, replacement_cons hslash, if_neg hdelim, if_neg hbreak, if_neg hamp,
        ih hrest, Option.map_map]
      rfl

theorem expand_chars (chars matched : List Char) : expand (chars.map some) matched = chars := by
  simp [expand, List.flatMap_map]

/-- The script `<head><value>"<d>`. -/
theorem substitute_value {head : List Char}
    (hhead : head.all fun c => c ∉ ['\\', d, '\n', '&']) (hamp : '&' ∉ value)
    (hd : d ≠ '"' ∧ d ≠ '\\') (address : Line → Bool) (p : Pattern) (lines : List Line) :
    substitute d address p (head ++ (value ++ '"' :: [d])) lines =
      (unquoteReplacement d value).map fun out => lines.flatMap fun line =>
        if address line then
          (p.substFirst (fun _ => head ++ (out ++ ['"'])) line).splitOn '\n'
        else [line] := by
  have hdelim : replacement d [d] = some ([], []) := by
    rw [replacement_cons hd.2, if_pos rfl]
  cases hout : unquoteReplacement d value with
  | some out =>
      have hexpand : expand ((head ++ (out ++ ['"'])).map some) = fun _ => head ++ (out ++ ['"']) :=
        funext fun matched => expand_chars _ matched
      rw [substitute, replacement_plain hhead, replacement_value hamp hd.1 hout, hdelim]
      simp only [Option.map_some, List.append_nil, ← List.map_append, hexpand]
  | none =>
      rw [substitute, replacement_plain hhead, Option.map_none]
      cases hrest : replacement d (value ++ '"' :: [d]) with
      | none => rfl
      | some r =>
          obtain ⟨pieces, rest⟩ := r
          cases rest with
          | nil => exact absurd hrest (replacement_value_none hout [d] pieces)
          | cons c rest => rfl

theorem changeText_value (h : unquoteText value = some out) (rest : List Char) :
    changeText (value ++ '"' :: rest) = (changeText rest).map ((out ++ ['"']) ++ ·) := by
  rw [unquoteText] at h
  induction value using unquote.induct (fun c => decide (c = '\n')) (fun _ => false)
      generalizing out with
  | case1 =>
      obtain rfl : out = [] := by simpa [unquote] using h.symm
      rw [List.nil_append, changeText_cons (by decide), if_neg (by decide)]
      rfl
  | case2 =>
      obtain rfl : out = [] := by simpa [unquote] using h.symm
      rw [List.cons_append, List.nil_append, changeText]
      rfl
  | case3 c value hrefuses => cases hrefuses
  | case4 c value hrefuses ih =>
      rw [unquote, if_neg hrefuses, Option.map_eq_some_iff] at h
      obtain ⟨tail, htail, rfl⟩ := h
      rw [List.cons_append, List.cons_append, changeText, ih htail, Option.map_map]
      rfl
  | case5 c value hlone hescape hends =>
      rw [unquote_cons (ne_backslash hlone hescape), if_pos hends] at h
      cases h
  | case6 c value hlone hescape hends ih =>
      have hc := ne_backslash hlone hescape
      rw [unquote_cons hc, if_neg hends, Option.map_eq_some_iff] at h
      obtain ⟨tail, htail, rfl⟩ := h
      rw [List.cons_append, changeText_cons hc, if_neg (by simpa using hends), ih htail,
        Option.map_map]
      rfl

theorem changeText_value_none (h : unquoteText value = none) (rest : List Char) :
    changeText (value ++ '"' :: rest) = none := by
  rw [unquoteText] at h
  induction value using unquote.induct (fun c => decide (c = '\n')) (fun _ => false) with
  | case1 => cases h
  | case2 => cases h
  | case3 c value hrefuses => cases hrefuses
  | case4 c value hrefuses ih =>
      rw [unquote, if_neg hrefuses, Option.map_eq_none_iff] at h
      rw [List.cons_append, List.cons_append, changeText, ih h, Option.map_none]
  | case5 c value hlone hescape hends =>
      rw [List.cons_append, changeText_cons (ne_backslash hlone hescape),
        if_pos (by simpa using hends), if_neg (by simp)]
  | case6 c value hlone hescape hends ih =>
      have hc := ne_backslash hlone hescape
      rw [unquote_cons hc, if_neg hends, Option.map_eq_none_iff] at h
      rw [List.cons_append, changeText_cons hc, if_neg (by simpa using hends), ih h,
        Option.map_none]

theorem changeText_plain {head : List Char} (hhead : ∀ c ∈ head, c ≠ '\\' ∧ c ≠ '\n')
    (rest : List Char) : changeText (head ++ rest) = (changeText rest).map (head ++ ·) := by
  induction head with
  | nil => simp
  | cons c head ih =>
      obtain ⟨hslash, hbreak⟩ := hhead c List.mem_cons_self
      rw [List.cons_append, changeText_cons hslash, if_neg hbreak,
        ih fun e he => hhead e (List.mem_cons_of_mem _ he), Option.map_map]
      rfl

end Values

/-! ## Ranges -/

section Ranges

variable {first last : Line → Bool} {text lines : List Line}

/-- Lines that do not begin a range stay. -/
theorem changeRange_outside (h : ∀ line ∈ lines, ¬ first line) (rest : List Line) :
    changeRange first last text false (lines ++ rest) =
      lines ++ changeRange first last text false rest := by
  induction lines with
  | nil => rfl
  | cons line lines ih =>
      rw [List.cons_append, changeRange, if_neg (h line List.mem_cons_self),
        ih fun other hother => h other (List.mem_cons_of_mem _ hother)]
      rfl

/-- A range is replaced as a whole. -/
theorem changeRange_block {opening closing : Line} {inner : List Line} (hopening : first opening)
    (hinner : ∀ line ∈ inner, ¬ last line) (hclosing : last closing) (rest : List Line) :
    changeRange first last text false (opening :: (inner ++ closing :: rest)) =
      text ++ changeRange first last text false rest := by
  rw [changeRange, if_pos hopening]
  induction inner with
  | nil => rw [List.nil_append, changeRange, if_pos hclosing]
  | cons line inner ih =>
      rw [List.cons_append, changeRange, if_neg (hinner line List.mem_cons_self)]
      exact ih fun other hother => hinner other (List.mem_cons_of_mem _ hother)

theorem mem_changeRange {line : Line} {inside : Bool}
    (h : line ∈ changeRange first last text inside lines) : line ∈ text ∨ line ∈ lines := by
  induction lines generalizing inside with
  | nil =>
      rw [changeRange] at h
      cases h
  | cons other lines ih =>
      cases inside with
      | false =>
          rw [changeRange] at h
          split_ifs at h
          · exact (ih h).imp_right (List.mem_cons_of_mem _)
          · rcases List.mem_cons.mp h with rfl | hrest
            · exact Or.inr List.mem_cons_self
            · exact (ih hrest).imp_right (List.mem_cons_of_mem _)
      | true =>
          rw [changeRange] at h
          split_ifs at h
          · rcases List.mem_append.mp h with htext | hrest
            · exact Or.inl htext
            · exact (ih hrest).imp_right (List.mem_cons_of_mem _)
          · exact (ih h).imp_right (List.mem_cons_of_mem _)

end Ranges

/-! ## Lines -/

def OneLine (lines : List Line) : Prop := ∀ line ∈ lines, '\n' ∉ line

theorem OneLine.substitute {d : Char} {address : Line → Bool} {p : Pattern} {script : List Char}
    {lines out : List Line} (hlines : OneLine lines)
    (h : substitute d address p script lines = some out) : OneLine out := by
  rw [Sed.substitute] at h
  split at h
  · obtain rfl := Option.some.inj h
    intro line hline
    obtain ⟨source, hsource, hin⟩ := List.mem_flatMap.mp hline
    split_ifs at hin
    · exact Text.not_mem_of_mem_splitOn hin
    · rw [List.mem_singleton.mp hin]
      exact hlines source hsource
  · cases h

theorem OneLine.changeRange {first last : Line → Bool} {text lines : List Line} {inside : Bool}
    (htext : OneLine text) (hlines : OneLine lines) :
    OneLine (changeRange first last text inside lines) :=
  fun line hline => (mem_changeRange hline).elim (htext line) (hlines line)

end FastTAK.Sed
