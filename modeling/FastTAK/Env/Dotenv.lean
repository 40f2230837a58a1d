import FastTAK.Base.Text

/-!
# Reading `.env`

`env_get` next to the dotenv grammar of Compose.  Both find the same assignment; they read
its value differently when blanks follow the `=` or a comment follows an unquoted value.
-/

namespace FastTAK.Env

open FastTAK.Text

/-! ## Lines -/

/-- The lines of a text; what follows the last line break is the last one. -/
def lines (file : List Char) : List (List Char) := file.splitOn '\n'

/-- `[[:space:]]` within a line. -/
def isSpace (c : Char) : Bool :=
  c == ' ' || c == '\t' || c == Char.ofNat 11 || c == Char.ofNat 12 || c == '\r'

def isKeyChar (c : Char) : Bool := c.isAlphanum || c == '_'

/-- A key, as `env_keys` lists them. -/
structure Key where
  chars : List Char
  nonempty : chars ≠ []
  valid : ∀ c ∈ chars, isKeyChar c
deriving DecidableEq

theorem not_isSpace_of_isKeyChar {c : Char} (h : isKeyChar c) : isSpace c = false := by
  by_contra hspace
  rw [Bool.not_eq_false] at hspace
  simp only [isSpace, Bool.or_eq_true, beq_iff_eq] at hspace
  rcases hspace with (((rfl | rfl) | rfl) | rfl) | rfl <;> exact absurd h (by decide)

theorem Key.not_mem_equals (key : Key) : '=' ∉ key.chars :=
  fun hmem => absurd (key.valid '=' hmem) (by decide)

def exportWord : List Char := ['e', 'x', 'p', 'o', 'r', 't']

/-- What follows `export` and blanks. -/
def afterExport (text : List Char) : Option (List Char) :=
  if exportWord <+: text ∧ (text.drop 6).head?.any isSpace then
    some ((text.drop 6).dropWhile isSpace)
  else none

/-! ## The shell -/

/-- `grep -E "^[[:space:]]*(export[[:space:]]+)?${key}="`. -/
def assigns (key : Key) (line : List Char) : Bool :=
  let body := line.dropWhile isSpace
  (key.chars ++ ['=']).isPrefixOf body ||
    (afterExport body).any (key.chars ++ ['=']).isPrefixOf

/-- `${line#*=}`. -/
def afterEquals (line : List Char) : List Char := (line.dropWhile (· ≠ '=')).drop 1

/-- The `case` of `env_get` over the value. -/
def shellValue : List Char → List Char
  | '"' :: rest => rest.takeWhile (· ≠ '"')
  | '\'' :: rest => rest.takeWhile (· ≠ '\'')
  | val => val.rdropWhile isSpace

/-- `env_get`. -/
def envGet (file : List Char) (key : Key) : List Char :=
  match ((lines file).filter (assigns key)).getLast? with
  | none => []
  | some line => shellValue (afterEquals line)

/-- `env_has`. -/
def envHas (file : List Char) (key : Key) : Bool := (lines file).any (assigns key)

/-! ## Compose -/

/-- The key and the value of a line. -/
def composeAssignment (line : List Char) : Option (List Char × List Char) :=
  let body := line.dropWhile isSpace
  let assignment := (afterExport body).getD body
  if '=' ∈ assignment then some (assignment.takeWhile (· ≠ '='), afterEquals assignment)
  else none

/-- What stands before the first blank that a `#` follows. -/
def beforeComment : List Char → List Char
  | c :: '#' :: rest => if isSpace c then [] else c :: beforeComment ('#' :: rest)
  | c :: rest => c :: beforeComment rest
  | [] => []

/-- A quoted value up to the quote that matches, if it is on the line. -/
def quoted (quote : Char) (rest : List Char) : Option (List Char) :=
  if quote ∈ rest then some (rest.takeWhile (· ≠ quote)) else none

/-- A value of one line. -/
def composeValue (val : List Char) : Option (List Char) :=
  match val.dropWhile isSpace with
  | '"' :: rest => quoted '"' rest
  | '\'' :: rest => quoted '\'' rest
  | rest => some ((beforeComment rest).rdropWhile isSpace)

/-- The value that the last line with the key assigns. -/
def lastAssignment (file : List Char) (key : Key) : Option (List Char) :=
  (((lines file).filterMap composeAssignment).filter (·.1 = key.chars)).getLast?.map Prod.snd

/-- The value that Compose reads, if it is one of one line; a key that is not there has none,
which reads as the empty one. -/
def composeGet (file : List Char) (key : Key) : Option (List Char) :=
  match lastAssignment file key with
  | none => some []
  | some val => composeValue val

/-- All values are of one line. -/
def OneLine (file : List Char) : Prop :=
  ∀ line ∈ lines file, ∀ key val, composeAssignment line = some (key, val) →
    composeValue val ≠ none

instance (file : List Char) : Decidable (OneLine file) :=
  decidable_of_iff (∀ line ∈ lines file, ∀ a ∈ composeAssignment line, composeValue a.2 ≠ none)
    (forall₂_congr fun _ _ => Prod.forall)

/-! ## The same assignment -/

section Assignment

variable {key : Key} {val : List Char}

theorem head_equals_not_space {rest : List Char} : ¬ ('=' :: rest).head?.any isSpace := by
  rw [List.head?_cons]
  decide

/-- A key is not the word `export` before a blank. -/
theorem afterExport_key : afterExport (key.chars ++ '=' :: val) = none := by
  apply if_neg
  intro hexport
  obtain ⟨⟨rest, hrest⟩, hblank⟩ := hexport
  have hdrop : (key.chars ++ '=' :: val).drop 6 = rest := by
    rw [← hrest]
    exact List.drop_left' rfl
  rw [hdrop] at hblank
  rcases List.append_eq_append_iff.mp hrest with ⟨more, hkey, hmore⟩ | ⟨more, hword, hmore⟩
  · cases more with
    | nil =>
        rw [hmore] at hblank
        exact head_equals_not_space hblank
    | cons c more =>
        have hc : isKeyChar c := key.valid c (by rw [hkey]; simp)
        rw [hmore, List.cons_append, List.head?_cons, Option.any_some,
          not_isSpace_of_isKeyChar hc] at hblank
        cases hblank
  · cases more with
    | nil =>
        rw [List.nil_append] at hmore
        rw [← hmore] at hblank
        exact head_equals_not_space hblank
    | cons c more =>
        cases hmore
        have hmem : '=' ∈ exportWord := by rw [hword]; simp
        exact absurd hmem (by decide)

theorem takeWhile_key : (key.chars ++ '=' :: val).takeWhile (· ≠ '=') = key.chars := by
  rw [List.takeWhile_append_of_pos]
  · simp
  · intro c hc
    apply decide_eq_true
    rintro rfl
    exact key.not_mem_equals hc

theorem afterEquals_key : afterEquals (key.chars ++ '=' :: val) = val := by
  rw [afterEquals, List.dropWhile_append_of_pos]
  · simp
  · intro c hc
    apply decide_eq_true
    rintro rfl
    exact key.not_mem_equals hc

theorem afterEquals_append {lead text : List Char} (hlead : '=' ∉ lead) :
    afterEquals (lead ++ text) = afterEquals text := by
  rw [afterEquals, afterEquals, List.dropWhile_append_of_pos]
  intro c hc
  apply decide_eq_true
  rintro rfl
  exact hlead hc

theorem not_mem_equals_of_spaces {text : List Char} : '=' ∉ text.takeWhile isSpace := by
  intro hmem
  exact absurd (List.mem_takeWhile_imp hmem) (by decide)

/-- What stands before the assignment of a line has no `=`. -/
theorem afterEquals_line (line : List Char) :
    afterEquals line = afterEquals
      ((afterExport (line.dropWhile isSpace)).getD (line.dropWhile isSpace)) := by
  have hbody : afterEquals line = afterEquals (line.dropWhile isSpace) := by
    calc afterEquals line
        = afterEquals (line.takeWhile isSpace ++ line.dropWhile isSpace) := by
          rw [List.takeWhile_append_dropWhile]
      _ = afterEquals (line.dropWhile isSpace) := afterEquals_append not_mem_equals_of_spaces
  rw [hbody, afterExport]
  split_ifs with hexport
  · obtain ⟨⟨rest, hrest⟩, -⟩ := hexport
    have hdrop : (line.dropWhile isSpace).drop 6 = rest := by
      rw [← hrest]
      exact List.drop_left' rfl
    rw [Option.getD_some, hdrop]
    calc afterEquals (line.dropWhile isSpace)
        = afterEquals (exportWord ++ rest) := by rw [hrest]
      _ = afterEquals rest := afterEquals_append (by decide)
      _ = afterEquals (rest.takeWhile isSpace ++ rest.dropWhile isSpace) := by
          rw [List.takeWhile_append_dropWhile]
      _ = afterEquals (rest.dropWhile isSpace) := afterEquals_append not_mem_equals_of_spaces
  · rfl

theorem leads_takeWhile_equals {text : List Char} (h : '=' ∈ text) :
    text.takeWhile (· ≠ '=') ++ ['='] <+: text := by
  induction text with
  | nil => cases h
  | cons c text ih =>
      by_cases hc : c = '='
      · subst hc
        exact ⟨text, rfl⟩
      · simp only [List.takeWhile_cons, decide_eq_true (p := c ≠ '=') hc, if_true, List.cons_append]
        apply List.cons_prefix_cons.mpr ⟨rfl, ih _⟩
        exact (List.mem_cons.mp h).resolve_left (Ne.symm hc)

/-- The shell and Compose take the same lines for assignments of a key. -/
theorem assigns_iff {line : List Char} :
    assigns key line ↔ ∃ val, composeAssignment line = some (key.chars, val) := by
  have hequals : ∀ {text : List Char}, key.chars ++ ['='] <+: text →
      ∃ val, text = key.chars ++ '=' :: val := by
    rintro text ⟨val, rfl⟩
    exact ⟨val, by rw [List.append_assoc]; rfl⟩
  have hassignment : ∀ val, '=' ∈ key.chars ++ '=' :: val := fun val => by simp
  simp only [assigns, Bool.or_eq_true, List.isPrefixOf_iff_prefix, Option.any_eq_true]
  constructor
  · rintro (hbody | ⟨rest, hexport, hrest⟩)
    · obtain ⟨val, hval⟩ := hequals hbody
      refine ⟨val, ?_⟩
      simp only [composeAssignment, hval, afterExport_key, Option.getD_none,
        if_pos (hassignment val), takeWhile_key, afterEquals_key]
    · obtain ⟨val, hval⟩ := hequals hrest
      refine ⟨val, ?_⟩
      simp only [composeAssignment, hexport, Option.getD_some, hval, if_pos (hassignment val),
        takeWhile_key, afterEquals_key]
  · rintro ⟨val, hval⟩
    have hlead : key.chars ++ ['='] <+:
        (afterExport (line.dropWhile isSpace)).getD (line.dropWhile isSpace) := by
      simp only [composeAssignment] at hval
      split_ifs at hval with hmem
      obtain ⟨hkey, -⟩ := Prod.mk.inj (Option.some.inj hval)
      rw [← hkey]
      exact leads_takeWhile_equals hmem
    cases hexport : afterExport (line.dropWhile isSpace) with
    | none =>
        rw [hexport] at hlead
        exact Or.inl hlead
    | some rest =>
        rw [hexport] at hlead
        exact Or.inr ⟨rest, rfl, hlead⟩

theorem composeAssignment_value {line key val : List Char}
    (h : composeAssignment line = some (key, val)) : val = afterEquals line := by
  simp only [composeAssignment] at h
  split_ifs at h with hmem
  rw [afterEquals_line]
  exact (Prod.mk.inj (Option.some.inj h)).2.symm

theorem filter_assigns (key : Key) (rows : List (List Char)) :
    ((rows.filterMap composeAssignment).filter (·.1 = key.chars)).map Prod.snd =
      (rows.filter (assigns key)).map afterEquals := by
  induction rows with
  | nil => rfl
  | cons line rows ih =>
      by_cases hassigns : assigns key line
      · obtain ⟨val, hval⟩ := assigns_iff.mp hassigns
        simp only [List.filterMap_cons_some hval, List.filter_cons, hassigns, if_true,
          decide_true, List.map_cons, ih, composeAssignment_value hval]
      · rw [List.filter_cons_of_neg hassigns, ← ih]
        cases hother : composeAssignment line with
        | none => rw [List.filterMap_cons_none hother]
        | some a =>
            rw [List.filterMap_cons_some hother, List.filter_cons_of_neg]
            intro hkey
            apply hassigns
            exact assigns_iff.mpr ⟨a.2, by rw [hother, ← of_decide_eq_true hkey]⟩

theorem lastAssignment_eq (file : List Char) (key : Key) :
    lastAssignment file key =
      ((lines file).filter (assigns key)).getLast?.map afterEquals := by
  rw [lastAssignment, ← List.getLast?_map, filter_assigns, List.getLast?_map]

/-- `env_get` reads the assignment that Compose takes. -/
theorem envGet_eq (file : List Char) (key : Key) :
    envGet file key = ((lastAssignment file key).map shellValue).getD [] := by
  rw [envGet, lastAssignment_eq]
  cases ((lines file).filter (assigns key)).getLast? with
  | none => rfl
  | some line => rfl

end Assignment

/-! ## The same value -/

/-- A value that both read the same: blank, or quoted, or without a comment, the latter two
without a blank in front. -/
def Plain (val : List Char) : Prop :=
  val.all isSpace ∨ val.head? = some '"' ∨ val.head? = some '\'' ∨
    ¬ val.head?.any isSpace ∧ beforeComment val = val

instance (val : List Char) : Decidable (Plain val) :=
  inferInstanceAs (Decidable (val.all isSpace ∨ val.head? = some '"' ∨
    val.head? = some '\'' ∨ ¬ val.head?.any isSpace ∧ beforeComment val = val))

section Value

variable {val lead rest : List Char} {c : Char}

theorem rdropWhile_append_cons (hc : ¬ isSpace c) :
    (lead ++ c :: rest).rdropWhile isSpace = lead ++ c :: rest.rdropWhile isSpace := by
  have hkeep : (c :: lead.reverse).dropWhile isSpace = c :: lead.reverse :=
    List.dropWhile_cons_of_neg hc
  simp only [List.rdropWhile, List.reverse_append, List.reverse_cons, List.append_assoc,
    List.singleton_append, List.dropWhile_append, hkeep]
  split_ifs with hblank
  · rw [List.isEmpty_iff.mp hblank]
    simp
  · simp

theorem rdropWhile_blank (h : ∀ c ∈ val, isSpace c) : val.rdropWhile isSpace = [] :=
  List.rdropWhile_eq_nil_iff.mpr h

theorem dropWhile_blank (h : ∀ c ∈ val, isSpace c) : val.dropWhile isSpace = [] :=
  List.dropWhile_eq_nil_iff.mpr h

/-- A comment is cut off together with the blank in front of it. -/
theorem beforeComment_cut (val : List Char) :
    beforeComment val = val ∨
      ∃ blank rest, isSpace blank ∧ val = beforeComment val ++ blank :: '#' :: rest := by
  induction val with
  | nil => exact Or.inl rfl
  | cons c val ih =>
      by_cases hcut : isSpace c ∧ val.head? = some '#'
      · obtain ⟨hc, hhash⟩ := hcut
        obtain ⟨rest, rfl⟩ := List.head?_eq_some_iff.mp hhash
        right
        use c, rest, hc
        simp [beforeComment, hc]
      · have hstep : beforeComment (c :: val) = c :: beforeComment val := by
          cases val with
          | nil => rfl
          | cons d val =>
              by_cases hd : d = '#'
              · subst hd
                have hc : ¬ isSpace c := fun hc => hcut ⟨hc, rfl⟩
                simp [beforeComment, hc]
              · rw [beforeComment]
                rintro rest ⟨rfl, -⟩
                exact hd rfl
        rcases ih with hsame | ⟨blank, rest, hblank, hrest⟩
        · rw [hstep, hsame]
          exact Or.inl rfl
        · right
          use blank, rest, hblank
          rw [hstep, List.cons_append, ← hrest]

theorem beforeComment_leads (val : List Char) : beforeComment val <+: val := by
  rcases beforeComment_cut val with hsame | ⟨blank, rest, -, hrest⟩
  · rw [hsame]
  · exact ⟨_, hrest.symm⟩

theorem shellValue_unquoted (hdouble : val.head? ≠ some '"') (hsingle : val.head? ≠ some '\'') :
    shellValue val = val.rdropWhile isSpace := by
  cases val with
  | nil => rfl
  | cons c rest =>
      apply shellValue.eq_3
      · rintro rest ⟨rfl, -⟩
        exact hdouble rfl
      · rintro rest ⟨rfl, -⟩
        exact hsingle rfl

theorem composeValue_unquoted (val : List Char)
    (hdouble : (val.dropWhile isSpace).head? ≠ some '"')
    (hsingle : (val.dropWhile isSpace).head? ≠ some '\'') :
    composeValue val = some ((beforeComment (val.dropWhile isSpace)).rdropWhile isSpace) := by
  rw [composeValue]
  split
  · next h => exact absurd (by rw [h]; rfl) hdouble
  · next h => exact absurd (by rw [h]; rfl) hsingle
  · rfl

/-- A closed value has no quote. -/
theorem not_mem_quoted {quote : Char} {text : List Char} (h : quoted quote rest = some text) :
    quote ∉ text := by
  intro hmem
  rw [quoted] at h
  split_ifs at h
  rw [← Option.some.inj h] at hmem
  have hother := List.mem_takeWhile_imp hmem
  simp at hother

theorem blank_agree (h : ∀ c ∈ val, isSpace c) : composeValue val = some (shellValue val) := by
  have hdouble : val.head? ≠ some '"' := fun hhead =>
    absurd (h _ (List.mem_of_mem_head? hhead)) (by decide)
  have hsingle : val.head? ≠ some '\'' := fun hhead =>
    absurd (h _ (List.mem_of_mem_head? hhead)) (by decide)
  rw [shellValue_unquoted hdouble hsingle, rdropWhile_blank h, composeValue, dropWhile_blank h]
  rfl

theorem double_agree (h : composeValue ('"' :: rest) ≠ none) :
    composeValue ('"' :: rest) = some (shellValue ('"' :: rest)) := by
  have hquoted : composeValue ('"' :: rest) = quoted '"' rest := rfl
  rw [hquoted, quoted] at h ⊢
  split_ifs at h ⊢
  · rfl
  · exact absurd rfl h

theorem single_agree (h : composeValue ('\'' :: rest) ≠ none) :
    composeValue ('\'' :: rest) = some (shellValue ('\'' :: rest)) := by
  have hquoted : composeValue ('\'' :: rest) = quoted '\'' rest := rfl
  rw [hquoted, quoted] at h ⊢
  split_ifs at h ⊢
  · rfl
  · exact absurd rfl h

/-- What is left of a value that a comment follows is shorter than the whole one, blanks at its
end or not. -/
theorem unquoted_agree_iff (hspace : ¬ isSpace c) (hdouble : c ≠ '"') (hsingle : c ≠ '\'') :
    composeValue (c :: rest) = some (shellValue (c :: rest)) ↔
      beforeComment (c :: rest) = c :: rest := by
  have hdrop : (c :: rest).dropWhile isSpace = c :: rest := List.dropWhile_cons_of_neg hspace
  have hshell : shellValue (c :: rest) = (c :: rest).rdropWhile isSpace :=
    shellValue_unquoted (fun h => hdouble (Option.some.inj h)) fun h => hsingle (Option.some.inj h)
  have hcompose : composeValue (c :: rest) =
      some ((beforeComment (c :: rest)).rdropWhile isSpace) := by
    have h := composeValue_unquoted (c :: rest)
    rw [hdrop] at h
    exact h (fun h => hdouble (Option.some.inj h)) fun h => hsingle (Option.some.inj h)
  rw [hcompose, hshell]
  constructor
  · intro hagree
    rcases beforeComment_cut (c :: rest) with hsame | ⟨blank, more, -, hmore⟩
    · exact hsame
    · have hlong : (c :: rest).rdropWhile isSpace =
          (beforeComment (c :: rest) ++ [blank]) ++ '#' :: more.rdropWhile isSpace := by
        rw [← rdropWhile_append_cons (by decide), List.append_assoc]
        exact congrArg (List.rdropWhile isSpace) hmore
      have hshort : ((beforeComment (c :: rest)).rdropWhile isSpace).length ≤
          (beforeComment (c :: rest)).length :=
        (List.rdropWhile_prefix isSpace _).length_le
      rw [Option.some.inj hagree, hlong, List.length_append, List.length_append,
        List.length_cons] at hshort
      omega
  · intro hsame
    rw [hsame]

/-- The shell keeps the blanks in front of a value, and its quotes with them. -/
theorem leading_blank_differ (hblank : isSpace c) (hsome : ¬ ∀ d ∈ rest, isSpace d) :
    composeValue (c :: rest) ≠ some (shellValue (c :: rest)) := by
  have hcons : rest.dropWhile isSpace ≠ [] := fun hnil =>
    hsome (List.dropWhile_eq_nil_iff.mp hnil)
  obtain ⟨d, more, hmore⟩ := List.exists_cons_of_ne_nil hcons
  have hd : ¬ isSpace d := by
    have hhead := List.head_dropWhile_not isSpace hcons
    simp only [hmore, List.head_cons] at hhead
    rw [hhead]
    exact Bool.false_ne_true
  have hdrop : (c :: rest).dropWhile isSpace = d :: more := by
    rw [List.dropWhile_cons_of_pos hblank, hmore]
  have hrest : c :: rest = (c :: rest.takeWhile isSpace) ++ d :: more := by
    rw [List.cons_append, ← hmore, List.takeWhile_append_dropWhile]
  have hshell : shellValue (c :: rest) =
      (c :: rest.takeWhile isSpace) ++ d :: more.rdropWhile isSpace := by
    rw [shellValue_unquoted, ← rdropWhile_append_cons hd, ← hrest]
    · intro h
      rw [Option.some.inj h] at hblank
      exact absurd hblank (by decide)
    · intro h
      rw [Option.some.inj h] at hblank
      exact absurd hblank (by decide)
  intro hagree
  have hmem : d ∈ shellValue (c :: rest) := by rw [hshell]; simp
  by_cases hdouble : d = '"'
  · have hquoted : composeValue (c :: rest) = quoted '"' more := by
      rw [composeValue, hdrop, hdouble]
      rfl
    rw [hquoted] at hagree
    exact not_mem_quoted hagree (hdouble ▸ hmem)
  by_cases hsingle : d = '\''
  · have hquoted : composeValue (c :: rest) = quoted '\'' more := by
      rw [composeValue, hdrop, hsingle]
      rfl
    rw [hquoted] at hagree
    exact not_mem_quoted hagree (hsingle ▸ hmem)
  rw [composeValue_unquoted, hdrop, hshell] at hagree
  · have hlead : c :: rest.takeWhile isSpace ++ d :: more.rdropWhile isSpace <+: d :: more := by
      rw [← Option.some.inj hagree]
      exact (List.rdropWhile_prefix isSpace _).trans (beforeComment_leads _)
    obtain ⟨hhead, -⟩ := List.cons_prefix_cons.mp hlead
    exact hd (hhead ▸ hblank)
  · rw [hdrop]
    exact fun h => hdouble (Option.some.inj h)
  · rw [hdrop]
    exact fun h => hsingle (Option.some.inj h)

theorem composeValue_eq_iff (h : composeValue val ≠ none) :
    composeValue val = some (shellValue val) ↔ Plain val := by
  by_cases hall : ∀ c ∈ val, isSpace c
  · exact iff_of_true (blank_agree hall) (Or.inl (List.all_eq_true.mpr hall))
  cases val with
  | nil => exact absurd (fun c hc => absurd hc List.not_mem_nil) hall
  | cons c rest =>
      by_cases hdouble : c = '"'
      · subst hdouble
        exact iff_of_true (double_agree h) (Or.inr (Or.inl rfl))
      by_cases hsingle : c = '\''
      · subst hsingle
        exact iff_of_true (single_agree h) (Or.inr (Or.inr (Or.inl rfl)))
      by_cases hblank : isSpace c
      · have hsome : ¬ ∀ d ∈ rest, isSpace d := fun hrest =>
          hall (List.forall_mem_cons.mpr ⟨hblank, hrest⟩)
        apply iff_of_false (leading_blank_differ hblank hsome)
        rintro (hspaces | hhead | hhead | ⟨hhead, -⟩)
        · exact hall (List.all_eq_true.mp hspaces)
        · exact hdouble (Option.some.inj hhead)
        · exact hsingle (Option.some.inj hhead)
        · exact hhead hblank
      · rw [unquoted_agree_iff hblank hdouble hsingle]
        constructor
        · intro hsame
          exact Or.inr (Or.inr (Or.inr ⟨hblank, hsame⟩))
        · rintro (hspaces | hhead | hhead | ⟨-, hsame⟩)
          · exact absurd (List.all_eq_true.mp hspaces) hall
          · exact absurd (Option.some.inj hhead) hdouble
          · exact absurd (Option.some.inj hhead) hsingle
          · exact hsame

end Value

/-! ## One reading -/

theorem composeValue_lastAssignment {file : List Char} (hline : OneLine file) {key : Key}
    {val : List Char} (hlast : lastAssignment file key = some val) : composeValue val ≠ none := by
  obtain ⟨a, ha, rfl⟩ := Option.map_eq_some_iff.mp hlast
  have hmem := List.mem_of_getLast? ha
  obtain ⟨line, hmemLine, hassignment⟩ := List.mem_filterMap.mp (List.mem_of_mem_filter hmem)
  exact hline line hmemLine a.1 a.2 hassignment

/-- `env_get` reads what Compose reads exactly when the last assignment of the key is plain. -/
theorem envGet_compose_iff (file : List Char) (hline : OneLine file) (key : Key) :
    composeGet file key = some (envGet file key) ↔
      ∀ val ∈ lastAssignment file key, Plain val := by
  rw [envGet_eq, composeGet]
  cases hlast : lastAssignment file key with
  | none =>
      apply iff_of_true rfl
      intro val hval
      cases hval
  | some val =>
      have hvalue := composeValue_eq_iff (composeValue_lastAssignment hline hlast)
      calc composeValue val = some (((some val).map shellValue).getD [])
          ↔ composeValue val = some (shellValue val) := Iff.rfl
        _ ↔ Plain val := hvalue
        _ ↔ ∀ val' ∈ some val, Plain val' := by simp

def tokensKey : Key := ⟨['T', 'O', 'K', 'E', 'N', 'S'], by decide,
  List.all_eq_true.mp (by decide)⟩

/-- An indented and exported assignment with quotes, over an older one. -/
def keptFile : List Char :=
  ['T', 'O', 'K', 'E', 'N', 'S', '=', 'a'] ++ '\n' ::
    ' ' :: exportWord ++ ' ' :: tokensKey.chars ++ ['=', '\'', 'b', '#', '\'', ' ', '#']

theorem envGet_compose_kept :
    OneLine keptFile ∧ composeGet keptFile tokensKey = some (envGet keptFile tokensKey) := by
  have hline : OneLine keptFile := by decide +kernel
  exact ⟨hline, (envGet_compose_iff keptFile hline tokensKey).mpr (by decide +kernel)⟩

def commentedFile : List Char :=
  ['T', 'O', 'K', 'E', 'N', 'S', '=', 'a', 'b', 'c', ' ', '#', ' ', 'n', 'e', 'w']

/-- A comment after an unquoted value. -/
theorem envGet_commented :
    OneLine commentedFile ∧ composeGet commentedFile tokensKey = some ['a', 'b', 'c'] ∧
      envGet commentedFile tokensKey = ['a', 'b', 'c', ' ', '#', ' ', 'n', 'e', 'w'] := by
  decide +kernel

end FastTAK.Env
