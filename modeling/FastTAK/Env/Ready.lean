import FastTAK.Env.Preflight

/-!
# Files that pass

What the preflight needs of a file that `sed` has rewritten: the other keys read as before, and a
version that meets the floor still does when an `&` in it has been expanded.
-/

namespace FastTAK.Env

/-! ## The version -/

section Version

variable {value value' line major minor file file' : List Char} {key : Key} {rule : Rule}

theorem majorMinor_congr
    (h : value'.takeWhile (· ≠ '-') = value.takeWhile (· ≠ '-')) :
    majorMinor value' = majorMinor value := by
  rw [majorMinor, majorMinor, h]

/-- A text up to a character that is in it, and from there on. -/
theorem takeWhile_append_drop {c : Char} (h : c ∈ value) :
    value.takeWhile (· ≠ c) ++ c :: (value.dropWhile (· ≠ c)).drop 1 = value := by
  have hne : value.dropWhile (· ≠ c) ≠ [] := by
    rw [ne_eq, List.dropWhile_eq_nil_iff]
    intro hall
    exact absurd (hall c h) (by simp)
  have hhead : (value.dropWhile (· ≠ c)).head hne = c := by
    have hstop := List.head_dropWhile_not (· ≠ c) hne
    simpa using hstop
  have hcons : c :: (value.dropWhile (· ≠ c)).drop 1 = value.dropWhile (· ≠ c) := by
    rw [List.drop_one]
    exact (congrArg (List.cons · _) hhead.symm).trans (List.cons_head_tail hne)
  rw [hcons, List.takeWhile_append_dropWhile]

/-- What stands before the first dash of a version. -/
theorem takeWhile_of_majorMinor (h : majorMinor value = some (major, minor)) :
    value.takeWhile (· ≠ '-') = major ++ '.' :: minor ∧ major ≠ [] ∧
      (∀ c ∈ major, c.isDigit = true) ∧ ∀ c ∈ minor, c.isDigit = true := by
  rw [majorMinor] at h
  split_ifs at h with hdot hbad hbad
  · simp only [not_or, not_not] at hbad
    obtain ⟨-, hmajor, -, hdigits, hdigits'⟩ := hbad
    obtain ⟨rfl, rfl⟩ := Prod.mk.inj (Option.some.inj h)
    exact ⟨(takeWhile_append_drop hdot).symm, hmajor, List.all_eq_true.mp hdigits,
      List.all_eq_true.mp hdigits'⟩
  · refine absurd (Or.inl ?_) hbad
    symm
    apply List.takeWhile_eq_self_iff.mpr
    intro c hc
    apply decide_eq_true
    rintro rfl
    exact hdot hc

theorem isDigit_ne {c d : Char} (h : c.isDigit = true) (hd : d.isDigit = false) : c ≠ d := by
  rintro rfl
  rw [hd] at h
  cases h

/-- An `&` in a version comes after the dash. -/
theorem majorMinor_expand (h : majorMinor value = some (major, minor)) (line : List Char) :
    majorMinor (shellValue (expand value line)) = some (major, minor) := by
  obtain ⟨hbefore, hmajor, hdigits, hdigits'⟩ := takeWhile_of_majorMinor h
  obtain ⟨c, digits, rfl⟩ := List.exists_cons_of_ne_nil hmajor
  have hc : c.isDigit = true := hdigits c List.mem_cons_self
  have hsolid : ∀ d, d.isDigit = false → d ≠ '.' → d ∉ c :: digits ++ '.' :: minor := by
    intro d hd hdot hmem
    rcases List.mem_append.mp hmem with hmem | hmem
    · exact isDigit_ne (hdigits d hmem) hd rfl
    · rcases List.mem_cons.mp hmem with rfl | hmem
      · exact hdot rfl
      · exact isDigit_ne (hdigits' d hmem) hd rfl
  have hblank : ∀ d ∈ c :: digits ++ '.' :: minor, isSpace d = false := by
    intro d hmem
    by_cases hd : d.isDigit = true
    · apply not_isSpace_of_isKeyChar
      simp [isKeyChar, Char.isAlphanum, hd]
    · by_cases hdot : d = '.'
      · rw [hdot]
        rfl
      · exact absurd hmem (hsolid d (Bool.eq_false_iff.mpr hd) hdot)
  have hread : ∀ text, shellValue (c :: digits ++ '.' :: minor ++ text) =
      (c :: digits ++ '.' :: minor ++ text).rdropWhile isSpace := by
    intro text
    apply shellValue_unquoted
    · intro hquote
      exact isDigit_ne hc (by decide) (Option.some.inj hquote)
    · intro hquote
      exact isDigit_ne hc (by decide) (Option.some.inj hquote)
  have hkeep : ∀ text, expand (c :: digits ++ '.' :: minor ++ text) line =
      c :: digits ++ '.' :: minor ++ expand text line := by
    intro text
    rw [expand, List.flatMap_append]
    apply congrArg (· ++ _)
    exact expand_of_not_mem (hsolid '&' (by decide) (by decide))
  have hdash : ∀ d ∈ c :: digits ++ '.' :: minor, decide (d ≠ '-') = true := by
    intro d hd
    apply decide_eq_true
    rintro rfl
    exact hsolid '-' (by decide) (by decide) hd
  rw [← h]
  apply majorMinor_congr
  rw [hbefore]
  by_cases hmem : '-' ∈ value
  · have hparts := takeWhile_append_drop hmem
    rw [hbefore] at hparts
    have hrest : ∀ rest, expand ('-' :: rest) line = '-' :: expand rest line := by
      intro rest
      rw [expand, List.flatMap_cons, if_neg (by decide)]
      rfl
    rw [← hparts, hkeep, hrest, hread, rdropWhile_append_cons (by decide),
      List.takeWhile_append_of_pos hdash, List.takeWhile_cons_of_neg (by simp), List.append_nil]
  · have hall : value.takeWhile (· ≠ '-') = value := by
      apply List.takeWhile_eq_self_iff.mpr
      intro d hd
      apply decide_eq_true
      rintro rfl
      exact hmem hd
    have hend : (c :: digits ++ '.' :: minor).rdropWhile isSpace = c :: digits ++ '.' :: minor := by
      rw [List.rdropWhile_eq_self_iff]
      intro hne
      exact Bool.eq_false_iff.mp (hblank _ (List.getLast_mem hne))
    have hplain := hkeep []
    have hplain' := hread []
    rw [List.append_nil] at hplain hplain'
    rw [← hall, hbefore, hplain, expand, List.flatMap_nil, List.append_nil, hplain', hend,
      List.takeWhile_eq_self_iff]
    exact hdash

/-- A substitution leaves a key as it reads, or the row that decides is substituted. -/
theorem envGet_substitute_cases
    (hrows : records file' = (records file).map (substitute key value)) :
    envGet file' key = envGet file key ∨
      ∃ line, envGet file' key = shellValue (expand value line) := by
  rw [envGet_eq_lastRow file', envGet_eq_lastRow file, lastRow_substitute hrows]
  cases lastRow file key with
  | none => exact .inl rfl
  | some line =>
      by_cases hanchored : anchored key line
      · right
        use line
        rw [Option.map_some, Option.map_some, Option.getD_some, substitute, if_pos hanchored,
          afterEquals_key]
      · left
        rw [Option.map_some, substitute, if_neg hanchored]

theorem meetsFloor_congr (h : majorMinor value' = majorMinor value) :
    meetsFloor value' = meetsFloor value := by
  rw [meetsFloor, meetsFloor, h]

theorem meetsFloor_expand (h : meetsFloor value = true) (line : List Char) :
    meetsFloor (shellValue (expand value line)) = true := by
  obtain ⟨major, minor, hparsed, -⟩ := meetsFloor_version h
  rw [meetsFloor_congr ((majorMinor_expand hparsed line).trans hparsed.symm)]
  exact h

/-- The rules for the version hold of one that meets the floor. -/
theorem not_rejects_of_meetsFloor (h : meetsFloor value = true) (hrule : rule.key = takVersion) :
    rule.rejects value = false := by
  obtain ⟨major, minor, hparsed, -⟩ := meetsFloor_version h
  cases rule with
  | serverAddress => exact absurd hrule (by decide)
  | deployMode => exact absurd hrule (by decide)
  | webadminPassword => exact absurd hrule (by decide)
  | tokensApiSecret => exact absurd hrule (by decide)
  | takVersionSet =>
      apply decide_eq_false
      rintro rfl
      exact absurd h (by decide)
  | takVersionForm =>
      rw [Rule.rejects, hparsed]
      rfl
  | takVersionFloor =>
      rw [Rule.rejects, h]
      rfl

/-- A file passes if its version meets the floor and the other rules hold. -/
theorem checkEnv_of_meetsFloor (hversion : meetsFloor (envGet file takVersion) = true)
    (hother : ∀ rule : Rule, rule.key ≠ takVersion → rule.violated file = false) :
    checkEnv file = none := by
  apply checkEnv_eq_none.mpr
  intro rule
  by_cases hrule : rule.key = takVersion
  · rw [Rule.violated, hrule]
    exact not_rejects_of_meetsFloor hversion hrule
  · exact hother rule hrule

theorem meetsFloor_of_checkEnv (h : checkEnv file = none) :
    meetsFloor (envGet file takVersion) = true :=
  Bool.not_eq_eq_eq_not.mp (checkEnv_eq_none.mp h .takVersionFloor)

end Version

/-! ## Every launch -/

/-- Every launch passes and leaves the file as it is. -/
def Ready (env : List Char) : Prop :=
  ∀ tools doctor path, preflight tools doctor path env = .passed env

section Ready

variable {env : List Char}

theorem steadyTools_printsHex : steadyTools.PrintsHex := by
  intro key bytes value hvalue
  obtain rfl : ['0', 'f'] = value := Option.some.inj hvalue
  decide

theorem ready_iff : Ready env ↔
    checkEnv env = none ∧ ∀ secret ∈ secretKeys, envGet env secret.1 ≠ [] := by
  constructor
  · intro h
    have hlaunch := h steadyTools false []
    rw [preflight, if_neg Bool.false_ne_true] at hlaunch
    dsimp only at hlaunch
    split_ifs at hlaunch with hok
    obtain ⟨hsame, hnone⟩ := judged_passed hlaunch
    have hfilled := provisionAll_filled steadyTools_printsHex (List.Subset.refl _) hok
    rw [hsame]
    exact ⟨hnone, hfilled⟩
  · rintro ⟨hnone, hfilled⟩ tools doctor path
    have hsame : ensureSecrets tools env = ⟨env, true⟩ := provisionAll_of_filled hfilled
    rw [preflight, hsame]
    cases doctor with
    | true => exact judged_of_none hnone
    | false => exact judged_of_none hnone

end Ready

/-! ## Empty settings that are filled -/

/-- The substitution of `fill_secret`. -/
def fillLine (key : Key) (value line : List Char) : List Char :=
  if line = key.chars ++ ['='] then key.chars ++ '=' :: value else line

section Fill

variable {env env' value : List Char} {key : Key}

theorem assigns_fillLine (key other : Key) (value line : List Char) :
    assigns other (fillLine key value line) = assigns other line := by
  rw [fillLine]
  split_ifs with hline
  · rw [hline, Bool.eq_iff_iff, assigns_key_iff, assigns_key_iff]
  · rfl

theorem lastRow_fill (hrows : records env' = (records env).map (fillLine key value)) (other : Key) :
    lastRow env' other = (lastRow env other).map (fillLine key value) := by
  have hsame : assigns other ∘ fillLine key value = assigns other :=
    funext fun line => assigns_fillLine key other value line
  rw [lastRow, hrows, List.filter_map, hsame, List.getLast?_map]
  rfl

theorem envGet_fill_other {other : Key}
    (hrows : records env' = (records env).map (fillLine key value)) (hother : other ≠ key) :
    envGet env' other = envGet env other := by
  have hlast : lastRow env' other = lastRow env other := by
    rw [lastRow_fill hrows]
    cases hline : lastRow env other with
    | none => rfl
    | some line =>
        have hne : line ≠ key.chars ++ ['='] := by
          rintro rfl
          exact hother (assigns_key_iff.mp (assigns_lastRow hline))
        rw [Option.map_some, fillLine, if_neg hne]
  rw [envGet_eq_lastRow, envGet_eq_lastRow env, hlast]

theorem envGet_fill (hrows : records env' = (records env).map (fillLine key value))
    (hline : lastRow env key = some (key.chars ++ ['='])) :
    envGet env' key = shellValue value := by
  rw [envGet_eq_lastRow, lastRow_fill hrows, hline, Option.map_some, fillLine, if_pos rfl,
    Option.map_some, Option.getD_some, afterEquals_key]

theorem envGet_substitute_anchored (hrows : records env' = (records env).map (substitute key value))
    (hline : (lastRow env key).any (anchored key) = true) :
    ∃ line, envGet env' key = shellValue (expand value line) := by
  obtain ⟨line, hlast, hanchored⟩ := (Option.any_eq_true _ _).mp hline
  use line
  rw [envGet_eq_lastRow, lastRow_substitute hrows, hlast, Option.map_some, Option.map_some,
    Option.getD_some, substitute, if_pos hanchored, afterEquals_key]

theorem not_any_isSpace {c? : Option Char} (h : ∀ c ∈ c?, isSpace c = false) :
    ¬ c?.any isSpace = true := by
  intro hany
  obtain ⟨c, hc, hspace⟩ := (Option.any_eq_true _ _).mp hany
  rw [h c hc] at hspace
  cases hspace

/-- Letters and digits read back. -/
theorem shellValue_alphanum (h : value.all Char.isAlphanum = true) : shellValue value = value := by
  have hkey : ∀ c ∈ value, isKeyChar c = true := by
    intro c hc
    rw [isKeyChar, List.all_eq_true.mp h c hc, Bool.true_or]
  have hhead : ∀ q, isKeyChar q = false → value.head? ≠ some q := by
    intro q hq hhead
    rw [hkey q (List.mem_of_head? hhead)] at hq
    cases hq
  apply shellValue_eq_self_iff.mpr
  refine ⟨hhead _ (by decide), hhead _ (by decide), not_any_isSpace fun c hc => ?_⟩
  exact not_isSpace_of_isKeyChar (hkey c (List.mem_of_getLast? hc))

theorem spliced_alphanum (h : value.all Char.isAlphanum = true) :
    Spliced '|' value ∧ '&' ∉ value := by
  have hnot : ∀ c : Char, c.isAlphanum = false → c ∉ value := by
    intro c hc hmem
    rw [List.all_eq_true.mp h c hmem] at hc
    cases hc
  exact ⟨⟨hnot _ (by decide), hnot _ (by decide), hnot _ (by decide)⟩, hnot _ (by decide)⟩

theorem ne_defaultWebadminPassword (h : value.all Char.isAlphanum = true) :
    value ≠ defaultWebadminPassword := by
  rintro rfl
  exact absurd h (by decide)

end Fill

end FastTAK.Env
