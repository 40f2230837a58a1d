import FastTAK.Env.Dotenv

/-!
# Rewriting `.env`

The rows of a file, what `env_get` reads from them, and what becomes of it when the value of
one row changes or a row is added.
-/

namespace FastTAK.Env

/-! ## Rows -/

/-- What stands after the last line break. -/
def lastLine (file : List Char) : List Char := (lines file).getLastD []

/-- The lines as awk and sed number them: a line break ends a row. -/
def records (file : List Char) : List (List Char) :=
  (lines file).dropLast ++ if lastLine file = [] then [] else [lastLine file]

section Rows

variable {file text row : List Char} {rows : List (List Char)}

theorem lines_eq_concat (file : List Char) :
    lines file = (lines file).dropLast ++ [lastLine file] := by
  have hne : lines file ≠ [] := List.splitOn_ne_nil _ _
  have hlast : lastLine file = (lines file).getLast hne := by
    rw [lastLine, List.getLastD_eq_getLast?, List.getLast?_eq_some_getLast hne, Option.getD_some]
  rw [hlast, List.dropLast_append_getLast]

theorem lines_of_not_mem (h : '\n' ∉ text) : lines text = [text] :=
  List.splitOn_eq_singleton h

theorem lines_append_line (file rest : List Char) :
    lines (file ++ '\n' :: rest) = lines file ++ lines rest :=
  List.splitOn_append_cons_self file rest

/-- Text without a line break goes to the last line. -/
theorem lines_append (file : List Char) (h : '\n' ∉ text) :
    lines (file ++ text) = (lines file).dropLast ++ [lastLine file ++ text] := by
  by_cases hbreak : '\n' ∈ file
  · obtain ⟨rest, lead, hrest, hlead⟩ := List.eq_append_cons_of_mem (List.mem_reverse.mpr hbreak)
    have hfile : file = lead.reverse ++ '\n' :: rest.reverse := by
      rw [← List.reverse_reverse file, hrest]
      simp
    have hnone : '\n' ∉ rest.reverse := fun hmem => hlead (List.mem_reverse.mp hmem)
    have hboth : '\n' ∉ rest.reverse ++ text := fun hmem =>
      (List.mem_append.mp hmem).elim hnone h
    rw [lastLine, hfile, List.append_assoc, List.cons_append, lines_append_line,
      lines_append_line, lines_of_not_mem hnone, lines_of_not_mem hboth]
    simp
  · have hboth : '\n' ∉ file ++ text := fun hmem => (List.mem_append.mp hmem).elim hbreak h
    rw [lastLine, lines_of_not_mem hbreak, lines_of_not_mem hboth]
    simp

theorem lastLine_append (file : List Char) (h : '\n' ∉ text) :
    lastLine (file ++ text) = lastLine file ++ text := by
  rw [lastLine, lines_append file h]
  simp

/-- A line break ends the last row. -/
theorem records_newline (file : List Char) : records (file ++ ['\n']) = lines file := by
  have hlines : lines (file ++ ['\n']) = lines file ++ [[]] := lines_append_line file []
  have hlast : lastLine (file ++ ['\n']) = [] := by
    rw [lastLine, hlines]
    simp
  rw [records, hlast, if_pos rfl, hlines, List.dropLast_concat, List.append_nil]

/-- Whether the file ends with a line, as `tail -c 1` tells it. -/
theorem lastLine_eq_nil_iff : lastLine file = [] ↔ file = [] ∨ file.getLast? = some '\n' := by
  induction file using List.reverseRecOn with
  | nil => exact iff_of_true rfl (Or.inl rfl)
  | append_singleton file c _ =>
      by_cases hc : c = '\n'
      · subst hc
        have hlast : lastLine (file ++ ['\n']) = [] := by
          rw [lastLine, lines_append_line]
          simp [lines]
        exact iff_of_true hlast (Or.inr List.getLast?_concat)
      · have hnone : '\n' ∉ [c] := fun hmem => hc (List.mem_singleton.mp hmem).symm
        rw [lastLine_append file hnone, List.getLast?_concat]
        simp [hc]

theorem records_of_ended (h : lastLine file = []) : records file = (lines file).dropLast := by
  rw [records, if_pos h, List.append_nil]

theorem records_of_open (h : lastLine file ≠ []) : records file = lines file := by
  rw [records, if_neg h, ← lines_eq_concat]

/-- Text at the end of a file that ends with a line is a row of its own. -/
theorem records_append (hended : lastLine file = []) (htext : '\n' ∉ text) (hne : text ≠ []) :
    records (file ++ text) = records file ++ [text] := by
  have hopen : lastLine (file ++ text) ≠ [] := by
    rw [lastLine_append file htext, hended]
    exact hne
  rw [records_of_open hopen, lines_append file htext, hended, records_of_ended hended,
    List.nil_append]

theorem records_append_row (hended : lastLine file = []) (hrow : '\n' ∉ row) :
    records (file ++ (row ++ ['\n'])) = records file ++ [row] := by
  rw [← List.append_assoc, records_newline, lines_append file hrow, hended,
    records_of_ended hended, List.nil_append]

theorem records_end (hopen : lastLine file ≠ []) : records (file ++ ['\n']) = records file := by
  rw [records_newline, records_of_open hopen]

theorem not_mem_of_mem_lines (h : row ∈ lines file) : '\n' ∉ row :=
  Text.not_mem_of_mem_splitOn h

theorem mem_lines_of_mem_records (h : row ∈ records file) : row ∈ lines file := by
  rw [lines_eq_concat]
  rw [records] at h
  split_ifs at h
  · rw [List.append_nil] at h
    exact List.mem_append_left _ h
  · exact h

/-- The rows that `print` writes. -/
def printed (rows : List (List Char)) : List Char := rows.flatMap (· ++ ['\n'])

theorem records_printed (h : ∀ row ∈ rows, '\n' ∉ row) : records (printed rows) = rows := by
  induction rows using List.reverseRecOn with
  | nil => rfl
  | append_singleton rows row ih =>
      have hrows : ∀ other ∈ rows, '\n' ∉ other := fun other hother =>
        h other (List.mem_append_left _ hother)
      have hended : lastLine (printed rows) = [] := by
        apply lastLine_eq_nil_iff.mpr
        cases rows using List.reverseRecOn with
        | nil => exact Or.inl rfl
        | append_singleton rows other => exact Or.inr (by simp [printed])
      have hprinted : printed (rows ++ [row]) = printed rows ++ (row ++ ['\n']) := by
        simp [printed]
      rw [hprinted, records_append_row hended (h row (by simp)), ih hrows]

end Rows

/-! ## What stands before a key -/

/-- What the pattern allows in front of a key. -/
def Lead (lead : List Char) : Prop :=
  lead.all isSpace ∨
    ∃ blanks gap, blanks.all isSpace ∧ gap.all isSpace ∧ gap ≠ [] ∧
      lead = blanks ++ (exportWord ++ gap)

section Lead

variable {key other : Key} {lead line text val : List Char}

theorem Lead.not_mem (h : Lead lead) {c : Char} (hspace : ¬ isSpace c) (hword : c ∉ exportWord) :
    c ∉ lead := by
  have hspaces : ∀ {text : List Char}, text.all isSpace → c ∉ text := fun htext hmem =>
    hspace (List.all_eq_true.mp htext c hmem)
  rcases h with hlead | ⟨blanks, gap, hblanks, hgap, -, rfl⟩
  · exact hspaces hlead
  · intro hmem
    rcases List.mem_append.mp hmem with hmem | hmem
    · exact hspaces hblanks hmem
    · rcases List.mem_append.mp hmem with hmem | hmem
      · exact hword hmem
      · exact hspaces hgap hmem

theorem Lead.not_mem_equals (h : Lead lead) : '=' ∉ lead := h.not_mem (by decide) (by decide)

theorem Lead.not_mem_newline (h : Lead lead) : '\n' ∉ lead := h.not_mem (by decide) (by decide)

theorem newline_not_mem_key : '\n' ∉ key.chars := fun hmem =>
  absurd (key.valid '\n' hmem) (by decide)

theorem newline_not_mem_row (key : Key) (hval : '\n' ∉ val) : '\n' ∉ key.chars ++ '=' :: val := by
  intro hmem
  rcases List.mem_append.mp hmem with hmem | hmem
  · exact newline_not_mem_key hmem
  · rcases List.mem_cons.mp hmem with hmem | hmem
    · exact absurd hmem (by decide)
    · exact hval hmem

theorem dropWhile_spaces (hlead : lead.all isSpace) (htext : ¬ text.head?.any isSpace) :
    (lead ++ text).dropWhile isSpace = text := by
  rw [List.dropWhile_append_of_pos (List.all_eq_true.mp hlead)]
  cases text with
  | nil => rfl
  | cons c text => exact List.dropWhile_cons_of_neg htext

theorem head_key_not_space : ¬ (key.chars ++ '=' :: val).head?.any isSpace := by
  cases hkey : key.chars with
  | nil => exact absurd hkey key.nonempty
  | cons c rest =>
      have hc : isKeyChar c := key.valid c (by rw [hkey]; exact List.mem_cons_self)
      rw [List.cons_append, List.head?_cons, Option.any_some, not_isSpace_of_isKeyChar hc]
      exact Bool.false_ne_true

theorem isPrefixOf_key : (key.chars ++ ['=']).isPrefixOf (key.chars ++ '=' :: val) := by
  rw [List.isPrefixOf_iff_prefix]
  exact ⟨val, by simp⟩

theorem takeWhile_all (text : List Char) : (text.takeWhile isSpace).all isSpace :=
  List.all_eq_true.mpr fun _ hc => List.mem_takeWhile_imp hc

theorem afterExport_some {rest : List Char} (h : afterExport text = some rest) :
    ∃ gap, gap.all isSpace ∧ gap ≠ [] ∧ text = exportWord ++ (gap ++ rest) := by
  rw [afterExport] at h
  split_ifs at h with hexport
  obtain ⟨⟨more, hmore⟩, hblank⟩ := hexport
  have hdrop : text.drop 6 = more := by
    rw [← hmore]
    exact List.drop_left' rfl
  rw [hdrop] at h hblank
  use more.takeWhile isSpace, takeWhile_all more
  constructor
  · intro hnil
    cases more with
    | nil => cases hblank
    | cons c more =>
        have hc : isSpace c := hblank
        rw [List.takeWhile_cons_of_pos hc] at hnil
        cases hnil
  · rw [← Option.some.inj h, List.takeWhile_append_dropWhile, hmore]

theorem afterExport_gap {gap rest : List Char} (hgap : gap.all isSpace) (hne : gap ≠ [])
    (hrest : ¬ rest.head?.any isSpace) :
    afterExport (exportWord ++ (gap ++ rest)) = some rest := by
  have hdrop : (exportWord ++ (gap ++ rest)).drop 6 = gap ++ rest := List.drop_left' rfl
  rw [afterExport, hdrop, if_pos, dropWhile_spaces hgap hrest]
  constructor
  · exact List.prefix_append _ _
  · cases gap with
    | nil => exact absurd rfl hne
    | cons c gap => exact (Bool.and_eq_true _ _ ▸ hgap : isSpace c ∧ gap.all isSpace).1

/-- The lines that `grep` takes: blanks and `export`, the key, the `=`. -/
theorem assigns_iff_lead :
    assigns key line ↔ ∃ lead val, Lead lead ∧ line = lead ++ (key.chars ++ '=' :: val) := by
  have hequals : ∀ {text : List Char}, (key.chars ++ ['=']).isPrefixOf text →
      ∃ val, text = key.chars ++ '=' :: val := by
    intro text hlead
    obtain ⟨val, rfl⟩ := List.isPrefixOf_iff_prefix.mp hlead
    exact ⟨val, by simp⟩
  rw [assigns, Bool.or_eq_true, Option.any_eq_true]
  constructor
  · rintro (hbody | ⟨rest, hrest, hkey⟩)
    · obtain ⟨val, hval⟩ := hequals hbody
      use line.takeWhile isSpace, val, Or.inl (takeWhile_all line)
      rw [← hval, List.takeWhile_append_dropWhile]
    · obtain ⟨val, rfl⟩ := hequals hkey
      obtain ⟨gap, hgap, hne, hbody⟩ := afterExport_some hrest
      use line.takeWhile isSpace ++ (exportWord ++ gap), val,
        Or.inr ⟨_, gap, takeWhile_all line, hgap, hne, rfl⟩
      rw [List.append_assoc, List.append_assoc, ← hbody, List.takeWhile_append_dropWhile]
  · rintro ⟨lead, val, hspaces | ⟨blanks, gap, hblanks, hgap, hne, rfl⟩, rfl⟩
    · rw [dropWhile_spaces hspaces head_key_not_space]
      exact Or.inl isPrefixOf_key
    · have hword : ¬ (exportWord ++ (gap ++ (key.chars ++ '=' :: val))).head?.any isSpace :=
        Bool.false_ne_true
      rw [List.append_assoc, List.append_assoc, dropWhile_spaces hblanks hword,
        afterExport_gap hgap hne head_key_not_space]
      exact Or.inr ⟨_, rfl, isPrefixOf_key⟩

theorem not_assigns_nil (key : Key) : ¬ assigns key [] := by
  intro h
  obtain ⟨lead, val, -, hnil⟩ := assigns_iff_lead.mp h
  simp at hnil

/-- A line assigns one key. -/
theorem assigns_unique (h : assigns key line) (hother : assigns other line) : key = other := by
  obtain ⟨val, hval⟩ := assigns_iff.mp h
  obtain ⟨val', hval'⟩ := assigns_iff.mp hother
  have hchars : key.chars = other.chars :=
    (Prod.mk.inj (Option.some.inj (hval.symm.trans hval'))).1
  cases key
  cases other
  cases hchars
  rfl

theorem assigns_lead (h : Lead lead) : assigns key (lead ++ (key.chars ++ '=' :: val)) :=
  assigns_iff_lead.mpr ⟨lead, val, h, rfl⟩

theorem afterEquals_lead (h : '=' ∉ lead) :
    afterEquals (lead ++ (key.chars ++ '=' :: val)) = val := by
  rw [afterEquals_append h, afterEquals_key]

end Lead

/-! ## Reading rows -/

/-- What `env_get` prints for a file with these rows. -/
def rowGet (rows : List (List Char)) (key : Key) : List Char :=
  ((rows.filter (assigns key)).getLast?.map fun line => shellValue (afterEquals line)).getD []

section Reading

variable {key other : Key} {rows before after : List (List Char)} {line line' : List Char}

theorem envGet_eq_rowGet (file : List Char) (key : Key) :
    envGet file key = rowGet (records file) key := by
  have hfilter : (lines file).filter (assigns key) = (records file).filter (assigns key) := by
    by_cases hlast : lastLine file = []
    · calc (lines file).filter (assigns key)
          = ((lines file).dropLast ++ [[]]).filter (assigns key) := by
            rw [← hlast, ← lines_eq_concat]
        _ = (records file).filter (assigns key) := by
            rw [records_of_ended hlast, List.filter_append,
              List.filter_cons_of_neg (not_assigns_nil key), List.filter_nil, List.append_nil]
    · rw [records_of_open hlast]
  rw [envGet, rowGet, hfilter]
  cases ((records file).filter (assigns key)).getLast? with
  | none => rfl
  | some line => rfl

theorem envHas_iff {file : List Char} :
    envHas file key ↔ ∃ row ∈ records file, assigns key row := by
  rw [envHas, List.any_eq_true]
  constructor
  · rintro ⟨line, hline, hassigns⟩
    use line
    rw [lines_eq_concat] at hline
    rw [records]
    split_ifs with hlast
    · rw [hlast] at hline
      rcases List.mem_append.mp hline with hline | hline
      · rw [List.append_nil]
        exact ⟨hline, hassigns⟩
      · rw [List.mem_singleton.mp hline] at hassigns
        exact absurd hassigns (not_assigns_nil key)
    · exact ⟨hline, hassigns⟩
  · rintro ⟨row, hrow, hassigns⟩
    exact ⟨row, mem_lines_of_mem_records hrow, hassigns⟩

theorem rowGet_of_none (h : ∀ row ∈ rows, ¬ assigns key row) : rowGet rows key = [] := by
  rw [rowGet, List.filter_eq_nil_iff.mpr h]
  rfl

/-- The last row with the key decides. -/
theorem rowGet_last (hline : assigns key line) (hafter : ∀ row ∈ after, ¬ assigns key row) :
    rowGet (before ++ line :: after) key = shellValue (afterEquals line) := by
  rw [rowGet, List.filter_append, List.filter_cons_of_pos hline,
    List.filter_eq_nil_iff.mpr hafter, List.getLast?_append]
  rfl

/-- A row counts for the keys it assigns. -/
theorem rowGet_other (hline : ¬ assigns key line) (hline' : ¬ assigns key line') :
    rowGet (before ++ line :: after) key = rowGet (before ++ line' :: after) key := by
  simp only [rowGet, List.filter_append, List.filter_cons_of_neg hline,
    List.filter_cons_of_neg hline']

theorem rowGet_append (hline : ¬ assigns key line) :
    rowGet (rows ++ [line]) key = rowGet rows key := by
  rw [rowGet, List.filter_append, List.filter_cons_of_neg hline, List.filter_nil,
    List.append_nil, rowGet]

end Reading

end FastTAK.Env
