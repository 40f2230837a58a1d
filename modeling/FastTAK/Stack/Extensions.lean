import FastTAK.Base.Firsts

/-!
# Extensions of a dump

The restore script looks through a dump line by line for the extensions to make before it, and
writes the statement that makes them.
-/

namespace FastTAK.Extensions

open FastTAK.Firsts

/-! ## Lines -/

/-- `[[:space:]]`. -/
def isSpace (c : Char) : Bool := c ∈ [' ', '\t', '\n', '\x0b', '\x0c', '\r']

/-- `[A-Za-z0-9_-]`. -/
def isNameChar (c : Char) : Bool := c.isAlphanum || c ∈ ['_', '-']

/-- What follows a word and the blanks after it. -/
def afterWord (word text : List Char) : Option (List Char) :=
  if word <+: text ∧ (text.drop word.length).head?.any isSpace then
    some ((text.drop word.length).dropWhile isSpace)
  else none

/-- `[[:space:]]FROM[[:space:]]+stdin;[[:space:]]*$`, from the first character on. -/
def isFromStdin : List Char → Bool
  | [] => false
  | c :: rest =>
      isSpace c && (afterWord "FROM".toList rest).any fun rest =>
        "stdin;".toList <+: rest && (rest.drop 6).all isSpace

/-- `^[[:space:]]*COPY[[:space:]].*[[:space:]]FROM[[:space:]]+stdin;[[:space:]]*$`. -/
def isCopy (line : List Char) : Bool :=
  let text := line.dropWhile isSpace
  "COPY".toList <+: text && (text.drop 4).head?.any isSpace && (text.drop 5).tails.any isFromStdin

/-- What follows `CREATE EXTENSION` at the beginning of a line. -/
def afterCreate (line : List Char) : Option (List Char) :=
  (afterWord "CREATE".toList (line.dropWhile isSpace)).bind (afterWord "EXTENSION".toList)

/-- What follows `IF NOT EXISTS`, if it is there. -/
def afterGuard (text : List Char) : List Char :=
  (((afterWord "IF".toList text).bind (afterWord "NOT".toList)).bind
    (afterWord "EXISTS".toList)).getD text

/-- `name`, of which the quotes are taken off. -/
def readName (text : List Char) : List Char :=
  let quoted := text.tail.takeWhile isNameChar
  if text.head? = some '"' ∧ quoted ≠ [] ∧ (text.tail.drop quoted.length).head? = some '"' then
    quoted
  else text.takeWhile isNameChar

/-- The name that the script takes from a line. -/
def nameOf (line : List Char) : Option (List Char) :=
  (afterCreate line).bind fun text =>
    let name := readName (afterGuard text)
    if name = [] then none else some name

/-- The lines before the first that is like the beginning of data. -/
def beforeCopy {α : Type} (text : α → List Char) (lines : List α) : List α :=
  lines.takeWhile fun line => !isCopy (text line)

/-- The lines of which the name is printed. -/
def printed {α : Type} (text : α → List Char) (lines : List α) : List (α × List Char) :=
  firsts (fun line => nameOf (text line)) [] (beforeCopy text lines)

/-- `upgrade_dump_extensions`. -/
def upgradeDumpExtensions (lines : List (List Char)) : List (List Char) :=
  (printed id lines).map Prod.snd

/-! ## Dumps -/

/-- A statement that makes an extension, as `pg_dump` writes it.  A name that is not quoted is in
lower case. -/
structure Extension where
  name : List Char
  quoted : Bool
  guarded : Bool
  rest : List Char
  name_ne_nil : name ≠ []
  name_valid : name.all isNameChar
  bare_valid : quoted = false → name.all fun c => !c.isUpper && c ≠ '-'

def Extension.ident (e : Extension) : List Char :=
  if e.quoted then '"' :: (e.name ++ ['"']) else e.name

def Extension.line (e : Extension) : List Char :=
  "CREATE EXTENSION ".toList ++ ((if e.guarded then "IF NOT EXISTS ".toList else []) ++
    (e.ident ++ ' ' :: e.rest))

/-- A line of another statement: it begins outside of quotes, or inside of a body, a literal, a
quoted name or a comment, where any text may stand. -/
inductive Other
  | code (text : List Char) (quiet : nameOf text = none) (noCopy : isCopy text = false)
  | quoted (text : List Char)

/-- A line of the part before the data. -/
inductive Statement
  | extension (e : Extension)
  | other (line : Other)

/-- A table with its data.  The names in the heading may go over several lines. -/
structure Block where
  heading : List Char
  continued : List (List Char)
  rows : List (List Char)
  heading_closed : " FROM stdin;".toList <:+ (continued.getLast?.getD heading)

structure Dump where
  preData : List Statement
  blocks : List Block
  postData : List Other

/-- A line of a dump. -/
inductive Line
  | extension (e : Extension)
  | other (line : Other)
  | heading (text : List Char)
  | row (text : List Char)

def Other.text : Other → List Char
  | code text _ _ => text
  | quoted text => text

def Line.text : Line → List Char
  | extension e => e.line
  | other line => line.text
  | heading text => "COPY ".toList ++ text
  | row text => text

def Statement.toLine : Statement → Line
  | extension e => .extension e
  | other line => .other line

def Block.lines (block : Block) : List Line :=
  .heading block.heading :: (block.continued.map (.other ∘ .quoted) ++ block.rows.map .row)

def Dump.lines (dump : Dump) : List Line :=
  dump.preData.map Statement.toLine ++ (dump.blocks.flatMap Block.lines ++
    dump.postData.map .other)

/-- The line is a statement that makes an extension. -/
def Line.isOwn : Line → Bool
  | extension _ => true
  | _ => false

/-- The name that the statement of a line makes. -/
def Line.made : Line → Option (List Char)
  | extension e => some e.name
  | _ => none

/-! ## The statement for the database -/

def quote (name : List Char) : List Char := '\'' :: (name ++ ['\''])

/-- `list` after the names that are not empty. -/
def quotedList (names : List (List Char)) : List Char :=
  (names.filter (· ≠ [])).foldl (fun list name =>
    (if list = [] then [] else list ++ [',', ' ']) ++ quote name) []

def sqlBefore (role : List Char) : List Char :=
  "DO $fastak$\nDECLARE\n  target_oid oid;\n  ext_name   text;\n  ext_oid    oid;\n".toList ++
    "  cfg        oid;\nBEGIN\n".toList ++
    "  SELECT oid INTO target_oid FROM pg_catalog.pg_roles WHERE rolname = '".toList ++ role ++
    "';\n  IF target_oid IS NULL THEN\n    RAISE EXCEPTION 'role ".toList ++ role ++
    " does not exist on this cluster';\n  END IF;\n  FOREACH ext_name IN ARRAY ARRAY[".toList

def sqlAfter (role : List Char) : List Char :=
  "] LOOP\n    EXECUTE format('CREATE EXTENSION IF NOT EXISTS %I', ext_name);\n".toList ++
    "    SELECT oid INTO ext_oid FROM pg_catalog.pg_extension ".toList ++
    "WHERE extname = ext_name;\n".toList ++
    "    UPDATE pg_catalog.pg_extension SET extowner = target_oid WHERE oid = ext_oid;\n".toList ++
    "    FOR cfg IN SELECT unnest(extconfig) FROM pg_catalog.pg_extension ".toList ++
    "WHERE oid = ext_oid LOOP\n".toList ++
    "      EXECUTE format('ALTER TABLE %s OWNER TO %I', cfg::regclass, '".toList ++ role ++
    "');\n    END LOOP;\n  END LOOP;\nEND\n$fastak$;\n".toList

/-- `upgrade_extension_sql`. -/
def upgradeExtensionSql (role : List Char) (names : List (List Char)) : Option (List Char) :=
  if quotedList names = [] then none
  else some (sqlBefore role ++ (quotedList names ++ sqlAfter role))

/-- A literal in single quotes, where a quote is doubled, and what follows it. -/
def readLiteral : ℕ → List Char → Option (List Char × List Char)
  | 0, _ => none
  | _ + 1, [] => none
  | n + 1, '\'' :: '\'' :: rest => (readLiteral n rest).map fun found => ('\'' :: found.1, found.2)
  | _ + 1, '\'' :: rest => some ([], rest)
  | n + 1, c :: rest => (readLiteral n rest).map fun found => (c :: found.1, found.2)

/-- The elements of an array of literals, and what follows it from its bracket on. -/
def readArray : ℕ → List Char → Option (List (List Char) × List Char)
  | 0, _ => none
  | _ + 1, [] => none
  | n + 1, c :: rest =>
      if c ≠ '\'' then none
      else (readLiteral rest.length rest).bind fun literal =>
        if [',', ' '] <+: literal.2 then
          (readArray n (literal.2.drop 2)).map fun found => (literal.1 :: found.1, found.2)
        else if literal.2.head? = some ']' then some ([literal.1], literal.2)
        else none

/-! ## What should be found -/

/-- The script prints the names that the dump's own statements make, each where it is made first,
and the statement for the database has each as one literal, and else only the role. -/
structure Faithful (dump : Dump) : Prop where
  printed : printed Line.text dump.lines = firsts Line.made [] dump.lines
  sql : ∀ role, let names := upgradeDumpExtensions (dump.lines.map Line.text)
    (names = [] → upgradeExtensionSql role names = none) ∧
      (names ≠ [] → ∃ list,
        upgradeExtensionSql role names = some (sqlBefore role ++ (list ++ sqlAfter role)) ∧
          readArray names.length (list ++ sqlAfter role) = some (names, sqlAfter role))

/-- Before the first line that is like the beginning of data, only own statements bring names, and
they bring them all. -/
structure Clean (dump : Dump) : Prop where
  announced : ∀ before line after, beforeCopy Line.text dump.lines = before ++ line :: after →
    line.isOwn = false → ∀ name, nameOf line.text = some name →
    ∃ own ∈ before, own.made = some name
  complete : ∀ line ∈ dump.lines, ∀ name, line.made = some name →
    ∃ own ∈ beforeCopy Line.text dump.lines, own.made = some name

section Names

variable {word text rest name : List Char} {c : Char}

theorem afterWord_append (word rest : List Char) :
    afterWord word (word ++ ' ' :: rest) = some (rest.dropWhile isSpace) := by
  have hspace : isSpace ' ' = true := by decide
  rw [afterWord, List.drop_left, if_pos ⟨List.prefix_append _ _, hspace⟩,
    List.dropWhile_cons_of_pos hspace]

theorem isSpace_of_isNameChar (h : isNameChar c) : isSpace c = false := by
  by_contra hspace
  rw [Bool.not_eq_false, isSpace, decide_eq_true_eq] at hspace
  have hall : [' ', '\t', '\n', '\x0b', '\x0c', '\r'].all fun d => !isNameChar d := by decide
  have hnot := List.all_eq_true.mp hall c hspace
  rw [h] at hnot
  cases hnot

/-- A written name does not begin with a blank. -/
theorem ident_head (e : Extension) (rest : List Char) :
    (e.ident ++ rest).dropWhile isSpace = e.ident ++ rest := by
  rw [Extension.ident]
  split_ifs
  · rfl
  · obtain ⟨c, name, hname⟩ := List.exists_cons_of_ne_nil e.name_ne_nil
    have hc : isNameChar c := List.all_eq_true.mp e.name_valid c (by rw [hname]; simp)
    rw [hname, List.cons_append, List.dropWhile_cons_of_neg]
    rw [isSpace_of_isNameChar hc]
    exact Bool.false_ne_true

theorem takeWhile_name (hname : name.all isNameChar) (hc : isNameChar c = false)
    (rest : List Char) : (name ++ c :: rest).takeWhile isNameChar = name := by
  rw [List.takeWhile_append_of_pos (List.all_eq_true.mp hname),
    List.takeWhile_cons_of_neg (by rw [hc]; exact Bool.false_ne_true), List.append_nil]

theorem readName_ident (e : Extension) (rest : List Char) :
    readName (e.ident ++ ' ' :: rest) = e.name := by
  unfold readName Extension.ident
  cases hquoted : e.quoted with
  | true =>
      have htext : (if true = true then '"' :: (e.name ++ ['"']) else e.name) ++ ' ' :: rest =
          '"' :: (e.name ++ '"' :: ' ' :: rest) := by simp
      have hname : (e.name ++ '"' :: ' ' :: rest).takeWhile isNameChar = e.name :=
        takeWhile_name e.name_valid (by decide) _
      rw [htext]
      simp only [List.tail_cons, hname, List.drop_left]
      exact if_pos ⟨rfl, e.name_ne_nil, rfl⟩
  | false =>
      obtain ⟨c, tail, hname⟩ := List.exists_cons_of_ne_nil e.name_ne_nil
      have hquote : c ≠ '"' := by
        rintro rfl
        have hvalid := List.all_eq_true.mp e.name_valid '"' (by rw [hname]; simp)
        exact absurd hvalid (by decide)
      rw [if_neg Bool.false_ne_true, if_neg]
      · exact takeWhile_name e.name_valid (by decide) rest
      · rw [hname]
        exact fun h => hquote (Option.some.inj h.1)

/-- A name that is not quoted is no `IF`. -/
theorem afterWord_if_ident (e : Extension) (rest : List Char) :
    afterWord "IF".toList (e.ident ++ rest) = none := by
  rw [afterWord, if_neg]
  rintro ⟨⟨tail, htail⟩, -⟩
  unfold Extension.ident at htail
  cases hquoted : e.quoted with
  | true =>
      rw [hquoted] at htail
      exact absurd (List.cons.inj htail).1 (by decide)
  | false =>
      obtain ⟨c, name, hname⟩ := List.exists_cons_of_ne_nil e.name_ne_nil
      have hbare := List.all_eq_true.mp (e.bare_valid hquoted) c (by rw [hname]; simp)
      rw [hquoted, if_neg Bool.false_ne_true, hname] at htail
      obtain rfl : 'I' = c := (List.cons.inj htail).1
      exact absurd hbare (by decide)

theorem afterGuard_guarded (text : List Char) :
    afterGuard ("IF NOT EXISTS ".toList ++ text) = text.dropWhile isSpace := by
  have hwords : "IF NOT EXISTS ".toList ++ text =
      "IF".toList ++ ' ' :: ("NOT".toList ++ ' ' :: ("EXISTS".toList ++ ' ' :: text)) := by simp
  have hnot : ("NOT".toList ++ ' ' :: ("EXISTS".toList ++ ' ' :: text)).dropWhile isSpace =
      "NOT".toList ++ ' ' :: ("EXISTS".toList ++ ' ' :: text) := rfl
  have hexists : ("EXISTS".toList ++ ' ' :: text).dropWhile isSpace =
      "EXISTS".toList ++ ' ' :: text := rfl
  rw [afterGuard, hwords, afterWord_append, Option.bind_some, hnot, afterWord_append,
    Option.bind_some, hexists, afterWord_append]
  rfl

theorem afterCreate_create (text : List Char) :
    afterCreate ("CREATE EXTENSION ".toList ++ text) = some (text.dropWhile isSpace) := by
  have hwords : "CREATE EXTENSION ".toList ++ text =
      "CREATE".toList ++ ' ' :: ("EXTENSION".toList ++ ' ' :: text) := by simp
  have hcreate : ("CREATE".toList ++ ' ' :: ("EXTENSION".toList ++ ' ' :: text)).dropWhile isSpace =
      "CREATE".toList ++ ' ' :: ("EXTENSION".toList ++ ' ' :: text) := rfl
  have hextension : ("EXTENSION".toList ++ ' ' :: text).dropWhile isSpace =
      "EXTENSION".toList ++ ' ' :: text := rfl
  rw [afterCreate, hwords, hcreate, afterWord_append, Option.bind_some, hextension,
    afterWord_append]

/-- The name of an own statement is found. -/
theorem nameOf_extension (e : Extension) : nameOf e.line = some e.name := by
  have hafter : (afterCreate e.line).map afterGuard = some (e.ident ++ ' ' :: e.rest) := by
    unfold Extension.line
    rw [afterCreate_create, Option.map_some]
    cases e.guarded with
    | true =>
        have hguard : ("IF NOT EXISTS ".toList ++ (e.ident ++ ' ' :: e.rest)).dropWhile isSpace =
            "IF NOT EXISTS ".toList ++ (e.ident ++ ' ' :: e.rest) := rfl
        rw [if_pos rfl, hguard, afterGuard_guarded, ident_head]
    | false =>
        rw [if_neg Bool.false_ne_true, List.nil_append, ident_head, afterGuard,
          afterWord_if_ident]
        rfl
  obtain ⟨text, htext, hguard⟩ := Option.map_eq_some_iff.mp hafter
  rw [nameOf, htext, Option.bind_some, hguard]
  simp only [readName_ident, if_neg e.name_ne_nil]

end Names

section Literals

variable {name rest text : List Char} {names : List (List Char)} {c : Char}

/-- A name that is found is one of the names that are read. -/
theorem nameOf_valid (h : nameOf text = some name) : name ≠ [] ∧ name.all isNameChar := by
  obtain ⟨after, -, hname⟩ := Option.bind_eq_some_iff.mp h
  simp only [Option.ite_none_left_eq_some, Option.some.injEq] at hname
  obtain ⟨hne, rfl⟩ := hname
  apply And.intro hne
  rw [readName]
  split_ifs
  · exact List.all_takeWhile
  · exact List.all_takeWhile

theorem isNameChar_quote : isNameChar '\'' = false := by decide

/-- A quoted name is read back. -/
theorem readLiteral_name (hname : name.all isNameChar) (hc : c ≠ '\'') (n : ℕ) :
    readLiteral (name.length + 1 + n) (name ++ '\'' :: c :: rest) = some (name, c :: rest) := by
  induction name with
  | nil =>
      rw [List.length_nil, Nat.zero_add, Nat.add_comm, List.nil_append, readLiteral]
      exact fun _ heq => hc (List.cons.inj heq).1
  | cons d name ih =>
      rw [List.all_cons, Bool.and_eq_true] at hname
      have hd : d ≠ '\'' := by
        rintro rfl
        rw [isNameChar_quote] at hname
        cases hname.1
      have hn : (d :: name).length + 1 + n = name.length + 1 + n + 1 := by
        rw [List.length_cons]
        omega
      rw [hn, List.cons_append, readLiteral, ih hname.2]
      · rfl
      · exact fun _ heq => absurd heq hd
      · exact hd

/-- The names after the first one. -/
def quotedRest (names : List (List Char)) : List Char :=
  names.flatMap fun name => [',', ' '] ++ quote name

theorem quotedList_cons (hnames : ∀ n ∈ name :: names, n ≠ []) :
    quotedList (name :: names) = quote name ++ quotedRest names := by
  have hrest : ∀ (names : List (List Char)) (list : List Char), list ≠ [] →
      names.foldl (fun list name => (if list = [] then [] else list ++ [',', ' ']) ++ quote name)
        list = list ++ quotedRest names := by
    intro names
    induction names with
    | nil => exact fun list _ => (List.append_nil list).symm
    | cons name names ih =>
        intro list hlist
        rw [List.foldl_cons, if_neg hlist, ih _ (by simp), quotedRest, quotedRest,
          List.flatMap_cons]
        simp only [List.append_assoc]
  have hfilter : (name :: names).filter (· ≠ []) = name :: names :=
    List.filter_eq_self.mpr fun n hn => decide_eq_true (hnames n hn)
  rw [quotedList, hfilter, List.foldl_cons, if_pos rfl, List.nil_append]
  exact hrest names _ (List.cons_ne_nil _ _)

theorem readArray_quote (hname : name.all isNameChar) (hc : c ≠ '\'') (n : ℕ) :
    readArray (n + 1) (quote name ++ c :: rest) =
      if [',', ' '] <+: c :: rest then
        (readArray n ((c :: rest).drop 2)).map fun found => (name :: found.1, found.2)
      else if (c :: rest).head? = some ']' then some ([name], c :: rest)
      else none := by
  have htext : quote name ++ c :: rest = '\'' :: (name ++ '\'' :: c :: rest) := by simp [quote]
  have hlength : (name ++ '\'' :: c :: rest).length = name.length + 1 + (c :: rest).length := by
    simp only [List.length_append, List.length_cons]
    omega
  rw [htext, readArray, if_neg (fun h => h rfl), hlength, readLiteral_name hname hc]
  rfl

theorem readArray_quoted (hname : name.all isNameChar) (hnames : ∀ n ∈ names, n.all isNameChar)
    (rest : List Char) :
    readArray (names.length + 1) (quote name ++ (quotedRest names ++ ']' :: rest)) =
      some (name :: names, ']' :: rest) := by
  induction names generalizing name with
  | nil =>
      have hclosed : ¬[',', ' '] <+: ']' :: rest :=
        fun h => absurd (List.cons_prefix_cons.mp h).1 (by decide)
      rw [quotedRest, List.flatMap_nil, List.nil_append, readArray_quote hname (by decide),
        if_neg hclosed]
      rfl
  | cons next names ih =>
      have hrest : quotedRest (next :: names) ++ ']' :: rest =
          ',' :: ' ' :: (quote next ++ (quotedRest names ++ ']' :: rest)) := by
        simp [quotedRest]
      rw [hrest, readArray_quote hname (by decide), if_pos ⟨_, rfl⟩, List.length_cons]
      change Option.map _ (readArray _ (quote next ++ _)) = _
      rw [ih (hnames next List.mem_cons_self) fun n hn => hnames n (List.mem_cons_of_mem _ hn)]
      rfl

/-- Each name is one literal of the statement, and the statement goes on as it is written. -/
theorem upgradeExtensionSql_names (role : List Char)
    (hnames : ∀ n ∈ names, n ≠ [] ∧ n.all isNameChar) :
    (names = [] → upgradeExtensionSql role names = none) ∧
      (names ≠ [] → ∃ list,
        upgradeExtensionSql role names = some (sqlBefore role ++ (list ++ sqlAfter role)) ∧
          readArray names.length (list ++ sqlAfter role) = some (names, sqlAfter role)) := by
  cases names with
  | nil => exact ⟨fun _ => rfl, fun h => absurd rfl h⟩
  | cons name names =>
      apply And.intro fun h => absurd h (List.cons_ne_nil _ _)
      intro _
      have hlist := quotedList_cons fun n hn => (hnames n hn).1
      have hne : quotedList (name :: names) ≠ [] := by
        rw [hlist, quote]
        exact List.cons_ne_nil _ _
      obtain ⟨rest, hafter⟩ : ∃ rest, sqlAfter role = ']' :: rest := ⟨_, rfl⟩
      refine ⟨quotedList (name :: names), if_neg hne, ?_⟩
      rw [hlist, hafter, List.append_assoc]
      apply readArray_quoted (hnames name List.mem_cons_self).2
      exact fun n hn => (hnames n (List.mem_cons_of_mem _ hn)).2

end Literals

section Dumps

variable {dump : Dump} {line : Line} {lines : List Line} {name : List Char}

/-- An own statement makes the name that is found in it, and another line makes none. -/
theorem made_eq_some_iff : line.made = some name ↔ line.isOwn ∧ nameOf line.text = some name := by
  cases line with
  | extension e =>
      apply Iff.trans _ (and_iff_right rfl).symm
      exact Eq.congr_left (nameOf_extension e).symm
  | other line => exact ⟨fun h => absurd h (by rintro ⟨⟩), fun h => absurd h.1 (by rintro ⟨⟩)⟩
  | heading text => exact ⟨fun h => absurd h (by rintro ⟨⟩), fun h => absurd h.1 (by rintro ⟨⟩)⟩
  | row text => exact ⟨fun h => absurd h (by rintro ⟨⟩), fun h => absurd h.1 (by rintro ⟨⟩)⟩

/-- The names of the lines are the names of their texts. -/
theorem printed_names (lines : List Line) :
    (printed Line.text lines).map Prod.snd = upgradeDumpExtensions (lines.map Line.text) := by
  rw [upgradeDumpExtensions, printed, printed, beforeCopy, beforeCopy, List.takeWhile_map,
    firsts_map, List.map_map]
  rfl

theorem upgradeDumpExtensions_valid (lines : List (List Char)) :
    ∀ name ∈ upgradeDumpExtensions lines, name ≠ [] ∧ name.all isNameChar := by
  intro name hname
  obtain ⟨entry, hentry, rfl⟩ := List.mem_map.mp hname
  exact nameOf_valid (mem_of_mem_firsts hentry).2

theorem firsts_made (lines : List Line) :
    firsts Line.made [] lines =
      firsts (nameOf ∘ Line.text) [] (lines.filter Line.isOwn) := by
  apply firsts_own
  · intro line hown
    apply Option.ext
    intro name
    rw [made_eq_some_iff]
    exact and_iff_right hown
  · intro line hown
    cases line with
    | extension e => cases hown
    | other line => rfl
    | heading text => rfl
    | row text => rfl

/-- The lines from the first on that is like the beginning of data. -/
def fromCopy (lines : List Line) : List Line := lines.dropWhile fun line => !isCopy line.text

theorem before_append_from (lines : List Line) :
    beforeCopy Line.text lines ++ fromCopy lines = lines :=
  List.takeWhile_append_dropWhile

theorem mem_ownNames_iff :
    name ∈ (lines.filter Line.isOwn).filterMap (nameOf ∘ Line.text) ++ [] ↔
      ∃ own ∈ lines, own.made = some name := by
  simp only [List.append_nil, List.mem_filterMap, List.mem_filter, made_eq_some_iff, and_assoc,
    Function.comp_apply]

theorem announced_own_iff :
    Announced Line.isOwn (nameOf ∘ Line.text) [] lines ↔
      ∀ before line after, lines = before ++ line :: after → line.isOwn = false →
        ∀ name, nameOf line.text = some name → ∃ own ∈ before, own.made = some name := by
  simp only [Announced, List.not_mem_nil, false_or, made_eq_some_iff, Function.comp_apply]

/-- What is printed is what the own statements make if and only if the dump is clean. -/
theorem printed_eq_iff :
    printed Line.text dump.lines = firsts Line.made [] dump.lines ↔ Clean dump := by
  have hfirsts := @firsts_eq_iff Line (List Char) _ Line.isOwn (nameOf ∘ Line.text) []
    (beforeCopy Line.text dump.lines) (fromCopy dump.lines)
  rw [before_append_from, ← firsts_made, announced_own_iff] at hfirsts
  apply hfirsts.trans
  constructor
  · rintro ⟨hother, hback⟩
    apply Clean.mk hother
    intro line hline name hmade
    rw [← before_append_from dump.lines] at hline
    rcases List.mem_append.mp hline with hfront | hline
    · exact ⟨line, hfront, hmade⟩
    · have hown := made_eq_some_iff.mp hmade
      exact mem_ownNames_iff.mp (hback line hline hown.1 name hown.2)
  · intro hclean
    apply And.intro hclean.announced
    intro line hline hown name hname
    apply mem_ownNames_iff.mpr
    apply hclean.complete line _ name (made_eq_some_iff.mpr ⟨hown, hname⟩)
    rw [← before_append_from dump.lines]
    exact List.mem_append_right _ hline

/-- The script finds what the dump's own statements make if and only if, before the first line that
is like the beginning of data, what stands in quotes brings no other name. -/
theorem upgradeDumpExtensions_faithful_iff (dump : Dump) : Faithful dump ↔ Clean dump := by
  constructor
  · intro h
    exact printed_eq_iff.mp h.printed
  · intro h
    apply Faithful.mk (printed_eq_iff.mpr h)
    intro role
    apply upgradeExtensionSql_names
    exact upgradeDumpExtensions_valid _

/-- A dump with a function of which the body makes an extension when it is called. -/
def withFunction : Dump where
  preData :=
    [.other (.code "CREATE FUNCTION public.install() RETURNS void".toList (by decide) (by decide)),
      .other (.code "    LANGUAGE sql".toList (by decide) (by decide)),
      .other (.code "    AS $$".toList (by decide) (by decide)),
      .other (.quoted "CREATE EXTENSION IF NOT EXISTS plpython3u;".toList),
      .other (.code "$$;".toList (by decide) (by decide))]
  blocks := []
  postData := []

/-- The script takes a name from a body. -/
theorem upgradeDumpExtensions_unfaithful : ¬Faithful withFunction := by
  intro h
  have hnames := congrArg (List.map Prod.snd) h.printed
  exact absurd hnames (by decide)

/-- A heading on one line is like the beginning of data. -/
theorem isCopy_heading {block : Block} (hone : block.continued = []) :
    isCopy ("COPY ".toList ++ block.heading) = true := by
  have hclosed := block.heading_closed
  rw [hone, List.getLast?_nil, Option.getD_none] at hclosed
  have hdata : block.heading.tails.any isFromStdin = true :=
    List.any_eq_true.mpr ⟨" FROM stdin;".toList, (List.mem_tails _ _).mpr hclosed, by decide⟩
  have htext : ("COPY ".toList ++ block.heading).dropWhile isSpace =
      "COPY".toList ++ ' ' :: block.heading := rfl
  unfold isCopy
  rw [htext]
  simp only [Bool.and_eq_true]
  apply And.intro
  · exact ⟨decide_eq_true (List.prefix_append _ _), rfl⟩
  · exact hdata

theorem takeWhile_stop {p : Line → Bool} (hline : p line = false) (before after : List Line) :
    (before ++ line :: after).takeWhile p = before.takeWhile p := by
  induction before with
  | nil => exact List.takeWhile_cons_of_neg (by rw [hline]; exact Bool.false_ne_true)
  | cons first before ih =>
      rw [List.cons_append, List.takeWhile_cons, List.takeWhile_cons, ih]

/-- If the heading of the first table is on one line, then only the part before the data brings
names. -/
theorem printed_preData {block : Block} {blocks : List Block}
    (hblocks : dump.blocks = block :: blocks) (hone : block.continued = []) :
    printed Line.text dump.lines = printed Line.text (dump.preData.map Statement.toLine) := by
  have hlines : dump.lines = dump.preData.map Statement.toLine ++
      .heading block.heading :: (block.lines.tail ++ (blocks.flatMap Block.lines ++
        dump.postData.map .other)) := by
    rw [Dump.lines, hblocks, List.flatMap_cons, Block.lines]
    simp only [List.cons_append, List.append_assoc, List.tail_cons]
  have hstop : (!isCopy (Line.text (.heading block.heading))) = false := by
    rw [Bool.not_eq_false']
    exact isCopy_heading hone
  rw [printed, printed, beforeCopy, beforeCopy, hlines, takeWhile_stop hstop]

end Dumps

end FastTAK.Extensions
