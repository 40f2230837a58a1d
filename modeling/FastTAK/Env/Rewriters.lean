import FastTAK.Env.Rows

/-!
# Scripts that rewrite `.env`

`reconfig.sh`, `restore-env.sh` and the upgrade of `setup.sh` write a value with `sed`, whose
pattern is anchored at the beginning of a line, and report success whether a line matched or not.
-/

namespace FastTAK.Env

/-! ## sed -/

/-- `sed -i.bak "s<d>^<key>=.*<d><key>=<value><d>" <file>` for a delimiter, a key, a value and a
file: the new file, if the command succeeds. -/
abbrev Sed := Char → Key → List Char → List Char → Option (List Char)

/-- A value that leaves the script one substitution and is no escape in it. -/
def Spliced (d : Char) (value : List Char) : Prop := '\\' ∉ value ∧ d ∉ value ∧ '\n' ∉ value

instance (d : Char) (value : List Char) : Decidable (Spliced d value) :=
  inferInstanceAs (Decidable (_ ∧ _ ∧ _))

def anchored (key : Key) (line : List Char) : Bool := (key.chars ++ ['=']).isPrefixOf line

/-- `&` in a replacement is the text that matched. -/
def expand (value line : List Char) : List Char :=
  value.flatMap fun c => if c = '&' then line else [c]

def substitute (key : Key) (value line : List Char) : List Char :=
  if anchored key line then key.chars ++ '=' :: expand value line else line

/-- Line by line, and what it does to the end of the last one is its own affair. -/
def Sed.Documented (sed : Sed) : Prop :=
  ∀ d key value file file', Spliced d value → sed d key value file = some file' →
    records file' = (records file).map (substitute key value)

/-! ## The scripts -/

def serverAddress : Key := ⟨"SERVER_ADDRESS".toList, by decide, List.all_eq_true.mp (by decide)⟩

def deployMode : Key := ⟨"DEPLOY_MODE".toList, by decide, List.all_eq_true.mp (by decide)⟩

def takVersion : Key := ⟨"TAK_VERSION".toList, by decide, List.all_eq_true.mp (by decide)⟩

/-- How a script that may rewrite the file goes on: it refuses, ends where a command failed,
leaves a file whose value needs no rewriting, or reports that it rewrote one. -/
inductive Rewrite
  | refused
  | failed
  | settled (file : List Char)
  | reported (file : List Char)
deriving DecidableEq

/-- `reconfig.sh` up to `Updated .env`. -/
def reconfig (sed : Sed) (file address mode : List Char) : Rewrite :=
  if mode ≠ "direct".toList ∧ mode ≠ "subdomain".toList then .refused
  else if envGet file serverAddress = address ∧ envGet file deployMode = mode then .settled file
  else
    match sed '|' serverAddress address file with
    | none => .failed
    | some file =>
        match sed '|' deployMode mode file with
        | none => .failed
        | some file => .reported file

/-- `tak_version_major_minor`. -/
def majorMinor (version : List Char) : Option (List Char × List Char) :=
  let mm := version.takeWhile (· ≠ '-')
  let major := mm.takeWhile (· ≠ '.')
  let minor := if '.' ∈ mm then (mm.dropWhile (· ≠ '.')).drop 1 else mm
  if mm = major ∨ major = [] ∨ minor = [] ∨ ¬ major.all Char.isDigit ∨ ¬ minor.all Char.isDigit then
    none
  else some (major, minor)

/-- A number as `[` takes it. -/
def operand (digits : List Char) : Option Nat :=
  let n := digits.foldl (fun n c => 10 * n + (c.toNat - '0'.toNat)) 0
  if n < 2 ^ 63 then some n else none

/-- `tak_version_meets_floor` for `TAK_VERSION_FLOOR`, which is 5.8. -/
def meetsFloor (version : List Char) : Bool :=
  match majorMinor version with
  | none => false
  | some (major, minor) =>
      if (operand major).any (5 < ·) then true
      else if (operand major).any (· < 5) then false
      else (operand minor).any (8 ≤ ·)

/-- `restore-env.sh` up to its report of the version that it kept. -/
def restoreEnv (sed : Sed) (archive host : List Char) : Rewrite :=
  let hostVersion := envGet host takVersion
  let archiveVersion := envGet archive takVersion
  if archiveVersion ≠ [] ∧ ¬ meetsFloor archiveVersion then .refused
  else if hostVersion = [] then .settled archive
  else if archiveVersion = hostVersion then .settled archive
  else if envHas archive takVersion then
    match sed '/' takVersion hostVersion archive with
    | none => .failed
    | some file => .reported file
  else .reported (archive ++ (takVersion.chars ++ '=' :: hostVersion ++ ['\n']))

/-- `setup.sh` where it updates the version. -/
def setupVersion (sed : Sed) (file version : List Char) : Rewrite :=
  if envGet file takVersion = version then .settled file
  else
    match sed '/' takVersion version file with
    | none => .failed
    | some file => .reported file

/-! ## Agreement with the reader -/

/-- The new file reads as the old one but for the keys that were set. -/
def Agrees (file file' : List Char) (sets : List (Key × List Char)) : Prop :=
  (∀ set ∈ sets, envGet file' set.1 = set.2) ∧
    ∀ key, (∀ set ∈ sets, key ≠ set.1) → envGet file' key = envGet file key

/-- A value that reads back: no quote in front, no blank at the end. -/
def ReadsBack (value : List Char) : Prop :=
  value.head? ≠ some '"' ∧ value.head? ≠ some '\'' ∧ ¬ value.getLast?.any isSpace

instance (value : List Char) : Decidable (ReadsBack value) :=
  inferInstanceAs (Decidable (_ ∧ _ ∧ _))

/-- The row that decides what a key reads as. -/
def lastRow (file : List Char) (key : Key) : Option (List Char) :=
  ((records file).filter (assigns key)).getLast?

/-- When an anchored substitution gives a key a value: the row that decides begins with the key
and the value reads back and has no `&`, or the key has the value already. -/
def SedSets (file : List Char) (key : Key) (value : List Char) : Prop :=
  if (lastRow file key).any (anchored key) then '&' ∉ value ∧ ReadsBack value
  else envGet file key = value

instance (file : List Char) (key : Key) (value : List Char) : Decidable (SedSets file key value) :=
  inferInstanceAs (Decidable (if (lastRow file key).any (anchored key) then
    '&' ∉ value ∧ ReadsBack value else envGet file key = value))

/-- When text at the end of a file without the key gives it a value: the open line has nothing
but blanks and `export` on it. -/
def AppendSets (file : List Char) (key : Key) (value : List Char) : Prop :=
  assigns key (lastLine file ++ (key.chars ++ '=' :: value)) ∧ ReadsBack value

instance (file : List Char) (key : Key) (value : List Char) :
    Decidable (AppendSets file key value) :=
  inferInstanceAs (Decidable (_ ∧ _))

/-- When the version that `restore-env.sh` kept is the one that is read. -/
def RestoreSets (archive version : List Char) : Prop :=
  if envHas archive takVersion then SedSets archive takVersion version
  else AppendSets archive takVersion version

instance (archive version : List Char) : Decidable (RestoreSets archive version) :=
  inferInstanceAs (Decidable (if envHas archive takVersion then SedSets archive takVersion version
    else AppendSets archive takVersion version))

section Substitute

variable {key other : Key} {value line file file' : List Char}

theorem anchored_iff : anchored key line ↔ ∃ val, line = key.chars ++ '=' :: val := by
  rw [anchored, List.isPrefixOf_iff_prefix]
  constructor
  · rintro ⟨val, rfl⟩
    exact ⟨val, by simp⟩
  · rintro ⟨val, rfl⟩
    exact ⟨val, by simp⟩

theorem assigns_key_iff : assigns other (key.chars ++ '=' :: value) ↔ other = key := by
  have hkey : assigns key (key.chars ++ '=' :: value) :=
    assigns_iff_lead.mpr ⟨[], value, Or.inl rfl, rfl⟩
  constructor
  · exact fun hother => assigns_unique hother hkey
  · rintro rfl
    exact hkey

theorem assigns_substitute (key other : Key) (value line : List Char) :
    assigns other (substitute key value line) = assigns other line := by
  rw [substitute]
  split_ifs with hanchored
  · obtain ⟨val, rfl⟩ := anchored_iff.mp hanchored
    rw [Bool.eq_iff_iff, assigns_key_iff, assigns_key_iff]
  · rfl

theorem lastRow_substitute (hrows : records file' = (records file).map (substitute key value))
    (other : Key) : lastRow file' other = (lastRow file other).map (substitute key value) := by
  have hsame : assigns other ∘ substitute key value = assigns other :=
    funext fun line => assigns_substitute key other value line
  rw [lastRow, hrows, List.filter_map, hsame, List.getLast?_map]
  rfl

theorem envGet_eq_lastRow (file : List Char) (key : Key) :
    envGet file key =
      ((lastRow file key).map fun line => shellValue (afterEquals line)).getD [] := by
  rw [envGet_eq_rowGet, rowGet, lastRow]

theorem assigns_lastRow (h : lastRow file key = some line) : assigns key line :=
  (List.mem_filter.mp (List.mem_of_getLast? h)).2

/-- A substitution leaves the other keys alone. -/
theorem lastRow_substitute_other
    (hrows : records file' = (records file).map (substitute key value)) (hother : other ≠ key) :
    lastRow file' other = lastRow file other := by
  rw [lastRow_substitute hrows]
  cases hline : lastRow file other with
  | none => rfl
  | some line =>
      have hnot : ¬ anchored key line := by
        intro hanchored
        obtain ⟨val, rfl⟩ := anchored_iff.mp hanchored
        exact hother (assigns_key_iff.mp (assigns_lastRow hline))
      rw [Option.map_some, substitute, if_neg hnot]

theorem envGet_substitute_other
    (hrows : records file' = (records file).map (substitute key value)) (hother : other ≠ key) :
    envGet file' other = envGet file other := by
  rw [envGet_eq_lastRow, envGet_eq_lastRow file, lastRow_substitute_other hrows hother]

end Substitute

section ReadsBack

variable {key : Key} {value line rest : List Char} {q : Char}

/-- A value that opens with a quote is read without it. -/
theorem shellValue_quote (hquote : q = '"' ∨ q = '\'') :
    shellValue (q :: rest) = rest.takeWhile (· ≠ q) := by
  rcases hquote with rfl | rfl
  · rfl
  · rfl

theorem not_mem_shellValue_quote (rest : List Char) (hquote : q = '"' ∨ q = '\'') :
    q ∉ shellValue (q :: rest) := by
  rw [shellValue_quote hquote]
  intro hmem
  have hother := List.mem_takeWhile_imp hmem
  simp at hother

theorem head_quote_cases (value : List Char) :
    (∃ q rest, (q = '"' ∨ q = '\'') ∧ value = q :: rest) ∨
      (value.head? ≠ some '"' ∧ value.head? ≠ some '\'') := by
  cases value with
  | nil =>
      right
      constructor
      · intro h
        cases h
      · intro h
        cases h
  | cons c rest =>
      by_cases hquote : c = '"' ∨ c = '\''
      · exact Or.inl ⟨c, rest, hquote, rfl⟩
      · right
        rw [not_or] at hquote
        exact ⟨fun h => hquote.1 (Option.some.inj h), fun h => hquote.2 (Option.some.inj h)⟩

theorem shellValue_eq_self_iff : shellValue value = value ↔ ReadsBack value := by
  rcases head_quote_cases value with ⟨q, rest, hquote, rfl⟩ | ⟨hdouble, hsingle⟩
  · apply iff_of_false
    · intro hsame
      apply not_mem_shellValue_quote rest hquote
      rw [hsame]
      exact List.mem_cons_self
    · rintro ⟨hdouble, hsingle, -⟩
      rcases hquote with rfl | rfl
      · exact hdouble rfl
      · exact hsingle rfl
  · rw [shellValue_unquoted hdouble hsingle, List.rdropWhile_eq_self_iff, ReadsBack]
    constructor
    · intro hlast
      use hdouble, hsingle
      cases value using List.reverseRecOn with
      | nil => exact Bool.false_ne_true
      | append_singleton value c =>
          have hc := hlast (by simp)
          rw [List.getLast_concat] at hc
          rw [List.getLast?_concat]
          exact hc
    · rintro ⟨-, -, hlast⟩ hne
      rw [List.getLast?_eq_some_getLast hne] at hlast
      exact hlast

theorem expand_of_not_mem (h : '&' ∉ value) : expand value line = value := by
  induction value with
  | nil => rfl
  | cons c value ih =>
      obtain ⟨hc, hvalue⟩ := List.ne_and_not_mem_of_not_mem_cons h
      have hcons : expand (c :: value) line = [c] ++ expand value line := by
        rw [expand, List.flatMap_cons, if_neg (Ne.symm hc)]
        rfl
      rw [hcons, ih hvalue]
      rfl

/-- An `&` is read as something else: where it stood, the row begins. -/
theorem shellValue_expand_ne (hline : ∃ c rest, line = c :: rest ∧ isKeyChar c)
    (hmem : '&' ∈ value) : shellValue (expand value line) ≠ value := by
  obtain ⟨lead, tail, rfl, hlead⟩ := List.eq_append_cons_of_mem hmem
  obtain ⟨c, rest, rfl, hc⟩ := hline
  have hexpand : expand (lead ++ '&' :: tail) (c :: rest) =
      lead ++ c :: (rest ++ expand tail (c :: rest)) := by
    have happend : expand (lead ++ '&' :: tail) (c :: rest) =
        expand lead (c :: rest) ++ expand ('&' :: tail) (c :: rest) := List.flatMap_append
    rw [happend, expand_of_not_mem hlead]
    rfl
  have hquote : ∀ q, q = '"' ∨ q = '\'' → ¬ isKeyChar q := by
    rintro q (rfl | rfl)
    · decide
    · decide
  intro hsame
  rw [hexpand] at hsame
  rcases head_quote_cases (lead ++ c :: (rest ++ expand tail (c :: rest))) with
    ⟨q, more, hq, hopen⟩ | ⟨hdouble, hsingle⟩
  · cases lead with
    | nil =>
        obtain rfl : c = q := (List.cons.inj hopen).1
        exact hquote c hq hc
    | cons d lead =>
        obtain rfl : d = q := (List.cons.inj hopen).1
        apply not_mem_shellValue_quote more hq
        rw [← hopen, hsame]
        exact List.mem_cons_self
  · rw [shellValue_unquoted hdouble hsingle] at hsame
    have hleads : lead ++ '&' :: tail <+: lead ++ c :: (rest ++ expand tail (c :: rest)) := by
      rw [← hsame]
      exact List.rdropWhile_prefix isSpace _
    rw [List.prefix_append_right_inj, List.cons_prefix_cons] at hleads
    rw [← hleads.1] at hc
    exact absurd hc (by decide)

theorem shellValue_expand_iff (hline : ∃ c rest, line = c :: rest ∧ isKeyChar c) :
    shellValue (expand value line) = value ↔ '&' ∉ value ∧ ReadsBack value := by
  by_cases hmem : '&' ∈ value
  · exact iff_of_false (shellValue_expand_ne hline hmem) fun h => h.1 hmem
  · rw [expand_of_not_mem hmem, shellValue_eq_self_iff]
    exact ⟨fun h => ⟨hmem, h⟩, fun h => h.2⟩

theorem anchored_head (h : anchored key line) : ∃ c rest, line = c :: rest ∧ isKeyChar c := by
  obtain ⟨val, rfl⟩ := anchored_iff.mp h
  obtain ⟨c, rest, hkey⟩ := List.exists_cons_of_ne_nil key.nonempty
  use c, rest ++ '=' :: val
  constructor
  · rw [hkey]
    rfl
  · exact key.valid c (by rw [hkey]; exact List.mem_cons_self)

end ReadsBack

section Sed

variable {key other : Key} {value line file file' : List Char}

/-- When the key reads as the value that a substitution was to give it. -/
theorem envGet_substitute_iff
    (hrows : records file' = (records file).map (substitute key value)) :
    envGet file' key = value ↔ SedSets file key value := by
  rw [SedSets, envGet_eq_lastRow file', lastRow_substitute hrows, envGet_eq_lastRow file]
  cases hline : lastRow file key with
  | none => exact Iff.rfl
  | some line =>
      by_cases hanchored : anchored key line
      · have hany : (some line).any (anchored key) := hanchored
        rw [if_pos hany, ← shellValue_expand_iff (anchored_head hanchored), Option.map_some,
          Option.map_some, Option.getD_some, substitute, if_pos hanchored, afterEquals_key]
      · have hany : ¬ (some line).any (anchored key) := hanchored
        rw [if_neg hany, Option.map_some, substitute, if_neg hanchored]

/-! ## A row at the end -/

theorem records_printf (file : List Char) (hvalue : '\n' ∉ value) :
    records (file ++ (key.chars ++ '=' :: value ++ ['\n'])) =
      (lines file).dropLast ++ [lastLine file ++ (key.chars ++ '=' :: value)] := by
  rw [← List.append_assoc, records_newline, lines_append file (newline_not_mem_row key hvalue)]

theorem not_assigns_of_envHas (h : envHas file key = false) :
    (∀ row ∈ (lines file).dropLast, ¬ assigns key row) ∧ ¬ assigns key (lastLine file) := by
  have hnone : ∀ row ∈ lines file, ¬ assigns key row := by
    intro row hrow hassigns
    rw [envHas, List.any_eq_false] at h
    exact h row hrow hassigns
  rw [lines_eq_concat] at hnone
  constructor
  · exact fun row hrow => hnone row (List.mem_append_left _ hrow)
  · exact hnone _ (by simp)

/-- Where the text of a row follows an open line without an assignment of the key, and together
they are one, there is no `=` on that line. -/
theorem not_mem_equals_lastLine (hlast : ¬ assigns key line)
    (hrow : assigns key (line ++ (key.chars ++ '=' :: value))) : '=' ∉ line := by
  intro hmem
  obtain ⟨lead, tail, rfl, hnone⟩ := List.eq_append_cons_of_mem hmem
  obtain ⟨blanks, val, hblanks, heq⟩ := assigns_iff_lead.mp hrow
  have hfirst : ∀ {text rest : List Char}, '=' ∉ text →
      (text ++ '=' :: rest).takeWhile (· ≠ '=') = text := by
    intro text rest htext
    rw [List.takeWhile_append_of_pos]
    · simp
    · intro c hc
      apply decide_eq_true
      rintro rfl
      exact htext hc
  have hkey : '=' ∉ blanks ++ key.chars := fun hmem =>
    (List.mem_append.mp hmem).elim hblanks.not_mem_equals key.not_mem_equals
  have hlead : lead = blanks ++ key.chars := by
    calc lead = (lead ++ '=' :: (tail ++ (key.chars ++ '=' :: value))).takeWhile (· ≠ '=') :=
          (hfirst hnone).symm
      _ = (blanks ++ key.chars ++ '=' :: val).takeWhile (· ≠ '=') := by
          rw [List.append_assoc, ← heq, List.append_assoc, List.cons_append]
      _ = blanks ++ key.chars := hfirst hkey
  rw [hlead, List.append_assoc] at hlast
  exact hlast (assigns_lead hblanks)

theorem envGet_printf_iff (hhas : envHas file key = false) (hvalue : '\n' ∉ value)
    (hne : value ≠ []) :
    envGet (file ++ (key.chars ++ '=' :: value ++ ['\n'])) key = value ↔
      AppendSets file key value := by
  obtain ⟨hnone, hlast⟩ := not_assigns_of_envHas hhas
  rw [envGet_eq_rowGet, records_printf file hvalue, AppendSets]
  by_cases hrow : assigns key (lastLine file ++ (key.chars ++ '=' :: value))
  · rw [rowGet_last hrow fun row hrow => absurd hrow List.not_mem_nil,
      afterEquals_lead (not_mem_equals_lastLine hlast hrow), shellValue_eq_self_iff]
    exact ⟨fun h => ⟨hrow, h⟩, fun h => h.2⟩
  · rw [rowGet_append hrow, rowGet_of_none hnone]
    exact ⟨fun h => absurd h.symm hne, fun h => absurd h.1 hrow⟩

/-- A row of its own leaves the other keys alone. -/
theorem envGet_printf_other (hhas : envHas file key = false) (hvalue : '\n' ∉ value)
    (hrow : assigns key (lastLine file ++ (key.chars ++ '=' :: value))) (hother : other ≠ key) :
    envGet (file ++ (key.chars ++ '=' :: value ++ ['\n'])) other = envGet file other := by
  obtain ⟨-, hlast⟩ := not_assigns_of_envHas hhas
  have hnot : ¬ assigns other (lastLine file) := by
    intro hassigns
    obtain ⟨lead, val, -, hline⟩ := assigns_iff_lead.mp hassigns
    apply not_mem_equals_lastLine hlast hrow
    rw [hline]
    simp
  have hnew : ¬ assigns other (lastLine file ++ (key.chars ++ '=' :: value)) := fun hassigns =>
    hother (assigns_unique hassigns hrow)
  rw [envGet_eq_rowGet, envGet_eq_rowGet, records_printf file hvalue, rowGet_append hnew, records]
  split_ifs
  · rw [List.append_nil]
  · rw [rowGet_append hnot]

/-! ## What the scripts report -/

theorem not_mem_shellValue {c : Char} {text : List Char} (h : c ∉ text) : c ∉ shellValue text := by
  intro hmem
  rcases head_quote_cases text with ⟨q, rest, hquote, rfl⟩ | ⟨hdouble, hsingle⟩
  · rw [shellValue_quote hquote] at hmem
    exact h (List.mem_cons_of_mem _ (List.takeWhile_subset _ hmem))
  · rw [shellValue_unquoted hdouble hsingle] at hmem
    exact h ((List.rdropWhile_prefix isSpace _).subset hmem)

theorem newline_not_mem_envGet (file : List Char) (key : Key) : '\n' ∉ envGet file key := by
  rw [envGet_eq_lastRow]
  cases hline : lastRow file key with
  | none => exact List.not_mem_nil
  | some line =>
      apply not_mem_shellValue
      have hmem := List.mem_of_mem_filter (List.mem_of_getLast? hline)
      intro hbreak
      apply not_mem_of_mem_lines (mem_lines_of_mem_records hmem)
      exact (List.dropWhile_suffix _).subset (List.mem_of_mem_drop hbreak)

theorem agrees_single_iff (hother : envGet file' key = value →
      ∀ other, other ≠ key → envGet file' other = envGet file other) :
    Agrees file file' [(key, value)] ↔ envGet file' key = value := by
  constructor
  · exact fun h => h.1 (key, value) (List.mem_singleton.mpr rfl)
  · intro hkey
    constructor
    · intro set hset
      rw [List.mem_singleton.mp hset]
      exact hkey
    · exact fun other hne => hother hkey other (hne (key, value) (List.mem_singleton.mpr rfl))

variable {sed : Sed}

theorem sed_agrees_iff (hsed : sed.Documented) {d : Char} (hspliced : Spliced d value)
    (hrun : sed d key value file = some file') :
    Agrees file file' [(key, value)] ↔ SedSets file key value := by
  have hrows := hsed d key value file file' hspliced hrun
  rw [agrees_single_iff fun _ other hother => envGet_substitute_other hrows hother,
    envGet_substitute_iff hrows]

theorem spliced_mode (hmode : ¬ (value ≠ "direct".toList ∧ value ≠ "subdomain".toList)) :
    Spliced '|' value := by
  rw [not_and_or, not_not, not_not] at hmode
  rcases hmode with rfl | rfl
  · decide
  · decide

theorem reconfig_agrees_iff (hsed : sed.Documented) {address mode : List Char}
    (hspliced : Spliced '|' address) (hrun : reconfig sed file address mode = .reported file') :
    Agrees file file' [(serverAddress, address), (deployMode, mode)] ↔
      SedSets file serverAddress address ∧ SedSets file deployMode mode := by
  rw [reconfig] at hrun
  split_ifs at hrun with hmode hsame
  cases hfirst : sed '|' serverAddress address file with
  | none =>
      rw [hfirst] at hrun
      cases hrun
  | some middle =>
      rw [hfirst] at hrun
      cases hsecond : sed '|' deployMode mode middle with
      | none =>
          simp only [hsecond] at hrun
          cases hrun
      | some last =>
          simp only [hsecond] at hrun
          obtain rfl : last = file' := Rewrite.reported.inj hrun
          have hrows := hsed _ _ _ _ _ hspliced hfirst
          have hrows' := hsed _ _ _ _ _ (spliced_mode hmode) hsecond
          have hne : serverAddress ≠ deployMode := by decide
          have hlast : lastRow middle deployMode = lastRow file deployMode :=
            lastRow_substitute_other hrows hne.symm
          have haddress : envGet last serverAddress = address ↔
              SedSets file serverAddress address := by
            rw [envGet_substitute_other hrows' hne, envGet_substitute_iff hrows]
          have hmodeSet : envGet last deployMode = mode ↔ SedSets file deployMode mode := by
            rw [envGet_substitute_iff hrows', SedSets, SedSets, hlast, envGet_eq_lastRow middle,
              envGet_eq_lastRow file, hlast]
          rw [← haddress, ← hmodeSet]
          constructor
          · intro h
            exact ⟨h.1 (serverAddress, address) (by simp), h.1 (deployMode, mode) (by simp)⟩
          · rintro ⟨hgetAddress, hgetMode⟩
            constructor
            · intro set hset
              rcases List.mem_cons.mp hset with rfl | hset
              · exact hgetAddress
              · rw [List.mem_singleton.mp hset]
                exact hgetMode
            · intro other hother
              rw [envGet_substitute_other hrows' (hother (deployMode, mode) (by simp)),
                envGet_substitute_other hrows (hother (serverAddress, address) (by simp))]

theorem restoreEnv_agrees_iff (hsed : sed.Documented) {archive host : List Char}
    (hspliced : envHas archive takVersion → Spliced '/' (envGet host takVersion))
    (hrun : restoreEnv sed archive host = .reported file') :
    Agrees archive file' [(takVersion, envGet host takVersion)] ↔
      RestoreSets archive (envGet host takVersion) := by
  rw [restoreEnv] at hrun
  rw [RestoreSets]
  split_ifs at hrun with hfloor hnone hsame hhas
  · rw [if_pos hhas]
    cases hnew : sed '/' takVersion (envGet host takVersion) archive with
    | none =>
        simp only [hnew] at hrun
        cases hrun
    | some file =>
        simp only [hnew] at hrun
        cases hrun
        exact sed_agrees_iff hsed (hspliced hhas) hnew
  · obtain rfl := Rewrite.reported.inj hrun
    rw [if_neg hhas]
    have hhas' := Bool.eq_false_iff.mpr hhas
    have hvalue := newline_not_mem_envGet host takVersion
    have hiff := envGet_printf_iff hhas' hvalue hnone
    rw [← hiff]
    apply agrees_single_iff
    intro hget other hother
    exact envGet_printf_other hhas' hvalue (hiff.mp hget).1 hother

theorem setupVersion_agrees_iff (hsed : sed.Documented) {version : List Char}
    (hspliced : Spliced '/' version) (hrun : setupVersion sed file version = .reported file') :
    Agrees file file' [(takVersion, version)] ↔ SedSets file takVersion version := by
  rw [setupVersion] at hrun
  split_ifs at hrun with hsame
  cases hnew : sed '/' takVersion version file with
  | none =>
      simp only [hnew] at hrun
      cases hrun
  | some new =>
      simp only [hnew] at hrun
      cases hrun
      exact sed_agrees_iff hsed hspliced hnew

/-- The reader agrees with a script that reports a new file exactly when the row it rewrites is
the one that is read, or the one it adds is a row of its own. -/
theorem rewriters_agree_iff (sed : Sed) (hsed : sed.Documented) :
    (∀ file address mode file', Spliced '|' address →
      reconfig sed file address mode = .reported file' →
        (Agrees file file' [(serverAddress, address), (deployMode, mode)] ↔
          SedSets file serverAddress address ∧ SedSets file deployMode mode)) ∧
    (∀ archive host file', (envHas archive takVersion → Spliced '/' (envGet host takVersion)) →
      restoreEnv sed archive host = .reported file' →
        (Agrees archive file' [(takVersion, envGet host takVersion)] ↔
          RestoreSets archive (envGet host takVersion))) ∧
    (∀ file version file', Spliced '/' version →
      setupVersion sed file version = .reported file' →
        (Agrees file file' [(takVersion, version)] ↔ SedSets file takVersion version)) := by
  constructor
  · intro file address mode file' hspliced hrun
    exact reconfig_agrees_iff hsed hspliced hrun
  constructor
  · intro archive host file' hspliced hrun
    exact restoreEnv_agrees_iff hsed hspliced hrun
  · intro file version file' hspliced hrun
    exact setupVersion_agrees_iff hsed hspliced hrun

/-- A `sed` that ends the last line and refuses values that its scripts cannot hold. -/
def endingSed : Sed := fun d key value file =>
  if Spliced d value then some (printed ((records file).map (substitute key value))) else none

theorem newline_not_mem_substitute (hvalue : '\n' ∉ value) (hline : '\n' ∉ line) :
    '\n' ∉ substitute key value line := by
  rw [substitute]
  split_ifs
  · apply newline_not_mem_row
    intro hmem
    obtain ⟨c, hc, hbreak⟩ := List.mem_flatMap.mp hmem
    split_ifs at hbreak
    · exact hline hbreak
    · rw [← List.mem_singleton.mp hbreak] at hc
      exact hvalue hc
  · exact hline

theorem endingSed_documented : endingSed.Documented := by
  intro d key value file file' hspliced hrun
  rw [endingSed, if_pos hspliced] at hrun
  rw [← Option.some.inj hrun]
  apply records_printed
  intro row hrow
  obtain ⟨line, hline, rfl⟩ := List.mem_map.mp hrow
  exact newline_not_mem_substitute hspliced.2.2
    (not_mem_of_mem_lines (mem_lines_of_mem_records hline))

def addressFile : List Char :=
  serverAddress.chars ++ ['=', 'a', '\n'] ++ deployMode.chars ++ '=' :: "direct".toList

def addressFile' : List Char :=
  serverAddress.chars ++ ['=', 'b', '\n'] ++ deployMode.chars ++ '=' :: "subdomain".toList ++ ['\n']

def versionFile : List Char := takVersion.chars ++ ['=', '6', '.', '0', '\n']

def versionFile' : List Char := takVersion.chars ++ ['=', '6', '.', '1', '\n']

/-- The scripts on files that have the keys at the beginning of a line, or end with one. -/
theorem rewriters_agree_plain :
    Agrees addressFile addressFile'
      [(serverAddress, ['b']), (deployMode, "subdomain".toList)] ∧
    Agrees ['A', '=', '\n'] (['A', '=', '\n'] ++ versionFile)
      [(takVersion, envGet versionFile takVersion)] ∧
    Agrees versionFile versionFile' [(takVersion, ['6', '.', '1'])] := by
  obtain ⟨hreconfig, hrestore, hsetup⟩ := rewriters_agree_iff endingSed endingSed_documented
  constructor
  · apply (hreconfig _ _ _ _ (by decide) _).mpr (by decide +kernel)
    decide +kernel
  constructor
  · apply (hrestore _ _ _ (fun _ => by decide +kernel) _).mpr (by decide +kernel)
    decide +kernel
  · apply (hsetup _ _ _ (by decide) _).mpr (by decide +kernel)
    decide +kernel

def exportedAddress : List Char :=
  exportWord ++ ' ' :: serverAddress.chars ++ ['=', 'a', '\n'] ++
    deployMode.chars ++ '=' :: "direct".toList

/-- An exported address, which the reader finds and `sed` does not. -/
theorem reconfig_exported :
    endingSed.Documented ∧
    reconfig endingSed exportedAddress ['b'] "direct".toList =
      .reported (exportedAddress ++ ['\n']) ∧
    envGet (exportedAddress ++ ['\n']) serverAddress = ['a'] ∧
    ¬ Agrees exportedAddress (exportedAddress ++ ['\n'])
      [(serverAddress, ['b']), (deployMode, "direct".toList)] := by
  have hget : envGet (exportedAddress ++ ['\n']) serverAddress = ['a'] := by decide +kernel
  use endingSed_documented
  constructor
  · decide +kernel
  use hget
  intro hagrees
  have hset := hagrees.1 (serverAddress, ['b']) (by simp)
  rw [hget] at hset
  exact absurd hset (by decide)

end Sed

end FastTAK.Env
