import FastTAK.Env.Rows

/-!
# Provisioning secrets

`ensure-secrets.sh`: the required keys of `.env` that read as empty get a generated value, in
the row that has the key or in a new one.  Any command that writes may fail; the reads of a
readable file do not.
-/

namespace FastTAK.Env

/-! ## The script -/

def takDbPassword : Key := ⟨"TAK_DB_PASSWORD".toList, by decide, List.all_eq_true.mp (by decide)⟩

def appDbPassword : Key := ⟨"APP_DB_PASSWORD".toList, by decide, List.all_eq_true.mp (by decide)⟩

def ldapBindPassword : Key :=
  ⟨"LDAP_BIND_PASSWORD".toList, by decide, List.all_eq_true.mp (by decide)⟩

def tokensApiSecret : Key :=
  ⟨"TOKENS_API_SECRET".toList, by decide, List.all_eq_true.mp (by decide)⟩

/-- `SECRET_KEYS` with `SECRET_BYTES`. -/
def secretKeys : List (Key × Nat) :=
  [(takDbPassword, 16), (appDbPassword, 16), (ldapBindPassword, 16), (tokensApiSecret, 32)]

/-- What the commands of one run do: whether they succeed for a key, and after how many
characters a `printf` that fails has stopped. -/
structure Tools where
  openssl : Key → Nat → Option (List Char)
  mktemp : Key → Bool
  cp : Key → Bool
  awk : Key → Bool
  mv : Key → Bool
  printfNewline : Key → Option Nat
  printfLine : Key → Option Nat

/-- The file, and whether the command succeeded. -/
structure Outcome where
  file : List Char
  ok : Bool
deriving DecidableEq

/-- The awk program of `env_set`: the last line with the key keeps what it has up to the `=`. -/
def rewriteLast (key : Key) (value : List Char) : List (List Char) → List (List Char)
  | [] => []
  | line :: rest =>
      if assigns key line ∧ ¬ rest.any (assigns key) then
        (line.takeWhile (· ≠ '=') ++ '=' :: value) :: rest
      else line :: rewriteLast key value rest

/-- `env_set`.  The file changes when `mv` puts the copy in its place, not before. -/
def envSet (tools : Tools) (file : List Char) (key : Key) (value : List Char) : Outcome :=
  if '\n' ∈ value then ⟨file, false⟩
  else if tools.mktemp key && tools.cp key && tools.awk key && tools.mv key then
    ⟨printed (rewriteLast key value (records file)), true⟩
  else ⟨file, false⟩

/-- `printf … >> file`. -/
def printTo (stop : Option Nat) (file text : List Char) : Outcome :=
  match stop with
  | none => ⟨file ++ text, true⟩
  | some n => ⟨file ++ text.take n, false⟩

/-- `env_append`. -/
def envAppend (tools : Tools) (file : List Char) (key : Key) (value : List Char) : Outcome :=
  if '\n' ∈ value then ⟨file, false⟩
  else
    let ended : Outcome :=
      if file ≠ [] ∧ file.getLast? ≠ some '\n' then printTo (tools.printfNewline key) file ['\n']
      else ⟨file, true⟩
    if ended.ok then
      printTo (tools.printfLine key) ended.file (key.chars ++ '=' :: value ++ ['\n'])
    else ended

/-- One pass of the loop. -/
def provision (tools : Tools) (file : List Char) (secret : Key × Nat) : Outcome :=
  if envGet file secret.1 ≠ [] then ⟨file, true⟩
  else
    match tools.openssl secret.1 secret.2 with
    | none => ⟨file, false⟩
    | some value =>
        if value = [] then ⟨file, false⟩
        else if envHas file secret.1 then envSet tools file secret.1 value
        else envAppend tools file secret.1 value

def provisionAll (tools : Tools) : List (Key × Nat) → List Char → Outcome
  | [], file => ⟨file, true⟩
  | secret :: secrets, file =>
      let outcome := provision tools file secret
      if outcome.ok then provisionAll tools secrets outcome.file else outcome

/-- `ensure-secrets.sh`. -/
def ensureSecrets (tools : Tools) (file : List Char) : Outcome :=
  provisionAll tools secretKeys file

def isHex (c : Char) : Bool := "0123456789abcdef".toList.contains c

/-- `openssl rand -hex` prints hex digits, and some. -/
def Tools.PrintsHex (tools : Tools) : Prop :=
  ∀ key bytes value, tools.openssl key bytes = some value → value ≠ [] ∧ value.all isHex

/-! ## What a run keeps -/

/-- The last row with a key. -/
def LastRow (key : Key) (rows : List (List Char)) (i : Nat) : Prop :=
  (∃ row, rows[i]? = some row ∧ assigns key row) ∧
    ∀ j row, i < j → rows[j]? = some row → ¬ assigns key row

/-- The last row with a required key that reads as empty. -/
def EmptyRow (file : List Char) (i : Nat) : Prop :=
  ∃ secret ∈ secretKeys, envGet file secret.1 = [] ∧ LastRow secret.1 (records file) i

/-- A key that has a value keeps it.  Each row keeps its key, and its text unless it is an empty
one.  The rows added assign required keys that the file did not have. -/
structure Kept (file file' : List Char) : Prop where
  values : ∀ key, envGet file key ≠ [] → envGet file' key = envGet file key
  rows : ∀ i row, (records file)[i]? = some row → ∃ row', (records file')[i]? = some row' ∧
    (∀ key, assigns key row' ↔ assigns key row) ∧ (¬ EmptyRow file i → row' = row)
  added : ∀ i row', (records file).length ≤ i → (records file')[i]? = some row' →
    ∀ key, assigns key row' →
      (∃ bytes, (key, bytes) ∈ secretKeys) ∧ ∀ row ∈ records file, ¬ assigns key row

theorem Kept.refl (file : List Char) : Kept file file where
  values _ _ := rfl
  rows _ row hrow := ⟨row, hrow, fun _ => Iff.rfl, fun _ => rfl⟩
  added i row' hi hrow' := by
    rw [List.getElem?_eq_none hi] at hrow'
    cases hrow'

section Trans

variable {file file' file'' : List Char}

/-- An empty row that a step leaves was one before it. -/
theorem Kept.emptyRow (h : Kept file file') {i : Nat} (hi : i < (records file).length)
    (hempty : EmptyRow file' i) : EmptyRow file i := by
  obtain ⟨secret, hsecret, hvalue, hassigned, hlast⟩ := hempty
  use secret, hsecret
  constructor
  · by_contra hsome
    rw [h.values _ hsome] at hvalue
    exact hsome hvalue
  constructor
  · obtain ⟨row', hrow', hkey⟩ := hassigned
    have hrow := List.getElem?_eq_getElem hi
    obtain ⟨other, hother, hkeys, -⟩ := h.rows i _ hrow
    obtain rfl : other = row' := Option.some.inj (hother.symm.trans hrow')
    exact ⟨_, hrow, (hkeys _).mp hkey⟩
  · intro j row hj hrow hkey
    obtain ⟨row', hrow', hkeys, -⟩ := h.rows j row hrow
    exact hlast j row' hj hrow' ((hkeys _).mpr hkey)

theorem Kept.trans (h : Kept file file') (h' : Kept file' file'') : Kept file file'' where
  values key hsome := by
    have hsome' : envGet file' key ≠ [] := by
      rw [h.values key hsome]
      exact hsome
    rw [h'.values key hsome', h.values key hsome]
  rows i row hrow := by
    obtain ⟨row', hrow', hkeys, hsame⟩ := h.rows i row hrow
    obtain ⟨row'', hrow'', hkeys', hsame'⟩ := h'.rows i row' hrow'
    use row'', hrow'', fun key => (hkeys' key).trans (hkeys key)
    intro hempty
    have hi : i < (records file).length := (List.getElem?_eq_some_iff.mp hrow).1
    calc row'' = row' := hsame' fun hempty' => hempty (h.emptyRow hi hempty')
      _ = row := hsame hempty
  added i row'' hi hrow'' key hkey := by
    by_cases hlate : (records file').length ≤ i
    · obtain ⟨hrequired, hnone⟩ := h'.added i row'' hlate hrow'' key hkey
      use hrequired
      intro row hrow hassigns
      obtain ⟨j, hj⟩ := List.mem_iff_getElem?.mp hrow
      obtain ⟨row', hrow', hkeys, -⟩ := h.rows j row hj
      exact hnone row' (List.mem_of_getElem? hrow') ((hkeys key).mpr hassigns)
    · have hrow' := List.getElem?_eq_getElem (not_le.mp hlate)
      obtain ⟨other, hother, hkeys, -⟩ := h'.rows i _ hrow'
      obtain rfl : other = row'' := Option.some.inj (hother.symm.trans hrow'')
      exact h.added i _ hi hrow' key ((hkeys key).mp hkey)

end Trans

/-! ## One key -/

section Step

variable {tools : Tools} {file : List Char} {key other : Key} {secret : Key × Nat}
  {value text row : List Char} {rows before after : List (List Char)}

theorem rewriteLast_spec (value : List Char) (h : ∃ row ∈ rows, assigns key row) :
    ∃ before line after, rows = before ++ line :: after ∧ assigns key line ∧
      (∀ row ∈ after, ¬ assigns key row) ∧
      rewriteLast key value rows =
        before ++ (line.takeWhile (· ≠ '=') ++ '=' :: value) :: after := by
  induction rows with
  | nil =>
      obtain ⟨row, hrow, -⟩ := h
      cases hrow
  | cons line rest ih =>
      by_cases hrest : ∃ row ∈ rest, assigns key row
      · obtain ⟨before, last, after, rfl, hlast, hafter, hrewrite⟩ := ih hrest
        use line :: before, last, after, rfl, hlast, hafter
        rw [rewriteLast, if_neg, hrewrite, List.cons_append]
        rintro ⟨-, hnone⟩
        exact hnone (List.any_eq_true.mpr hrest)
      · have hline : assigns key line := by
          obtain ⟨row, hrow, hkey⟩ := h
          rcases List.mem_cons.mp hrow with rfl | hrow
          · exact hkey
          · exact absurd ⟨row, hrow, hkey⟩ hrest
        have hnone : ∀ row ∈ rest, ¬ assigns key row := fun row hrow hkey =>
          hrest ⟨row, hrow, hkey⟩
        use [], line, rest, rfl, hline, hnone
        rw [rewriteLast, if_pos]
        · rfl
        · exact ⟨hline, fun hany => hrest (List.any_eq_true.mp hany)⟩

/-- A line keeps its key when it gets another value. -/
theorem assigns_rewritten (value : List Char) (h : assigns key row) :
    ∃ lead, Lead lead ∧ row.takeWhile (· ≠ '=') ++ '=' :: value =
      lead ++ (key.chars ++ '=' :: value) := by
  obtain ⟨lead, val, hlead, rfl⟩ := assigns_iff_lead.mp h
  use lead, hlead
  have hkeep : ∀ c ∈ lead, decide (c ≠ '=') = true := by
    intro c hc
    apply decide_eq_true
    rintro rfl
    exact hlead.not_mem_equals hc
  rw [List.takeWhile_append_of_pos hkeep, takeWhile_key]
  simp

theorem assigns_lead_iff {lead : List Char} (h : Lead lead) :
    assigns other (lead ++ (key.chars ++ '=' :: value)) ↔ other = key := by
  constructor
  · exact fun hother => assigns_unique hother (assigns_lead h)
  · rintro rfl
    exact assigns_lead h

theorem isHex_plain {c : Char} (h : isHex c) :
    c ≠ '"' ∧ c ≠ '\'' ∧ c ≠ '\n' ∧ ¬ isSpace c := by
  have hall : "0123456789abcdef".toList.all fun c =>
      decide (c ≠ '"' ∧ c ≠ '\'' ∧ c ≠ '\n' ∧ ¬ isSpace c) := by decide
  exact of_decide_eq_true (List.all_eq_true.mp hall c (List.contains_iff_mem.mp h))

theorem newline_not_mem_hex (hhex : value.all isHex) : '\n' ∉ value := fun hmem =>
  (isHex_plain (List.all_eq_true.mp hhex _ hmem)).2.2.1 rfl

theorem shellValue_hex (hne : value ≠ []) (hhex : value.all isHex) : shellValue value ≠ [] := by
  obtain ⟨c, rest, rfl⟩ := List.exists_cons_of_ne_nil hne
  obtain ⟨hdouble, hsingle, -, hspace⟩ :=
    isHex_plain (List.all_eq_true.mp hhex c List.mem_cons_self)
  have hshell : shellValue (c :: rest) = (c :: rest).rdropWhile isSpace :=
    shellValue_unquoted (fun h => hdouble (Option.some.inj h)) fun h => hsingle (Option.some.inj h)
  rw [hshell]
  intro hnil
  exact hspace (List.rdropWhile_eq_nil_iff.mp hnil c List.mem_cons_self)

/-- Another value in the last row with a required key that reads as empty. -/
theorem kept_set {file' line : List Char} {lead : List Char} (hsecret : secret ∈ secretKeys)
    (hempty : envGet file secret.1 = []) (hrows : records file = before ++ line :: after)
    (hline : assigns secret.1 line) (hafter : ∀ row ∈ after, ¬ assigns secret.1 row)
    (hlead : Lead lead)
    (hrows' : records file' = before ++ (lead ++ (secret.1.chars ++ '=' :: value)) :: after) :
    Kept file file' := by
  have hkeys : ∀ key, assigns key (lead ++ (secret.1.chars ++ '=' :: value)) ↔
      assigns key line := by
    intro key
    rw [assigns_lead_iff hlead]
    constructor
    · rintro rfl
      exact hline
    · exact fun hkey => assigns_unique hkey hline
  have hlast : LastRow secret.1 (records file) before.length := by
    constructor
    · exact ⟨line, by rw [hrows]; simp, hline⟩
    · intro j row hj hrow
      rw [hrows, List.getElem?_append_right hj.le, List.getElem?_cons] at hrow
      split_ifs at hrow with hzero
      · omega
      · exact hafter row (List.mem_of_getElem? hrow)
  have hlength : (records file').length = (records file).length := by
    rw [hrows, hrows']
    simp
  constructor
  · intro key hsome
    have hother : ¬ assigns key line := by
      intro hkey
      rw [assigns_unique hkey hline] at hsome
      exact hsome hempty
    rw [envGet_eq_rowGet, envGet_eq_rowGet, hrows, hrows']
    exact (rowGet_other hother fun hkey => hother ((hkeys key).mp hkey)).symm
  · intro i row hrow
    by_cases hi : i = before.length
    · subst hi
      obtain rfl : line = row := by
        rw [hrows] at hrow
        simpa using hrow
      use lead ++ (secret.1.chars ++ '=' :: value)
      constructor
      · rw [hrows']
        simp
      · exact ⟨hkeys, fun hnot => absurd ⟨secret, hsecret, hempty, hlast⟩ hnot⟩
    · use row
      constructor
      · rw [hrows] at hrow
        rw [hrows', ← hrow]
        rcases lt_or_gt_of_ne hi with hlt | hgt
        · rw [List.getElem?_append_left hlt, List.getElem?_append_left hlt]
        · rw [List.getElem?_append_right hgt.le, List.getElem?_append_right hgt.le,
            List.getElem?_cons, List.getElem?_cons, if_neg (by omega), if_neg (by omega)]
      · exact ⟨fun _ => Iff.rfl, fun _ => rfl⟩
  · intro i row' hi hrow'
    rw [← hlength] at hi
    rw [List.getElem?_eq_none hi] at hrow'
    cases hrow'

theorem kept_of_records_eq {file' : List Char} (h : records file' = records file) :
    Kept file file' := by
  constructor
  · intro key _
    rw [envGet_eq_rowGet, envGet_eq_rowGet, h]
  · intro i row hrow
    exact ⟨row, h ▸ hrow, fun _ => Iff.rfl, fun _ => rfl⟩
  · intro i row' hi hrow'
    rw [h, List.getElem?_eq_none hi] at hrow'
    cases hrow'

/-- A new row for a required key that the file does not have. -/
theorem kept_append {file' : List Char} (hsecret : secret ∈ secretKeys)
    (hnone : ∀ row ∈ records file, ¬ assigns secret.1 row)
    (htext : ∀ key, assigns key text → key = secret.1)
    (hrows' : records file' = records file ++ [text]) : Kept file file' := by
  constructor
  · intro key hsome
    rw [envGet_eq_rowGet, envGet_eq_rowGet, hrows']
    apply rowGet_append
    intro hkey
    rw [htext key hkey, envGet_eq_rowGet, rowGet_of_none hnone] at hsome
    exact hsome rfl
  · intro i row hrow
    use row
    constructor
    · rw [hrows', List.getElem?_append_left (List.getElem?_eq_some_iff.mp hrow).1, hrow]
    · exact ⟨fun _ => Iff.rfl, fun _ => rfl⟩
  · intro i row' hi hrow' key hkey
    obtain rfl : text = row' := by
      rw [hrows', List.getElem?_append_right hi] at hrow'
      exact List.mem_singleton.mp (List.mem_of_getElem? hrow') |>.symm
    rw [htext key hkey]
    exact ⟨⟨secret.2, hsecret⟩, hnone⟩

theorem assigns_row (key : Key) (value : List Char) : assigns key (key.chars ++ '=' :: value) :=
  assigns_iff_lead.mpr ⟨[], value, Or.inl rfl, rfl⟩

/-- The beginning of a new row assigns its key or nothing. -/
theorem assigns_beginning (hlead : text <+: key.chars ++ '=' :: value) (h : assigns other text) :
    other = key := by
  obtain ⟨rest, hrest⟩ := hlead
  obtain ⟨lead, val, hblank, rfl⟩ := assigns_iff_lead.mp h
  have hother : assigns other (key.chars ++ '=' :: value) := by
    rw [← hrest, List.append_assoc, List.append_assoc, List.cons_append]
    exact assigns_lead hblank
  exact assigns_unique hother (assigns_row key value)

/-- However much of a row a `printf` writes to a file that ends with a line: nothing, the
beginning of the row, or all of it. -/
theorem records_printTo (stop : Option Nat) (hended : lastLine file = []) (hrow : '\n' ∉ row) :
    records (printTo stop file (row ++ ['\n'])).file = records file ∨
      ∃ text, text <+: row ∧
        records (printTo stop file (row ++ ['\n'])).file = records file ++ [text] := by
  cases stop with
  | none => exact Or.inr ⟨row, List.prefix_rfl, records_append_row hended hrow⟩
  | some n =>
      by_cases hall : n ≤ row.length
      · have htake : (row ++ ['\n']).take n = row.take n := List.take_append_of_le_length hall
        have hnone : '\n' ∉ row.take n := fun hmem => hrow (List.mem_of_mem_take hmem)
        by_cases hnil : row.take n = []
        · left
          rw [printTo, htake, hnil, List.append_nil]
        · right
          use row.take n, List.take_prefix n row
          rw [printTo, htake]
          exact records_append hended hnone hnil
      · right
        use row, List.prefix_rfl
        rw [printTo, List.take_of_length_le (by simp; omega)]
        exact records_append_row hended hrow

/-- The line break in front of a new row. -/
theorem records_ended (stop : Option Nat) (hopen : lastLine file ≠ []) :
    records (printTo stop file ['\n']).file = records file := by
  cases stop with
  | none => exact records_end hopen
  | some n =>
      cases n with
      | zero => rw [printTo, List.take_zero, List.append_nil]
      | succ n =>
          rw [printTo, List.take_succ_cons, List.take_nil]
          exact records_end hopen

theorem kept_envAppend (hsecret : secret ∈ secretKeys) (hvalue : '\n' ∉ value)
    (hnone : ∀ row ∈ records file, ¬ assigns secret.1 row) :
    Kept file (envAppend tools file secret.1 value).file := by
  have hrow : ∀ {start : List Char} {stop : Option Nat}, lastLine start = [] →
      records start = records file →
      Kept file (printTo stop start (secret.1.chars ++ '=' :: value ++ ['\n'])).file := by
    intro start stop hended hsame
    rcases records_printTo stop hended (newline_not_mem_row secret.1 hvalue)
      with heq | ⟨text, hlead, heq⟩
    · exact kept_of_records_eq (heq.trans hsame)
    · rw [hsame] at heq
      exact kept_append hsecret hnone (fun key hkey => assigns_beginning hlead hkey) heq
  rw [envAppend, if_neg hvalue]
  by_cases hended : lastLine file = []
  · have hno : ¬ (file ≠ [] ∧ file.getLast? ≠ some '\n') := fun hopen =>
      (lastLine_eq_nil_iff.mp hended).elim hopen.1 hopen.2
    rw [if_neg hno]
    exact hrow hended rfl
  · have hopen : file ≠ [] ∧ file.getLast? ≠ some '\n' := not_or.mp fun h =>
      hended (lastLine_eq_nil_iff.mpr h)
    rw [if_pos hopen]
    cases hstop : tools.printfNewline secret.1 with
    | none =>
        have hnew : lastLine (file ++ ['\n']) = [] :=
          lastLine_eq_nil_iff.mpr (Or.inr List.getLast?_concat)
        exact hrow hnew (records_end hended)
    | some n =>
        have hsame := records_ended (some n) hended
        exact kept_of_records_eq hsame

theorem records_rewriteLast (hvalue : '\n' ∉ value) (hhas : envHas file key) :
    records (printed (rewriteLast key value (records file))) =
      rewriteLast key value (records file) := by
  apply records_printed
  obtain ⟨before, line, after, hrows, hline, -, hrewrite⟩ :=
    rewriteLast_spec value (envHas_iff.mp hhas)
  obtain ⟨lead, hlead, htext⟩ := assigns_rewritten value hline
  have hold : ∀ row ∈ before ++ line :: after, '\n' ∉ row := fun row hrow =>
    not_mem_of_mem_lines (mem_lines_of_mem_records (hrows ▸ hrow))
  intro row hrow
  rw [hrewrite, htext] at hrow
  rcases List.mem_append.mp hrow with hmem | hmem
  · exact hold row (List.mem_append_left _ hmem)
  · rcases List.mem_cons.mp hmem with rfl | hmem
    · intro hbreak
      rcases List.mem_append.mp hbreak with hbreak | hbreak
      · exact hlead.not_mem_newline hbreak
      · exact newline_not_mem_row key hvalue hbreak
    · exact hold row (by simp [hmem])

theorem kept_envSet (hsecret : secret ∈ secretKeys) (hvalue : '\n' ∉ value)
    (hempty : envGet file secret.1 = []) (hhas : envHas file secret.1) :
    Kept file (envSet tools file secret.1 value).file := by
  rw [envSet, if_neg hvalue]
  split_ifs
  · obtain ⟨before, line, after, hrows, hline, hafter, hrewrite⟩ :=
      rewriteLast_spec value (envHas_iff.mp hhas)
    obtain ⟨lead, hlead, htext⟩ := assigns_rewritten value hline
    apply kept_set hsecret hempty hrows hline hafter hlead
    rw [records_rewriteLast hvalue hhas, hrewrite, htext]
  · exact Kept.refl file

/-- Where `env_set` succeeds, the last row with the key has another value. -/
theorem records_envSet (hvalue : '\n' ∉ value) (hhas : envHas file key)
    (hok : (envSet tools file key value).ok) :
    ∃ before line after lead, records file = before ++ line :: after ∧ assigns key line ∧
      (∀ row ∈ after, ¬ assigns key row) ∧ Lead lead ∧
      records (envSet tools file key value).file =
        before ++ (lead ++ (key.chars ++ '=' :: value)) :: after := by
  rw [envSet, if_neg hvalue] at hok ⊢
  split_ifs at hok ⊢
  obtain ⟨before, line, after, hrows, hline, hafter, hrewrite⟩ :=
    rewriteLast_spec value (envHas_iff.mp hhas)
  obtain ⟨lead, hlead, htext⟩ := assigns_rewritten value hline
  use before, line, after, lead, hrows, hline, hafter, hlead
  rw [records_rewriteLast hvalue hhas, hrewrite, htext]

/-- `env_set` gives the key its value. -/
theorem envGet_envSet (hvalue : '\n' ∉ value) (hhas : envHas file key)
    (hok : (envSet tools file key value).ok) :
    envGet (envSet tools file key value).file key = shellValue value := by
  obtain ⟨before, line, after, lead, -, -, hafter, hlead, hrows⟩ :=
    records_envSet hvalue hhas hok
  rw [envGet_eq_rowGet, hrows, rowGet_last (assigns_lead hlead) hafter,
    afterEquals_lead hlead.not_mem_equals]

/-- Where `env_append` succeeds, the key has a new row. -/
theorem records_envAppend (hvalue : '\n' ∉ value) (hok : (envAppend tools file key value).ok) :
    records (envAppend tools file key value).file =
      records file ++ [key.chars ++ '=' :: value] := by
  have hrow : ∀ {start : List Char} {stop : Option Nat}, lastLine start = [] →
      (printTo stop start (key.chars ++ '=' :: value ++ ['\n'])).ok →
      records (printTo stop start (key.chars ++ '=' :: value ++ ['\n'])).file =
        records start ++ [key.chars ++ '=' :: value] := by
    intro start stop hended hdone
    cases stop with
    | none => exact records_append_row hended (newline_not_mem_row key hvalue)
    | some n => cases hdone
  rw [envAppend, if_neg hvalue] at hok ⊢
  by_cases hended : lastLine file = []
  · have hno : ¬ (file ≠ [] ∧ file.getLast? ≠ some '\n') := fun hopen =>
      (lastLine_eq_nil_iff.mp hended).elim hopen.1 hopen.2
    rw [if_neg hno] at hok ⊢
    exact hrow hended hok
  · have hopen : file ≠ [] ∧ file.getLast? ≠ some '\n' := not_or.mp fun h =>
      hended (lastLine_eq_nil_iff.mpr h)
    rw [if_pos hopen] at hok ⊢
    cases hstop : tools.printfNewline key with
    | none =>
        rw [hstop] at hok
        have hnew : lastLine (file ++ ['\n']) = [] :=
          lastLine_eq_nil_iff.mpr (Or.inr List.getLast?_concat)
        rw [← records_end hended]
        exact hrow hnew hok
    | some n =>
        rw [hstop] at hok
        cases hok

/-- `env_append` gives the key its value. -/
theorem envGet_envAppend (hvalue : '\n' ∉ value) (hok : (envAppend tools file key value).ok) :
    envGet (envAppend tools file key value).file key = shellValue value := by
  rw [envGet_eq_rowGet, records_envAppend hvalue hok,
    rowGet_last (assigns_row key value) (fun row hrow => absurd hrow List.not_mem_nil),
    afterEquals_key]

/-- A pass changes nothing, or writes a value that `openssl` printed. -/
theorem provision_cases (hhex : tools.PrintsHex) (file : List Char) (secret : Key × Nat) :
    (envGet file secret.1 ≠ [] ∧ provision tools file secret = ⟨file, true⟩) ∨
    provision tools file secret = ⟨file, false⟩ ∨
    ∃ value, value ≠ [] ∧ value.all isHex ∧ envGet file secret.1 = [] ∧
      (envHas file secret.1 = true ∧
          provision tools file secret = envSet tools file secret.1 value ∨
        envHas file secret.1 = false ∧
          provision tools file secret = envAppend tools file secret.1 value) := by
  by_cases hempty : envGet file secret.1 = []
  · cases hvalue : tools.openssl secret.1 secret.2 with
    | none =>
        right; left
        rw [provision, if_neg (not_not.mpr hempty), hvalue]
    | some value =>
        obtain ⟨hne, hdigits⟩ := hhex _ _ value hvalue
        right; right
        use value, hne, hdigits, hempty
        rw [provision, if_neg (not_not.mpr hempty), hvalue]
        cases hhas : envHas file secret.1 with
        | true => exact Or.inl ⟨rfl, by simp [hne]⟩
        | false => exact Or.inr ⟨rfl, by simp [hne]⟩
  · exact Or.inl ⟨hempty, if_pos hempty⟩

theorem kept_provision (hhex : tools.PrintsHex) (hsecret : secret ∈ secretKeys) :
    Kept file (provision tools file secret).file := by
  rcases provision_cases hhex file secret with ⟨-, heq⟩ | heq | ⟨value, -, hdigits, hempty, hwrite⟩
  · rw [heq]
    exact Kept.refl file
  · rw [heq]
    exact Kept.refl file
  · have hvalue := newline_not_mem_hex hdigits
    rcases hwrite with ⟨hhas, heq⟩ | ⟨hhas, heq⟩
    · rw [heq]
      exact kept_envSet hsecret hvalue hempty hhas
    · rw [heq]
      apply kept_envAppend hsecret hvalue
      intro row hrow hkey
      rw [envHas_iff.mpr ⟨row, hrow, hkey⟩] at hhas
      cases hhas

/-- A pass that succeeds leaves its key with a value. -/
theorem provision_filled (hhex : tools.PrintsHex) (hok : (provision tools file secret).ok) :
    envGet (provision tools file secret).file secret.1 ≠ [] := by
  rcases provision_cases hhex file secret with
    ⟨hsome, heq⟩ | heq | ⟨value, hne, hdigits, -, hwrite⟩
  · rw [heq]
    exact hsome
  · rw [heq] at hok
    cases hok
  · have hvalue := newline_not_mem_hex hdigits
    rcases hwrite with ⟨hhas, heq⟩ | ⟨-, heq⟩
    · rw [heq] at hok ⊢
      rw [envGet_envSet hvalue hhas hok]
      exact shellValue_hex hne hdigits
    · rw [heq] at hok ⊢
      rw [envGet_envAppend hvalue hok]
      exact shellValue_hex hne hdigits

end Step

/-! ## A run -/

section Run

variable {tools : Tools} {secrets : List (Key × Nat)} {file : List Char}

theorem kept_provisionAll (hhex : tools.PrintsHex) (hsecrets : secrets ⊆ secretKeys) :
    Kept file (provisionAll tools secrets file).file := by
  induction secrets generalizing file with
  | nil => exact Kept.refl file
  | cons secret secrets ih =>
      obtain ⟨hsecret, hrest⟩ := List.cons_subset.mp hsecrets
      have hstep : Kept file (provision tools file secret).file := kept_provision hhex hsecret
      rw [provisionAll]
      cases hok : (provision tools file secret).ok with
      | true => exact hstep.trans (ih hrest)
      | false => exact hstep

theorem provisionAll_filled (hhex : tools.PrintsHex) (hsecrets : secrets ⊆ secretKeys)
    (hok : (provisionAll tools secrets file).ok) :
    ∀ secret ∈ secrets, envGet (provisionAll tools secrets file).file secret.1 ≠ [] := by
  induction secrets generalizing file with
  | nil =>
      intro secret hsecret
      cases hsecret
  | cons first secrets ih =>
      obtain ⟨-, hrest⟩ := List.cons_subset.mp hsecrets
      cases hfirst : (provision tools file first).ok with
      | false =>
          have hrun : provisionAll tools (first :: secrets) file = provision tools file first :=
            if_neg (ne_true_of_eq_false hfirst)
          rw [hrun, hfirst] at hok
          cases hok
      | true =>
          have hrun : provisionAll tools (first :: secrets) file =
              provisionAll tools secrets (provision tools file first).file := if_pos hfirst
          rw [hrun] at hok ⊢
          intro secret hsecret
          rcases List.mem_cons.mp hsecret with rfl | hsecret
          · have hsome := provision_filled hhex hfirst
            rw [(kept_provisionAll hhex hrest).values _ hsome]
            exact hsome
          · exact ih hrest hok secret hsecret

/-- A run over a file in which every key has a value changes nothing. -/
theorem provisionAll_of_filled (h : ∀ secret ∈ secrets, envGet file secret.1 ≠ []) :
    provisionAll tools secrets file = ⟨file, true⟩ := by
  induction secrets with
  | nil => rfl
  | cons first secrets ih =>
      obtain ⟨hfirst, hrest⟩ := List.forall_mem_cons.mp h
      have hpass : provision tools file first = ⟨file, true⟩ := if_pos hfirst
      rw [provisionAll, hpass]
      exact ih hrest

/-- Every command succeeds. -/
def steadyTools : Tools where
  openssl _ _ := some ['0', 'f']
  mktemp _ := true
  cp _ := true
  awk _ := true
  mv _ := true
  printfNewline _ := none
  printfLine _ := none

/-- An exported key with empty quotes, and a key without a value on an open line. -/
def exportedFile : List Char :=
  exportWord ++ ' ' :: takDbPassword.chars ++ ['=', '"', '"', '\n'] ++ appDbPassword.chars ++ ['=']

example : (ensureSecrets steadyTools exportedFile).ok = true := by decide +kernel

end Run

end FastTAK.Env
