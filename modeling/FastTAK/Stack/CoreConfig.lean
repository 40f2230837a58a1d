import FastTAK.Stack.Sed

/-!
# Credentials in `CoreConfig.xml`

`init-config` writes the password of the database into the connection element and the password of
the directory service into the auth block, `tak-database` writes the former into its own copy.
-/

namespace FastTAK.CoreConfig

open FastTAK.Substitute FastTAK.Sed

/-! ## Patterns -/

def urlPattern : Pattern := ⟨"jdbc:postgresql://".toList, '/', "cot".toList, by decide⟩

def passwordPattern : Pattern := ⟨"password=\"".toList, '"', [], by decide⟩

def credentialPattern : Pattern :=
  ⟨"serviceAccountCredential=\"".toList, '"', [], by decide⟩

def connectionWord : List Char := "<connection ".toList

def authWord : List Char := "<auth".toList

def authEnd : List Char := "</auth>".toList

def accountWord : List Char := "adm_ldapservice".toList

def contains (word : List Char) (line : Line) : Bool := word <:+: line

/-! ## The environment -/

/-- The checks of `TAK_DB_PASSWORD`. -/
def acceptsDbPassword (password : List Char) : Bool :=
  password ≠ [] && password.all fun c => c ∉ ['"', '\'', '&', '<', '>', '|']

/-- The checks of `LDAP_BIND_PASSWORD`, which is set. -/
def acceptsBindPassword (password : List Char) : Bool :=
  password ≠ [] && password.all fun c => c ∉ ['"', '\'', '&', '<', '>']

structure Passwords where
  db : List Char
  ldap : List Char
  db_accepted : acceptsDbPassword db
  ldap_accepted : acceptsBindPassword ldap

/-! ## The auth block -/

/-- The line of the directory service, around its credential, and the lines about it. -/
structure LdapFrame where
  opening : Line
  lead : List Char
  tail : List Char
  closing : Line

/-- What the commands look for. -/
def words : List (List Char) := [urlPattern.head, connectionWord, credentialPattern.head]

/-- The account is named before the credential, and the credential and the elements that other
commands look for are nowhere else. -/
structure LdapFrame.Valid (frame : LdapFrame) : Prop where
  opening : ∀ word ∈ words, ¬ word <:+: frame.opening
  closing : ∀ word ∈ words, ¬ word <:+: frame.closing
  lead : ∀ word ∈ words, Clear word frame.lead
  tail : ∀ word ∈ words, ¬ word <:+: frame.tail
  cot : ¬ urlPattern.stop :: urlPattern.tail <:+: frame.tail
  account : accountWord <:+: frame.lead
  oneLine : '\n' ∉ frame.opening ++ frame.lead ++ frame.tail ++ frame.closing

def LdapFrame.line (frame : LdapFrame) (credential : List Char) : Line :=
  frame.lead ++ (credentialPattern.head ++ (credential ++ '"' :: frame.tail))

def LdapFrame.lines (frame : LdapFrame) (credential : List Char) : List Line :=
  [frame.opening, frame.line credential, frame.closing]

/-- The block that `init-config` writes for a directory service. -/
def directoryFrame (host baseDn : List Char) : LdapFrame where
  opening := "    <auth default=\"ldap\" x509groups=\"true\" x509addAnonymous=\"false\" x509useGroupCache=\"true\" x509useGroupCacheDefaultActive=\"true\" x509useGroupCacheRequiresExtKeyUsage=\"false\" x509checkRevocation=\"true\">".toList
  lead := "        <ldap url=\"ldap://".toList ++ host ++
    ":3389\" userstring=\"uid=\x7busername\x7d,ou=people,".toList ++ baseDn.map Char.toLower ++
    "\" updateinterval=\"30\" groupprefix=\"cn=tak_\" groupNameExtractorRegex=\"cn=tak_(.*?)(?:,|$)\" serviceAccountDN=\"uid=adm_ldapservice,ou=people,".toList ++
    baseDn.map Char.toLower ++ "\" ".toList
  tail := " groupBaseRDN=\"ou=groups,".toList ++ baseDn.map Char.toLower ++
    "\" userBaseRDN=\"ou=people,".toList ++ baseDn.map Char.toLower ++
    "\" dnAttributeName=\"DN\" nameAttr=\"CN\" adminGroup=\"ROLE_ADMIN\"/>".toList
  closing := "    </auth>".toList

/-- `LDAP_HOST` and `LDAP_BASE_DN`. -/
structure Directory where
  host : List Char
  baseDn : List Char
  unescaped : '\\' ∉ (directoryFrame host baseDn).lead ++ (directoryFrame host baseDn).tail
  valid : (directoryFrame host baseDn).Valid

def Directory.frame (directory : Directory) : LdapFrame :=
  directoryFrame directory.host directory.baseDn

/-- `AUTH_BLOCK`. -/
def Directory.authBlock (directory : Directory) (password : List Char) : List Char :=
  directory.frame.opening ++ ('\\' :: '\n' :: (directory.frame.lead ++
    (credentialPattern.head ++ (password ++ '"' :: (directory.frame.tail ++
      ('\\' :: '\n' :: directory.frame.closing))))))

/-! ## The scripts -/

/-- The first `sed` of section 2. -/
def patchUrl (line : Line) : Line :=
  urlPattern.substAll "jdbc:postgresql://tak-database:5432/cot".toList line

/-- `patch_coreconfig_password` of `tak-database`, and the second `sed` of section 2. -/
def patchPassword (db : List Char) (config : List Line) : Option (List Line) :=
  substitute '|' (contains connectionWord) passwordPattern
    (passwordPattern.head ++ (db ++ '"' :: ['|'])) config

/-- The last occurrence of a word: what is after it. -/
def afterLast (word : List Char) : List Char → Option (List Char)
  | [] => none
  | c :: rest =>
      (afterLast word rest).or
        (if word <+: c :: rest then some ((c :: rest).drop word.length) else none)

/-- `sed 's/.*="//;s/"//'`. -/
def stripQuotes (text : List Char) : List Char :=
  ((afterLast "=\"".toList text).getD text).erase '"'

/-- `CURRENT_PASS`. -/
def currentPass (config : List Line) : List Char :=
  let found := (config.flatMap credentialPattern.runs).map fun run =>
    stripQuotes (credentialPattern.head ++ (run ++ ['"']))
  (['\n'].intercalate found).rdropWhile (· = '\n')

/-- Section 8. -/
def patchLdap (directory : Directory) (ldap : List Char) (config : List Line) :
    Option (List Line) :=
  if config.any (contains accountWord) then
    let current := currentPass config
    if current ≠ [] ∧ current ≠ ldap then
      substitute '|' (fun _ => true) credentialPattern
        (credentialPattern.head ++ (ldap ++ '"' :: ['|'])) config
    else some config
  else
    (changeText (directory.authBlock ldap)).map fun text =>
      changeRange (contains authWord) (contains authEnd) (text.splitOn '\n') false config

/-- The credential steps of `init-config`. -/
def initConfig (directory : Directory) (passwords : Passwords) (config : List Line) :
    Option (List Line) :=
  (patchPassword passwords.db (config.map patchUrl)).bind (patchLdap directory passwords.ldap)

/-! ## What the attributes hold -/

def connectionPasswords (config : List Line) : List (List Char) :=
  config.flatMap fun line =>
    if contains connectionWord line then ((passwordPattern.first line).map (·.run)).toList else []

def credentials (config : List Line) : List (List Char) :=
  config.flatMap credentialPattern.runs

/-- The passwords arrive, and another run changes nothing. -/
structure Intact (directory : Directory) (passwords : Passwords) (config : List Line) : Prop where
  written : ∃ config', initConfig directory passwords config = some config' ∧
    connectionPasswords config' = [passwords.db] ∧ credentials config' = [passwords.ldap] ∧
    initConfig directory passwords config' = some config'
  database : ∃ config', patchPassword passwords.db config = some config' ∧
    connectionPasswords config' = [passwords.db]

/-! ## The shipped layout -/

/-- The line of the connection element, around its host and its password. -/
structure Connection where
  lead : List Char
  mid : List Char
  tail : List Char
  opens : connectionWord <:+: lead
  lead_clear : ∀ word ∈ [urlPattern.head, authWord, accountWord, credentialPattern.head,
    passwordPattern.head], Clear word lead
  mid_clear : ∀ word ∈ [urlPattern.head, authWord, accountWord, credentialPattern.head,
    passwordPattern.head], Clear word mid
  tail_plain : ∀ word ∈ [urlPattern.head, urlPattern.stop :: urlPattern.tail, authWord,
    accountWord], ¬ word <:+: tail
  unquoted : '"' ∉ tail
  oneLine : '\n' ∉ lead ++ mid ++ tail

def Connection.line (connection : Connection) (host password : List Char) : Line :=
  connection.lead ++ (urlPattern.head ++ (host ++ urlPattern.stop :: (urlPattern.tail ++
    (connection.mid ++ (passwordPattern.head ++ (password ++ '"' :: connection.tail))))))

/-- A line that is neither the connection element nor of the auth block. -/
def IsOther (line : Line) : Prop :=
  (∀ word ∈ words, ¬ word <:+: line) ∧ ¬ authWord <:+: line ∧ ¬ accountWord <:+: line ∧ '\n' ∉ line

instance (line : Line) : Decidable (IsOther line) := inferInstanceAs (Decidable (_ ∧ _))

/-- The auth block before a directory service was configured. -/
structure StockAuth where
  opening : Line
  inner : List Line
  closing : Line
  opens : authWord <:+: opening
  inner_open : ∀ line ∈ inner, ¬ authEnd <:+: line
  closes : authEnd <:+: closing
  silent : ∀ line ∈ opening :: (inner ++ [closing]),
    (∀ word ∈ words, ¬ word <:+: line) ∧ ¬ accountWord <:+: line ∧ '\n' ∉ line

def StockAuth.lines (stock : StockAuth) : List Line :=
  stock.opening :: (stock.inner ++ [stock.closing])

/-- The lines about the two elements, which may come in either order. -/
structure Frame where
  before : List Line
  between : List Line
  after : List Line
  authFirst : Bool
  others : ∀ line ∈ before ++ between ++ after, IsOther line

def Frame.config (frame : Frame) (connection : Line) (auth : List Line) : List Line :=
  if frame.authFirst then
    frame.before ++ (auth ++ (frame.between ++ connection :: frame.after))
  else frame.before ++ connection :: (frame.between ++ (auth ++ frame.after))

/-! ## Lines that a command passes by -/

def takDatabase : List Char := "tak-database:5432".toList

/-- A password or a credential as an attribute holds it. -/
def IsValue (value : List Char) : Prop := '"' ∉ value ∧ '<' ∉ value ∧ '\n' ∉ value

/-- A host that the line of the connection element may have. -/
def IsHost (host : List Char) : Prop :=
  '/' ∉ host ∧ '\n' ∉ host ∧ ¬ passwordPattern.head <:+: host

theorem isHost_takDatabase : IsHost takDatabase := by
  refine ⟨?_, ?_, ?_⟩ <;> decide

theorem patchUrl_silent {line : Line} (h : ¬ urlPattern.head <:+: line) : patchUrl line = line :=
  Pattern.substAll_none (Pattern.first_of_not_infix h)

theorem isValue_patchUrl {value : List Char} (h : IsValue value) : IsValue (patchUrl value) := by
  obtain ⟨hquote, hless, hbreak⟩ := h
  refine ⟨fun hc => ?_, fun hc => ?_, fun hc => ?_⟩
  · exact (Pattern.mem_substAll hc).elim hquote (by decide)
  · exact (Pattern.mem_substAll hc).elim hless (by decide)
  · exact (Pattern.mem_substAll hc).elim hbreak (by decide)

theorem splitOn_line {line : Line} (h : '\n' ∉ line) : line.splitOn '\n' = [line] :=
  List.splitOn_eq_singleton h

theorem not_contains {word : List Char} {line : Line} (h : ¬ word <:+: line) :
    contains word line = false := decide_eq_false h

section Connection

variable (connection : Connection) {host password out : List Char}

/-- The line up to its password. -/
def Connection.left (host : List Char) : List Char :=
  connection.lead ++ (urlPattern.head ++ (host ++ [urlPattern.stop] ++
    (urlPattern.tail ++ connection.mid)))

theorem Connection.line_eq (host password : List Char) :
    connection.line host password =
      connection.left host ++ (passwordPattern.head ++ (password ++ '"' :: connection.tail)) := by
  simp [Connection.line, Connection.left]

theorem Connection.left_clear (hhost : IsHost host) :
    Clear passwordPattern.head (connection.left host) := by
  have hlead := connection.lead_clear passwordPattern.head (by simp)
  have hmid := connection.mid_clear passwordPattern.head (by simp)
  have hurl : Clear passwordPattern.head urlPattern.head := by decide
  have htail : Clear passwordPattern.head urlPattern.tail := by decide
  have hstop : urlPattern.stop ∉ passwordPattern.head := by decide
  exact hlead.append (hurl.append ((Clear.of_not_infix hhost.2.2 hstop).append
    (htail.append hmid)))

/-- After section 2 the part before the password is known. -/
theorem Connection.clear_takDatabase {word : List Char}
    (hword : word ∈ [authWord, accountWord, credentialPattern.head]) :
    Clear word (connection.left takDatabase ++ passwordPattern.head) := by
  have hconst : ∀ word ∈ [authWord, accountWord, credentialPattern.head],
      Clear word (urlPattern.head ++ (takDatabase ++ [urlPattern.stop] ++ urlPattern.tail)) ∧
        Clear word passwordPattern.head := by decide +kernel
  have hmem : word ∈ [urlPattern.head, authWord, accountWord, credentialPattern.head,
      passwordPattern.head] := by
    simp only [List.mem_cons, List.not_mem_nil, or_false] at hword ⊢
    tauto
  have hall := (connection.lead_clear word hmem).append ((hconst word hword).1.append
    ((connection.mid_clear word hmem).append (hconst word hword).2))
  simpa [Connection.left, List.append_assoc] using hall

theorem Connection.newline_not_mem (hhost : '\n' ∉ host) (hpassword : '\n' ∉ password) :
    '\n' ∉ connection.line host password := by
  have hlines := connection.oneLine
  have hurl : '\n' ∉ urlPattern.head := by decide
  have hcot : '\n' ∉ urlPattern.stop :: urlPattern.tail := by decide
  have hhead : '\n' ∉ passwordPattern.head := by decide
  have hquote : '\n' ≠ '"' := by decide
  simp only [List.mem_append, List.mem_cons, not_or] at hlines hcot
  simp only [Connection.line, List.mem_append, List.mem_cons, not_or]
  tauto

theorem Connection.contains_connectionWord (host password : List Char) :
    contains connectionWord (connection.line host password) := by
  have hopens : connectionWord <:+: connection.line host password :=
    connection.opens.trans (List.prefix_append _ _).isInfix
  exact decide_eq_true hopens

theorem Connection.first_password (hhost : IsHost host) (hpassword : '"' ∉ password) :
    passwordPattern.first (connection.line host password) =
      some ⟨connection.left host, password, connection.tail⟩ := by
  rw [connection.line_eq]
  exact Pattern.first_eq (p := passwordPattern) (connection.left_clear hhost) hpassword _

theorem Connection.patchUrl_line (hhost : IsHost host) (password : List Char) :
    patchUrl (connection.line host password) =
      connection.line takDatabase (patchUrl password) := by
  have hlead := connection.lead_clear urlPattern.head (by simp)
  have hmid := connection.mid_clear urlPattern.head (by simp)
  have hhead : Clear urlPattern.head passwordPattern.head := by decide
  have htail := connection.tail_plain urlPattern.head (by simp)
  have hcot := connection.tail_plain (urlPattern.stop :: urlPattern.tail) (by simp)
  rw [patchUrl, Connection.line, Pattern.substAll_append _ hlead,
    Pattern.substAll_hit _ hhost.1, Pattern.substAll_append _ hmid,
    Pattern.substAll_append _ hhead,
    Pattern.substAll_append_cons (by decide) (by decide) htail hcot]
  rfl

/-- The account is named on the line if the password names it. -/
theorem Connection.account_iff (password : List Char) :
    accountWord <:+: connection.line takDatabase password ↔ accountWord <:+: password := by
  have htail := connection.tail_plain accountWord (by simp)
  rw [connection.line_eq, ← List.append_assoc,
    (connection.clear_takDatabase (by simp)).infix_iff,
    infix_append_cons_iff (by decide) (by decide), or_iff_left htail]

theorem Connection.not_auth (hpassword : '<' ∉ password) :
    ¬ authWord <:+: connection.line takDatabase password := by
  have htail := connection.tail_plain authWord (by simp)
  have hclear : Clear authWord password := Clear.of_head hpassword
  rw [connection.line_eq, ← List.append_assoc,
    (connection.clear_takDatabase (by simp)).infix_iff, hclear.infix_iff]
  rw [← List.nil_append ('"' :: connection.tail), infix_append_cons_iff (by decide) (by decide),
    List.infix_nil]
  exact fun h => h.elim (by decide) htail

/-- The line has one quote too few for a credential. -/
theorem Connection.first_credential (hpassword : '"' ∉ password) :
    credentialPattern.first (connection.line takDatabase password) = none := by
  have hcount : (password ++ '"' :: connection.tail).count '"' = 1 := by
    rw [List.count_append, List.count_cons_self, List.count_eq_zero.mpr hpassword,
      List.count_eq_zero.mpr connection.unquoted]
  have hfew : (password ++ '"' :: connection.tail).count credentialPattern.stop ≤
      credentialPattern.head.count credentialPattern.stop := by
    change (password ++ '"' :: connection.tail).count '"' ≤ _
    rw [hcount]
    decide
  rw [connection.line_eq, ← List.append_assoc,
    Pattern.first_append (connection.clear_takDatabase (by simp)), Pattern.first_of_count hfew]
  rfl

end Connection

section Ldap

variable {frame : LdapFrame} {value : List Char}

theorem LdapFrame.newline_not_mem (hvalid : frame.Valid) (hvalue : '\n' ∉ value) :
    ∀ line ∈ frame.lines value, '\n' ∉ line := by
  have hlines := hvalid.oneLine
  have hhead : '\n' ∉ credentialPattern.head := by decide
  have hquote : '\n' ≠ '"' := by decide
  simp only [List.mem_append, not_or] at hlines
  simp only [LdapFrame.lines, LdapFrame.line, List.mem_cons, List.not_mem_nil, or_false,
    forall_eq_or_imp, forall_eq, List.mem_append, not_or]
  tauto

theorem LdapFrame.not_connection (hvalid : frame.Valid) (hvalue : '<' ∉ value) :
    ∀ line ∈ frame.lines value, ¬ connectionWord <:+: line := by
  have hmem : connectionWord ∈ words := by simp [words]
  have hhead : Clear connectionWord credentialPattern.head := by decide
  have hclear : Clear connectionWord value := Clear.of_head hvalue
  intro line hline
  simp only [LdapFrame.lines, List.mem_cons, List.not_mem_nil, or_false] at hline
  rcases hline with rfl | rfl | rfl
  · exact hvalid.opening _ hmem
  · rw [LdapFrame.line, (hvalid.lead _ hmem).infix_iff, hhead.infix_iff, hclear.infix_iff,
      ← List.nil_append ('"' :: frame.tail), infix_append_cons_iff (by decide) (by decide),
      List.infix_nil]
    exact fun h => h.elim (by decide) (hvalid.tail _ hmem)
  · exact hvalid.closing _ hmem

theorem LdapFrame.patchUrl_lines (hvalid : frame.Valid) (value : List Char) :
    (frame.lines value).map patchUrl = frame.lines (patchUrl value) := by
  have hmem : urlPattern.head ∈ words := List.mem_cons_self
  have hhead : Clear urlPattern.head credentialPattern.head := by decide
  have hline : patchUrl (frame.line value) = frame.line (patchUrl value) := by
    rw [patchUrl, LdapFrame.line, Pattern.substAll_append _ (hvalid.lead _ hmem),
      Pattern.substAll_append _ hhead,
      Pattern.substAll_append_cons (by decide) (by decide) (hvalid.tail _ hmem) hvalid.cot]
    rfl
  rw [LdapFrame.lines, List.map_cons, List.map_cons, List.map_cons, hline,
    patchUrl_silent (hvalid.opening _ hmem), patchUrl_silent (hvalid.closing _ hmem)]
  rfl

theorem LdapFrame.first_credential (hvalid : frame.Valid) (hvalue : '"' ∉ value) :
    credentialPattern.first (frame.line value) = some ⟨frame.lead, value, frame.tail⟩ :=
  Pattern.first_eq (p := credentialPattern) (hvalid.lead _ (by simp [words])) hvalue _

theorem LdapFrame.runs_lines (hvalid : frame.Valid) (hvalue : '"' ∉ value) :
    (frame.lines value).flatMap credentialPattern.runs = [value] := by
  have hmem : credentialPattern.head ∈ words := by simp [words]
  have hline : credentialPattern.runs (frame.line value) = [value] :=
    Pattern.runs_eq (p := credentialPattern) (hvalid.lead _ hmem) hvalue (hvalid.tail _ hmem)
  rw [LdapFrame.lines, List.flatMap_cons, List.flatMap_cons, List.flatMap_cons, hline,
    Pattern.runs_none (Pattern.first_of_not_infix (hvalid.opening _ hmem)),
    Pattern.runs_none (Pattern.first_of_not_infix (hvalid.closing _ hmem))]
  rfl

theorem LdapFrame.contains_account (hvalid : frame.Valid) (value : List Char) :
    (frame.lines value).any (contains accountWord) := by
  have hline : accountWord <:+: frame.line value :=
    hvalid.account.trans (List.prefix_append _ _).isInfix
  rw [List.any_eq_true]
  exact ⟨frame.line value, by simp [LdapFrame.lines], decide_eq_true hline⟩

end Ldap

/-! ## The file -/

section Config

variable {frame : Frame} {line line' : Line} {auth auth' : List Line}

theorem Frame.config_flatMap {g : Line → List Line}
    (hother : ∀ other, IsOther other → g other = [other]) (hline : g line = [line']) :
    (frame.config line auth).flatMap g = frame.config line' (auth.flatMap g) := by
  have hlines : ∀ lines : List Line, (∀ other ∈ lines, IsOther other) → lines.flatMap g = lines := by
    intro lines hlines
    have hg : lines.flatMap g = lines.flatMap fun other => [other] :=
      List.flatMap_congr fun other h => hother other (hlines other h)
    rw [hg, List.flatMap_singleton']
  have hothers := frame.others
  simp only [List.mem_append] at hothers
  rw [Frame.config, Frame.config]
  split_ifs
  all_goals
    simp only [List.flatMap_append, List.flatMap_cons, hline, List.singleton_append]
    rw [hlines _ fun other h => hothers other (Or.inl (Or.inl h)),
      hlines _ fun other h => hothers other (Or.inl (Or.inr h)),
      hlines _ fun other h => hothers other (Or.inr h)]

theorem Frame.mem_config {other : Line} (h : other ∈ frame.config line auth) :
    IsOther other ∨ other = line ∨ other ∈ auth := by
  have hothers := frame.others
  simp only [List.mem_append] at hothers
  rw [Frame.config] at h
  split_ifs at h
  all_goals
    simp only [List.mem_append, List.mem_cons] at h
    have := hothers other
    tauto

/-- Where only the connection element has something. -/
theorem Frame.config_flatMap_line {α : Type} {g : Line → List α}
    (hother : ∀ other, IsOther other → g other = []) (hauth : ∀ other ∈ auth, g other = []) :
    (frame.config line auth).flatMap g = g line := by
  have hlines : ∀ lines : List Line, (∀ other ∈ lines, IsOther other) → lines.flatMap g = [] :=
    fun lines hlines => List.flatMap_eq_nil_iff.mpr fun other h => hother other (hlines other h)
  have hothers := frame.others
  simp only [List.mem_append] at hothers
  rw [Frame.config]
  split_ifs
  all_goals
    simp only [List.flatMap_append, List.flatMap_cons, List.flatMap_eq_nil_iff.mpr hauth]
    rw [hlines _ fun other h => hothers other (Or.inl (Or.inl h)),
      hlines _ fun other h => hothers other (Or.inl (Or.inr h)),
      hlines _ fun other h => hothers other (Or.inr h)]
    simp

/-- Where the other lines and the connection element have nothing, the auth block decides. -/
theorem Frame.config_flatMap_nil {α : Type} {g : Line → List α}
    (hother : ∀ other, IsOther other → g other = []) (hline : g line = []) :
    (frame.config line auth).flatMap g = auth.flatMap g := by
  have hlines : ∀ lines : List Line, (∀ other ∈ lines, IsOther other) → lines.flatMap g = [] :=
    fun lines hlines => List.flatMap_eq_nil_iff.mpr fun other h => hother other (hlines other h)
  have hothers := frame.others
  simp only [List.mem_append] at hothers
  rw [Frame.config]
  split_ifs
  all_goals
    simp only [List.flatMap_append, List.flatMap_cons, hline, List.nil_append]
    rw [hlines _ fun other h => hothers other (Or.inl (Or.inl h)),
      hlines _ fun other h => hothers other (Or.inl (Or.inr h)),
      hlines _ fun other h => hothers other (Or.inr h)]
    simp

end Config

section Steps

variable {frame : Frame} {connection : Connection} {ldap : LdapFrame} {stock : StockAuth}
  {auth : List Line} {line : Line} {host password value : List Char}

theorem IsOther.word {other : Line} (h : IsOther other) {word : List Char} (hword : word ∈ words) :
    ¬ word <:+: other := h.1 word hword

/-- The first `sed` finds the connection element, and what looks like it in a credential. -/
theorem patchUrl_config (hhost : IsHost host) :
    (frame.config (connection.line host password) auth).map patchUrl =
      frame.config (connection.line takDatabase (patchUrl password)) (auth.map patchUrl) := by
  have hmap : ∀ lines : List Line, lines.map patchUrl = lines.flatMap fun line => [patchUrl line] :=
    fun lines => List.map_eq_flatMap
  rw [hmap, hmap]
  apply Frame.config_flatMap
  · intro other hother
    rw [patchUrl_silent (hother.word List.mem_cons_self)]
  · rw [connection.patchUrl_line hhost]

theorem connectionWord_mem : connectionWord ∈ words := by simp [words]

theorem credential_mem : credentialPattern.head ∈ words := by simp [words]

/-- The second one writes the password of the connection element. -/
theorem patchPassword_config {db : List Char} (hdb : '&' ∉ db ∧ '\n' ∉ db) (hhost : IsHost host)
    (hpassword : IsValue password) (hauth : ∀ line ∈ auth, ¬ connectionWord <:+: line) :
    patchPassword db (frame.config (connection.line host password) auth) =
      (unquoteReplacement '|' db).map fun out =>
        frame.config (connection.line host out) auth := by
  have hhead : passwordPattern.head.all fun c => c ∉ ['\\', '|', '\n', '&'] := by
    decide +kernel
  rw [patchPassword, substitute_value hhead hdb.1 ⟨by decide, by decide⟩]
  apply Option.map_congr
  intro out hout
  have hbreak : '\n' ∉ out := fun h => hdb.2 (mem_of_unquote hout h)
  have hsilent : auth.flatMap (fun line => if contains connectionWord line then
      (passwordPattern.substFirst (fun _ => passwordPattern.head ++ (out ++ ['"'])) line).splitOn
        '\n' else [line]) = auth := by
    have hlines : ∀ line ∈ auth, (if contains connectionWord line then
        (passwordPattern.substFirst (fun _ => passwordPattern.head ++ (out ++ ['"'])) line).splitOn
          '\n' else [line]) = [line] := by
      intro line hline
      rw [not_contains (hauth line hline)]
      rfl
    rw [List.flatMap_congr hlines, List.flatMap_singleton']
  have hline : (passwordPattern.substFirst (fun _ => passwordPattern.head ++ (out ++ ['"']))
      (connection.line host password)) = connection.line host out := by
    rw [Pattern.substFirst, connection.first_password hhost hpassword.1,
      connection.line_eq host out]
    simp
  have hconnection : (if contains connectionWord (connection.line host password) then
      (passwordPattern.substFirst (fun _ => passwordPattern.head ++ (out ++ ['"']))
        (connection.line host password)).splitOn '\n' else [connection.line host password]) =
        [connection.line host out] := by
    rw [connection.contains_connectionWord, if_pos rfl, hline,
      splitOn_line (connection.newline_not_mem hhost.2.1 hbreak)]
  rw [Frame.config_flatMap _ hconnection, hsilent]
  intro other hother
  rw [not_contains (hother.word connectionWord_mem)]
  rfl

theorem connectionPasswords_config (hhost : IsHost host) (hpassword : '"' ∉ password)
    (hauth : ∀ line ∈ auth, ¬ connectionWord <:+: line) :
    connectionPasswords (frame.config (connection.line host password) auth) = [password] := by
  rw [connectionPasswords, Frame.config_flatMap_line]
  · rw [connection.contains_connectionWord, if_pos rfl,
      connection.first_password hhost hpassword]
    rfl
  · intro other hother
    rw [not_contains (hother.word connectionWord_mem)]
    rfl
  · intro other hother
    rw [not_contains (hauth other hother)]
    rfl

theorem credentials_config (hline : credentialPattern.first line = none) :
    credentials (frame.config line auth) = auth.flatMap credentialPattern.runs := by
  apply Frame.config_flatMap_nil
  · intro other hother
    exact Pattern.runs_none (Pattern.first_of_not_infix (hother.word credential_mem))
  · exact Pattern.runs_none hline

/-! ### Section 8 -/

theorem IsOther.newline {other : Line} (h : IsOther other) : '\n' ∉ other := h.2.2.2

theorem currentPass_of_credentials {config : List Line} {found : List (List Char)}
    (h : credentials config = found) :
    currentPass config = (['\n'].intercalate (found.map fun run =>
      stripQuotes (credentialPattern.head ++ (run ++ ['"'])))).rdropWhile (· = '\n') := by
  rw [currentPass, ← h, credentials]

theorem afterLast_none {word text : List Char} (h : ¬ word <:+: text) :
    afterLast word text = none := by
  induction text with
  | nil => rfl
  | cons c rest ih =>
      rw [List.infix_cons_iff, not_or] at h
      rw [afterLast, ih h.2, if_neg h.1, Option.none_or]

theorem afterLast_append {word right out : List Char} (left : List Char)
    (h : afterLast word right = some out) : afterLast word (left ++ right) = some out := by
  induction left with
  | nil => exact h
  | cons c left ih => rw [List.cons_append, afterLast, ih, Option.some_or]

/-- The greedy match takes a credential that ends in an equals sign for the name. -/
theorem stripQuotes_credential {run : List Char} (hrun : '"' ∉ run) :
    stripQuotes (credentialPattern.head ++ (run ++ ['"'])) =
      if run.getLast? = some '=' then [] else run := by
  have hhead : credentialPattern.head = "serviceAccountCredential".toList ++ ['=', '"'] := by
    decide +kernel
  have htext : credentialPattern.head ++ (run ++ ['"']) =
      "serviceAccountCredential".toList ++ ('=' :: '"' :: (run ++ ['"'])) := by
    rw [hhead, List.append_assoc]
    rfl
  have hword : "=\"".toList = ['=', '"'] := rfl
  rw [stripQuotes, htext, hword]
  split_ifs with hlast
  · obtain ⟨lead, rfl⟩ := List.getLast?_eq_some_iff.mp hlast
    have hend : afterLast ['=', '"'] ['=', '"'] = some [] := by decide
    have hafter := afterLast_append ("serviceAccountCredential".toList ++ ('=' :: '"' :: lead)) hend
    have hshape : "serviceAccountCredential".toList ++ ('=' :: '"' :: (lead ++ ['='] ++ ['"'])) =
        "serviceAccountCredential".toList ++ ('=' :: '"' :: lead) ++ ['=', '"'] := by simp
    rw [hshape, hafter]
    rfl
  · have hnone : ¬ ['=', '"'] <:+: '"' :: (run ++ ['"']) := by
      intro hinfix
      rcases List.infix_cons_iff.mp hinfix with hstart | hinside
      · exact absurd (List.cons_prefix_cons.mp hstart).1 (by decide)
      · rcases List.infix_concat_iff.mp hinside with hsuffix | hrest
        · obtain ⟨lead, hlead⟩ := hsuffix
          apply hlast
          rw [List.getLast?_eq_some_iff]
          exact ⟨lead, (List.append_cancel_right (by simpa using hlead)).symm⟩
        · exact hrun (hrest.subset (by simp))
    have hafter : afterLast ['=', '"'] ('=' :: '"' :: (run ++ ['"'])) = some (run ++ ['"']) := by
      have hstart : ['=', '"'] <+: '=' :: '"' :: (run ++ ['"']) := List.prefix_append ['=', '"'] _
      rw [afterLast, afterLast_none hnone, Option.none_or, if_pos hstart]
      rfl
    rw [afterLast_append _ hafter, Option.getD_some, List.erase_append_right _ hrun]
    simp

theorem currentPass_ldap (hvalid : ldap.Valid) (hline : credentialPattern.first line = none)
    (hvalue : IsValue value) :
    currentPass (frame.config line (ldap.lines value)) =
      if value.getLast? = some '=' then [] else value := by
  have hcredentials : credentials (frame.config line (ldap.lines value)) = [value] := by
    rw [credentials_config hline, LdapFrame.runs_lines hvalid hvalue.1]
  rw [currentPass_of_credentials hcredentials, List.map_singleton,
    stripQuotes_credential hvalue.1]
  split_ifs
  · rfl
  · rw [List.intercalate_singleton, List.rdropWhile_eq_self_iff]
    intro hne hlast
    exact hvalue.2.2 (of_decide_eq_true hlast ▸ List.getLast_mem hne)

theorem any_account (auth : List Line) :
    (frame.config line auth).any (contains accountWord) =
      (contains accountWord line || auth.any (contains accountWord)) := by
  have hothers : ∀ other, IsOther other → contains accountWord other = false :=
    fun other hother => not_contains hother.2.2.1
  rw [Bool.eq_iff_iff, List.any_eq_true, Bool.or_eq_true, List.any_eq_true]
  constructor
  · rintro ⟨other, hother, haccount⟩
    rcases Frame.mem_config hother with hplain | rfl | hauth
    · rw [hothers other hplain] at haccount
      cases haccount
    · exact Or.inl haccount
    · exact Or.inr ⟨other, hauth, haccount⟩
  · intro h
    rcases h with haccount | ⟨other, hother, haccount⟩
    · refine ⟨line, ?_, haccount⟩
      rw [Frame.config]
      split_ifs <;> simp
    · refine ⟨other, ?_, haccount⟩
      rw [Frame.config]
      split_ifs <;> simp [hother]

/-- An auth block that has the account gets another credential. -/
theorem patchLdap_ldap (directory : Directory) {bind : List Char} (hvalid : ldap.Valid)
    (hbind : '&' ∉ bind ∧ '\n' ∉ bind) (hline : credentialPattern.first line = none)
    (hbreak : '\n' ∉ line) (hvalue : IsValue value) :
    patchLdap directory bind (frame.config line (ldap.lines value)) =
      if currentPass (frame.config line (ldap.lines value)) ≠ [] ∧
          currentPass (frame.config line (ldap.lines value)) ≠ bind then
        (unquoteReplacement '|' bind).map fun out => frame.config line (ldap.lines out)
      else some (frame.config line (ldap.lines value)) := by
  have hhead : credentialPattern.head.all fun c => c ∉ ['\\', '|', '\n', '&'] := by
    decide +kernel
  rw [patchLdap, any_account, LdapFrame.contains_account hvalid, Bool.or_true, if_pos rfl]
  simp only
  rw [substitute_value hhead hbind.1 ⟨by decide, by decide⟩]
  congr 1
  apply Option.map_congr
  intro out hout
  have hnone : ∀ {other : Line}, credentialPattern.first other = none → '\n' ∉ other →
      (credentialPattern.substFirst (fun _ => credentialPattern.head ++ (out ++ ['"']))
        other).splitOn '\n' = [other] := by
    intro other hother hbreak
    rw [Pattern.substFirst_none hother, splitOn_line hbreak]
  have hlines : ∀ other ∈ ldap.lines out, '\n' ∉ other :=
    LdapFrame.newline_not_mem hvalid fun h => hbind.2 (mem_of_unquote hout h)
  have hopening := hlines ldap.opening (by simp [LdapFrame.lines])
  have hclosing := hlines ldap.closing (by simp [LdapFrame.lines])
  have hmiddle : credentialPattern.substFirst
      (fun _ => credentialPattern.head ++ (out ++ ['"'])) (ldap.line value) = ldap.line out := by
    rw [Pattern.substFirst, LdapFrame.first_credential hvalid hvalue.1]
    simp [LdapFrame.line]
  simp only [if_true]
  rw [Frame.config_flatMap (g := fun other => (credentialPattern.substFirst
    (fun _ => credentialPattern.head ++ (out ++ ['"'])) other).splitOn '\n')
    _ (hnone hline hbreak)]
  · rw [LdapFrame.lines, List.flatMap_cons, List.flatMap_cons, List.flatMap_cons,
      hnone (Pattern.first_of_not_infix (hvalid.opening _ credential_mem)) hopening,
      hnone (Pattern.first_of_not_infix (hvalid.closing _ credential_mem)) hclosing, hmiddle,
      splitOn_line (hlines (ldap.line out) (by simp [LdapFrame.lines]))]
    rfl
  · intro other hother
    exact hnone (Pattern.first_of_not_infix (hother.word credential_mem)) hother.newline

/-- What `AUTH_BLOCK` says when the text of the command is read. -/
theorem changeText_authBlock (directory : Directory) (bind : List Char) :
    changeText (directory.authBlock bind) =
      (unquoteText bind).map fun out =>
        directory.frame.opening ++ '\n' :: (directory.frame.line out ++
          '\n' :: directory.frame.closing) := by
  have hbreak := directory.valid.oneLine
  have hslash := directory.unescaped
  have hopening : '\\' ∉ directory.frame.opening ∧ '\\' ∉ directory.frame.closing := by
    constructor
    · change '\\' ∉ (directoryFrame [] []).opening
      decide +kernel
    · change '\\' ∉ (directoryFrame [] []).closing
      decide +kernel
  have hhead : '\\' ∉ credentialPattern.head := by decide +kernel
  have hheadBreak : '\n' ∉ credentialPattern.head := by decide +kernel
  change '\n' ∉ directory.frame.opening ++ directory.frame.lead ++ directory.frame.tail ++
    directory.frame.closing at hbreak
  change '\\' ∉ directory.frame.lead ++ directory.frame.tail at hslash
  simp only [List.mem_append, not_or] at hbreak hslash
  have hplain : ∀ {text : List Char}, '\\' ∉ text → '\n' ∉ text →
      ∀ c ∈ text, c ≠ '\\' ∧ c ≠ '\n' :=
    fun hslash hbreak c hc => ⟨fun h => hslash (h ▸ hc), fun h => hbreak (h ▸ hc)⟩
  have hclosing : changeText directory.frame.closing = some directory.frame.closing := by
    have hall := changeText_plain (hplain hopening.2 hbreak.2) []
    rwa [List.append_nil, changeText, Option.map_some, List.append_nil] at hall
  rw [Directory.authBlock, changeText_plain (hplain hopening.1 hbreak.1.1.1), changeText,
    changeText_plain (hplain hslash.1 hbreak.1.1.2), changeText_plain (hplain hhead hheadBreak)]
  cases hout : unquoteText bind with
  | none =>
      rw [changeText_value_none hout]
      simp only [Option.map_none]
  | some out =>
      rw [changeText_value hout, changeText_plain (hplain hslash.2 hbreak.1.2), changeText,
        hclosing]
      simp only [Option.map_some, LdapFrame.line, List.append_assoc, List.cons_append,
        List.nil_append]

theorem changeRange_config {text : List Line} (hline : ¬ authWord <:+: line) :
    changeRange (contains authWord) (contains authEnd) text false
        (frame.config line stock.lines) = frame.config line text := by
  have hothers : ∀ lines : List Line, (∀ other ∈ lines, IsOther other) →
      ∀ other ∈ lines, ¬ contains authWord other := by
    intro lines hlines other hother
    rw [not_contains (hlines other hother).2.1]
    exact Bool.false_ne_true
  have hconnection : ∀ other ∈ [line], ¬ contains authWord other := by
    intro other hother
    rw [List.mem_singleton.mp hother, not_contains hline]
    exact Bool.false_ne_true
  have hinner : ∀ other ∈ stock.inner, ¬ contains authEnd other := by
    intro other hother
    rw [not_contains (stock.inner_open other hother)]
    exact Bool.false_ne_true
  have hblock : ∀ rest : List Line,
      changeRange (contains authWord) (contains authEnd) text false (stock.lines ++ rest) =
        text ++ changeRange (contains authWord) (contains authEnd) text false rest := by
    intro rest
    rw [StockAuth.lines, List.cons_append, List.append_assoc]
    exact changeRange_block (decide_eq_true stock.opens) hinner (decide_eq_true stock.closes) rest
  have hframe := frame.others
  simp only [List.mem_append] at hframe
  have hbefore := hothers frame.before fun other h => hframe other (Or.inl (Or.inl h))
  have hbetween := hothers frame.between fun other h => hframe other (Or.inl (Or.inr h))
  have hafter := hothers frame.after fun other h => hframe other (Or.inr h)
  have hend : changeRange (contains authWord) (contains authEnd) text false frame.after =
      frame.after := by
    calc changeRange (contains authWord) (contains authEnd) text false frame.after
        = changeRange (contains authWord) (contains authEnd) text false (frame.after ++ []) := by
          rw [List.append_nil]
      _ = frame.after := by rw [changeRange_outside hafter, changeRange, List.append_nil]
  rw [Frame.config, Frame.config]
  split_ifs
  · rw [changeRange_outside hbefore, hblock, changeRange_outside hbetween,
      ← List.singleton_append, changeRange_outside hconnection, hend, List.singleton_append]
  · rw [changeRange_outside hbefore, ← List.singleton_append, changeRange_outside hconnection,
      changeRange_outside hbetween, hblock, hend, List.singleton_append]

/-- The file that was shipped gets the block of the directory service. -/
theorem patchLdap_stock (directory : Directory) {bind : List Char} (hbind : '\n' ∉ bind)
    (haccount : ¬ accountWord <:+: line) (hauth : ¬ authWord <:+: line) :
    patchLdap directory bind (frame.config line stock.lines) =
      (unquoteText bind).map fun out => frame.config line (directory.frame.lines out) := by
  have hnone : (frame.config line stock.lines).any (contains accountWord) = false := by
    rw [any_account, not_contains haccount, Bool.false_or, List.any_eq_false]
    intro other hother
    rw [not_contains (stock.silent other hother).2.1]
    exact Bool.false_ne_true
  rw [patchLdap, hnone, changeText_authBlock, Option.map_map]
  simp only [Bool.false_eq_true, if_false]
  apply Option.map_congr
  intro out hout
  have hbreak : '\n' ∉ out := fun h => hbind (mem_of_unquote hout h)
  have hlines := LdapFrame.newline_not_mem directory.valid hbreak
  have hsplit : (directory.frame.opening ++ '\n' :: (directory.frame.line out ++
      '\n' :: directory.frame.closing)).splitOn '\n' = directory.frame.lines out := by
    rw [List.splitOn_append_cons_self, List.splitOn_append_cons_self,
      splitOn_line (hlines _ (by simp [LdapFrame.lines, Directory.frame])),
      splitOn_line (hlines _ (by simp [LdapFrame.lines, Directory.frame])),
      splitOn_line (hlines _ (by simp [LdapFrame.lines, Directory.frame]))]
    rfl
  rw [Function.comp_apply, hsplit, changeRange_config hauth]

/-- If another line names the account, the block of the shipped file stays. -/
theorem patchLdap_unnoticed (directory : Directory) {bind : List Char}
    (haccount : accountWord <:+: line) (hline : credentialPattern.first line = none) :
    patchLdap directory bind (frame.config line stock.lines) =
      some (frame.config line stock.lines) := by
  have hany : (frame.config line stock.lines).any (contains accountWord) = true := by
    rw [any_account, contains, decide_eq_true haccount, Bool.true_or]
  have hnone : stock.lines.flatMap credentialPattern.runs = [] :=
    List.flatMap_eq_nil_iff.mpr fun other hother => Pattern.runs_none
      (Pattern.first_of_not_infix ((stock.silent other hother).1 _ credential_mem))
  have hcurrent : currentPass (frame.config line stock.lines) = [] := by
    rw [currentPass_of_credentials ((credentials_config hline).trans hnone)]
    rfl
  rw [patchLdap, hany, if_pos rfl]
  simp only
  rw [hcurrent, if_neg fun h => h.1 rfl]

end Steps

end FastTAK.CoreConfig
