import FastTAK.Base.Text
import FastTAK.Stack.CoreConfig

/-!
# Credentials that arrive intact

The passwords of the environment arrive in `CoreConfig.xml` as they are, and stay there, exactly
if nothing in them is special to `sed` and nothing in them is taken for something else.
-/

namespace FastTAK.Credentials

open FastTAK.Substitute FastTAK.Sed FastTAK.CoreConfig

/-! ## The auth block of a file -/

/-- The auth block as shipped, or with a directory service and the credential it has. -/
inductive Auth where
  | stock (stock : StockAuth)
  | ldap (frame : LdapFrame) (valid : frame.Valid) (credential : List Char)
      (value : IsValue credential)

def Auth.lines : Auth → List Line
  | .stock shipped => shipped.lines
  | .ldap frame _ credential _ => frame.lines credential

/-! ## When a credential can be written -/

/-- A credential is replaced by the password, or is the password already. -/
def Replaceable (present bind : List Char) : Prop :=
  patchUrl present = bind ∨
    present ≠ [] ∧ present.getLast? ≠ some '=' ∧ '\\' ∉ bind ∧ '|' ∉ bind ∧ '\n' ∉ bind

/-- The auth block can get the password. -/
def Auth.Accepts (passwords : Passwords) : Auth → Prop
  | .stock _ => ¬ accountWord <:+: passwords.db ∧ '\\' ∉ passwords.ldap ∧ '\n' ∉ passwords.ldap
  | .ldap _ _ credential _ => Replaceable credential passwords.ldap

/-- Nothing in the passwords is special, or taken for something else. -/
structure Writable (passwords : Passwords) (auth : Auth) : Prop where
  db_backslash : '\\' ∉ passwords.db
  db_newline : '\n' ∉ passwords.db
  accepts : auth.Accepts passwords
  stays : Replaceable passwords.ldap passwords.ldap

/-- What section 8 makes of a credential. -/
def nextCredential (present bind : List Char) : Option (List Char) :=
  if patchUrl present ≠ [] ∧ (patchUrl present).getLast? ≠ some '=' ∧ patchUrl present ≠ bind then
    unquoteReplacement '|' bind
  else some (patchUrl present)

section Values

variable {value present bind db : List Char}

theorem acceptsDbPassword_not_mem (h : acceptsDbPassword db) {c : Char}
    (hc : c ∈ ['"', '\'', '&', '<', '>', '|']) : c ∉ db := by
  rw [acceptsDbPassword, Bool.and_eq_true, List.all_eq_true] at h
  intro hmem
  exact of_decide_eq_true (h.2 c hmem) hc

theorem acceptsBindPassword_not_mem (h : acceptsBindPassword bind) {c : Char}
    (hc : c ∈ ['"', '\'', '&', '<', '>']) : c ∉ bind := by
  rw [acceptsBindPassword, Bool.and_eq_true, List.all_eq_true] at h
  intro hmem
  exact of_decide_eq_true (h.2 c hmem) hc

theorem acceptsBindPassword_ne_nil (h : acceptsBindPassword bind) : bind ≠ [] := by
  rw [acceptsBindPassword, Bool.and_eq_true] at h
  exact of_decide_eq_true h.1

theorem getLast?_patchUrl (value : List Char) : (patchUrl value).getLast? = value.getLast? :=
  Pattern.getLast?_substAll (by decide +kernel) value

theorem patchUrl_ne_nil : patchUrl value ≠ [] ↔ value ≠ [] := by
  rw [← List.getLast?_isSome, getLast?_patchUrl, List.getLast?_isSome]

/-- In a replacement. -/
theorem unquoteReplacement_eq_self_iff :
    unquoteReplacement '|' value = some value ↔ '\\' ∉ value ∧ '|' ∉ value ∧ '\n' ∉ value := by
  rw [unquoteReplacement, unquote_eq_self_iff]
  apply and_congr_right'
  constructor
  · intro h
    constructor
    · intro hc
      exact h _ hc rfl
    · intro hc
      exact h _ hc rfl
  · rintro ⟨hbar, hbreak⟩ c hc hends
    rw [Bool.or_eq_true, decide_eq_true_eq, decide_eq_true_eq] at hends
    rcases hends with rfl | rfl
    · exact hbar hc
    · exact hbreak hc

/-- In a block of text. -/
theorem unquoteText_eq_self_iff :
    unquoteText value = some value ↔ '\\' ∉ value ∧ '\n' ∉ value := by
  rw [unquoteText, unquote_eq_self_iff]
  apply and_congr_right'
  constructor
  · intro h hc
    exact h _ hc rfl
  · intro h c hc hends
    exact h (of_decide_eq_true hends ▸ hc)

theorem nextCredential_iff : nextCredential present bind = some bind ↔ Replaceable present bind := by
  rw [nextCredential, Replaceable]
  split_ifs with h
  · rw [getLast?_patchUrl, patchUrl_ne_nil] at h
    rw [unquoteReplacement_eq_self_iff]
    tauto
  · rw [getLast?_patchUrl, patchUrl_ne_nil] at h
    rw [Option.some.injEq]
    tauto

theorem newline_not_mem_of_replaceable (hpresent : IsValue present)
    (h : Replaceable present bind) : '\n' ∉ bind := by
  rcases h with rfl | h
  · exact (isValue_patchUrl hpresent).2.2
  · exact h.2.2.2.2

theorem unquoteReplacement_db (hdb : acceptsDbPassword db) (hbreak : '\n' ∉ db) :
    unquoteReplacement '|' db = some db ↔ '\\' ∉ db := by
  rw [unquoteReplacement_eq_self_iff]
  constructor
  · exact fun h => h.1
  · exact fun h => ⟨h, acceptsDbPassword_not_mem hdb (by simp), hbreak⟩

theorem isValue_db (hdb : acceptsDbPassword db) (hbreak : '\n' ∉ db) : IsValue db :=
  ⟨acceptsDbPassword_not_mem hdb (by simp), acceptsDbPassword_not_mem hdb (by simp), hbreak⟩

theorem isValue_bind (hbind : acceptsBindPassword bind) (hbreak : '\n' ∉ bind) : IsValue bind :=
  ⟨acceptsBindPassword_not_mem hbind (by simp), acceptsBindPassword_not_mem hbind (by simp),
    hbreak⟩

theorem IsValue.unquote {d : Char} {out : List Char} (h : IsValue value)
    (hout : unquoteReplacement d value = some out) : IsValue out :=
  ⟨fun hc => h.1 (mem_of_unquote hout hc), fun hc => h.2.1 (mem_of_unquote hout hc),
    fun hc => h.2.2 (mem_of_unquote hout hc)⟩

theorem isValue_nextCredential {out : List Char} (hpresent : IsValue present)
    (hbind : IsValue bind) (h : nextCredential present bind = some out) : IsValue out := by
  rw [nextCredential] at h
  split_ifs at h
  · exact IsValue.unquote hbind h
  · exact Option.some.inj h ▸ isValue_patchUrl hpresent

end Values

/-! ## What the steps write -/

section Steps

variable {frame : Frame} {connection : Connection} {ldap : LdapFrame} {stock : StockAuth}
  {host old present : List Char}

theorem StockAuth.patchUrl_lines (stock : StockAuth) : stock.lines.map patchUrl = stock.lines := by
  have hsilent : ∀ line ∈ stock.lines, patchUrl line = line := fun line hline =>
    patchUrl_silent ((stock.silent line hline).1 _ List.mem_cons_self)
  calc stock.lines.map patchUrl = stock.lines.map id := List.map_congr_left hsilent
    _ = stock.lines := List.map_id _

theorem StockAuth.runs_lines (stock : StockAuth) :
    stock.lines.flatMap credentialPattern.runs = [] :=
  List.flatMap_eq_nil_iff.mpr fun line hline => Pattern.runs_none
    (Pattern.first_of_not_infix ((stock.silent line hline).1 _ credential_mem))

theorem StockAuth.not_connection (stock : StockAuth) :
    ∀ line ∈ stock.lines, ¬ connectionWord <:+: line :=
  fun line hline => (stock.silent line hline).1 _ connectionWord_mem

/-- With a directory service in the file. -/
theorem initConfig_ldap (directory : Directory) (passwords : Passwords) (frame : Frame)
    (connection : Connection)
    (hdb : '\n' ∉ passwords.db) (hldap : '\n' ∉ passwords.ldap) (hhost : IsHost host)
    (hold : IsValue old) (hvalid : ldap.Valid) (hpresent : IsValue present) :
    initConfig directory passwords (frame.config (connection.line host old) (ldap.lines present)) =
      (unquoteReplacement '|' passwords.db).bind fun out =>
        (nextCredential present passwords.ldap).map fun credential =>
          frame.config (connection.line takDatabase out) (ldap.lines credential) := by
  have hnone : ∀ line ∈ ldap.lines (patchUrl present), ¬ connectionWord <:+: line :=
    LdapFrame.not_connection hvalid (isValue_patchUrl hpresent).2.1
  have hamp : '&' ∉ passwords.db ∧ '&' ∉ passwords.ldap :=
    ⟨acceptsDbPassword_not_mem passwords.db_accepted (by simp),
      acceptsBindPassword_not_mem passwords.ldap_accepted (by simp)⟩
  rw [initConfig, patchUrl_config hhost, LdapFrame.patchUrl_lines hvalid,
    patchPassword_config ⟨hamp.1, hdb⟩ isHost_takDatabase (isValue_patchUrl hold) hnone,
    Option.bind_map]
  apply Option.bind_congr
  intro out hout
  have hvalue := IsValue.unquote (isValue_db passwords.db_accepted hdb) hout
  have hline := connection.first_credential hvalue.1
  have hbreak := connection.newline_not_mem isHost_takDatabase.2.1 hvalue.2.2
  rw [Function.comp_apply, patchLdap_ldap directory hvalid ⟨hamp.2, hldap⟩ hline hbreak
      (isValue_patchUrl hpresent),
    currentPass_ldap hvalid hline (isValue_patchUrl hpresent), nextCredential]
  by_cases hlast : (patchUrl present).getLast? = some '='
  · rw [if_pos hlast, if_neg fun h => h.1 rfl, if_neg fun h => h.2.1 hlast, Option.map_some]
  · rw [if_neg hlast]
    split_ifs with hne hnext hnext
    · rfl
    · exact absurd ⟨hne.1, hlast, hne.2⟩ hnext
    · exact absurd ⟨hnext.1, hnext.2.2⟩ hne
    · rfl

/-- As shipped. -/
theorem initConfig_stock (directory : Directory) (passwords : Passwords)
    (hdb : '\n' ∉ passwords.db) (hhost : IsHost host) (hold : IsValue old) :
    initConfig directory passwords (frame.config (connection.line host old) stock.lines) =
      (unquoteReplacement '|' passwords.db).bind fun out =>
        patchLdap directory passwords.ldap
          (frame.config (connection.line takDatabase out) stock.lines) := by
  have hamp : '&' ∉ passwords.db := acceptsDbPassword_not_mem passwords.db_accepted (by simp)
  rw [initConfig, patchUrl_config hhost, StockAuth.patchUrl_lines,
    patchPassword_config ⟨hamp, hdb⟩ isHost_takDatabase (isValue_patchUrl hold)
      (StockAuth.not_connection stock), Option.bind_map]
  rfl

end Steps

/-! ## Line breaks -/

section Lines

variable {directory : Directory} {passwords : Passwords} {db : List Char}
  {config config' : List Line}

theorem oneLine_patchLdap {ldap : List Char} (hconfig : OneLine config)
    (h : patchLdap directory ldap config = some config') : OneLine config' := by
  rw [patchLdap] at h
  split_ifs at h
  · simp only at h
    split_ifs at h
    · exact hconfig.substitute h
    · exact Option.some.inj h ▸ hconfig
  · obtain ⟨text, -, rfl⟩ := Option.map_eq_some_iff.mp h
    have htext : OneLine (text.splitOn '\n') := fun _ hline => Text.not_mem_of_mem_splitOn hline
    exact htext.changeRange hconfig

theorem oneLine_initConfig (hconfig : OneLine config)
    (h : initConfig directory passwords config = some config') : OneLine config' := by
  rw [initConfig] at h
  obtain ⟨between, hbetween, hldap⟩ := Option.bind_eq_some_iff.mp h
  have hurl : OneLine (config.map patchUrl) := by
    intro line hline hc
    obtain ⟨source, hsource, rfl⟩ := List.mem_map.mp hline
    exact (Pattern.mem_substAll hc).elim (hconfig source hsource) (by decide +kernel)
  exact oneLine_patchLdap (hurl.substitute hbetween) hldap

/-- No attribute of a file of such lines has a line break. -/
theorem newline_not_mem_connectionPasswords (hconfig : OneLine config)
    (h : db ∈ connectionPasswords config) : '\n' ∉ db := by
  intro hc
  obtain ⟨line, hline, hin⟩ := List.mem_flatMap.mp h
  split_ifs at hin
  · obtain ⟨hit, hhit, rfl⟩ := Option.map_eq_some_iff.mp (Option.mem_toList.mp hin)
    exact hconfig line hline (Pattern.mem_of_first hhit hc)
  · cases hin

theorem newline_not_mem_credentials {credential : List Char} (hconfig : OneLine config)
    (h : credential ∈ credentials config) : '\n' ∉ credential := by
  intro hc
  obtain ⟨line, hline, hin⟩ := List.mem_flatMap.mp h
  exact hconfig line hline (Pattern.mem_of_mem_runs hin hc)

theorem oneLine_config {frame : Frame} {line : Line} {auth : List Line} (hline : '\n' ∉ line)
    (hauth : OneLine auth) : OneLine (frame.config line auth) := by
  intro other hother
  rcases Frame.mem_config hother with hplain | rfl | hmem
  · exact hplain.newline
  · exact hline
  · exact hauth other hmem

theorem Auth.not_connection (auth : Auth) : ∀ line ∈ auth.lines, ¬ connectionWord <:+: line := by
  cases auth with
  | stock shipped => exact StockAuth.not_connection shipped
  | ldap frame valid credential value => exact LdapFrame.not_connection valid value.2.1

theorem Auth.oneLine (auth : Auth) : OneLine auth.lines := by
  cases auth with
  | stock shipped => exact fun line hline => (shipped.silent line hline).2.2
  | ldap frame valid credential value => exact LdapFrame.newline_not_mem valid value.2.2

end Lines

/-! ## Passwords that arrive -/

section Intact

variable {directory : Directory} {passwords : Passwords} {frame : Frame} {connection : Connection}
  {host old present : List Char} {auth : Auth}

/-- What the connection element and a directory service's block hold. -/
theorem attributes_ldap (frame : Frame) (connection : Connection) {db credential : List Char} {ldap : LdapFrame} (hvalid : ldap.Valid)
    (hdb : '"' ∉ db) (hcredential : '"' ∉ credential ∧ '<' ∉ credential) :
    connectionPasswords (frame.config (connection.line takDatabase db) (ldap.lines credential)) =
        [db] ∧
      credentials (frame.config (connection.line takDatabase db) (ldap.lines credential)) =
        [credential] := by
  constructor
  · exact connectionPasswords_config isHost_takDatabase hdb
      (LdapFrame.not_connection hvalid hcredential.2)
  · rw [credentials_config (connection.first_credential hdb),
      LdapFrame.runs_lines hvalid hcredential.1]

theorem patchPassword_iff (frame : Frame) (connection : Connection) (auth : Auth) {db : List Char} (hdb : acceptsDbPassword db) (hbreak : '\n' ∉ db)
    (hhost : IsHost host) (hold : IsValue old) :
    (∃ config', patchPassword db (frame.config (connection.line host old) auth.lines) =
        some config' ∧ connectionPasswords config' = [db]) ↔ '\\' ∉ db := by
  have hamp : '&' ∉ db := acceptsDbPassword_not_mem hdb (by simp)
  have hvalue := isValue_db hdb hbreak
  rw [patchPassword_config ⟨hamp, hbreak⟩ hhost hold auth.not_connection,
    ← unquoteReplacement_db hdb hbreak]
  constructor
  · rintro ⟨config', hconfig, hread⟩
    obtain ⟨out, hout, rfl⟩ := Option.map_eq_some_iff.mp hconfig
    have hvalue' := IsValue.unquote hvalue hout
    rw [connectionPasswords_config hhost hvalue'.1 auth.not_connection] at hread
    rwa [List.singleton_inj.mp hread] at hout
  · intro hout
    rw [hout]
    exact ⟨_, rfl, connectionPasswords_config hhost hvalue.1 auth.not_connection⟩

/-- The second run finds the password of the first. -/
theorem initConfig_again (hdb : '\n' ∉ passwords.db) (hldap : '\n' ∉ passwords.ldap)
    {ldap : LdapFrame} (hvalid : ldap.Valid) :
    initConfig directory passwords
          (frame.config (connection.line takDatabase passwords.db) (ldap.lines passwords.ldap)) =
        some (frame.config (connection.line takDatabase passwords.db)
          (ldap.lines passwords.ldap)) ↔
      '\\' ∉ passwords.db ∧ Replaceable passwords.ldap passwords.ldap := by
  have hvalue := isValue_db passwords.db_accepted hdb
  have hbind := isValue_bind passwords.ldap_accepted hldap
  rw [initConfig_ldap directory passwords frame connection hdb hldap isHost_takDatabase hvalue
    hvalid hbind, ← unquoteReplacement_db passwords.db_accepted hdb, ← nextCredential_iff]
  constructor
  · intro h
    obtain ⟨out, hout, hnext⟩ := Option.bind_eq_some_iff.mp h
    obtain ⟨credential, hcredential, hconfig⟩ := Option.map_eq_some_iff.mp hnext
    have hout' := IsValue.unquote hvalue hout
    have hcredential' := isValue_nextCredential hbind hbind hcredential
    have hread := attributes_ldap frame connection hvalid hout'.1
      ⟨hcredential'.1, hcredential'.2.1⟩
    rw [hconfig, (attributes_ldap frame connection hvalid hvalue.1 ⟨hbind.1, hbind.2.1⟩).1,
      (attributes_ldap frame connection hvalid hvalue.1 ⟨hbind.1, hbind.2.1⟩).2] at hread
    rw [List.singleton_inj.mp hread.1.symm] at hout
    rw [List.singleton_inj.mp hread.2.symm] at hcredential
    exact ⟨hout, hcredential⟩
  · rintro ⟨hout, hcredential⟩
    rw [hout, Option.bind_some, hcredential, Option.map_some]

theorem written_ldap (hdb : '\n' ∉ passwords.db) (hldap : '\n' ∉ passwords.ldap)
    (hhost : IsHost host) (hold : IsValue old) {ldap : LdapFrame} (hvalid : ldap.Valid)
    (hpresent : IsValue present) :
    (∃ config', initConfig directory passwords
          (frame.config (connection.line host old) (ldap.lines present)) = some config' ∧
        connectionPasswords config' = [passwords.db] ∧ credentials config' = [passwords.ldap] ∧
        initConfig directory passwords config' = some config') ↔
      '\\' ∉ passwords.db ∧ Replaceable present passwords.ldap ∧
        Replaceable passwords.ldap passwords.ldap := by
  have hvalue := isValue_db passwords.db_accepted hdb
  have hbind := isValue_bind passwords.ldap_accepted hldap
  have hattributes := attributes_ldap frame connection hvalid hvalue.1 ⟨hbind.1, hbind.2.1⟩
  rw [initConfig_ldap directory passwords frame connection hdb hldap hhost hold hvalid hpresent]
  constructor
  · rintro ⟨config', hconfig, hread, hcredentials, hagain⟩
    obtain ⟨out, hout, hnext⟩ := Option.bind_eq_some_iff.mp hconfig
    obtain ⟨credential, hcredential, rfl⟩ := Option.map_eq_some_iff.mp hnext
    have hout' := IsValue.unquote hvalue hout
    have hcredential' := isValue_nextCredential hpresent hbind hcredential
    have hfirst := attributes_ldap frame connection hvalid hout'.1
      ⟨hcredential'.1, hcredential'.2.1⟩
    obtain rfl := List.singleton_inj.mp (hfirst.1.symm.trans hread)
    obtain rfl := List.singleton_inj.mp (hfirst.2.symm.trans hcredentials)
    have hstays := (initConfig_again hdb hldap hvalid).mp hagain
    exact ⟨hstays.1, nextCredential_iff.mp hcredential, hstays.2⟩
  · rintro ⟨hout, hpresent, hstays⟩
    have hout' := (unquoteReplacement_db passwords.db_accepted hdb).mpr hout
    refine ⟨_, ?_, hattributes.1, hattributes.2,
      (initConfig_again hdb hldap hvalid).mpr ⟨hout, hstays⟩⟩
    rw [hout', Option.bind_some, nextCredential_iff.mpr hpresent, Option.map_some]

theorem written_stock (hdb : '\n' ∉ passwords.db) (hldap : '\n' ∉ passwords.ldap)
    (hhost : IsHost host) (hold : IsValue old) (stock : StockAuth) :
    (∃ config', initConfig directory passwords
          (frame.config (connection.line host old) stock.lines) = some config' ∧
        connectionPasswords config' = [passwords.db] ∧ credentials config' = [passwords.ldap] ∧
        initConfig directory passwords config' = some config') ↔
      '\\' ∉ passwords.db ∧ (¬ accountWord <:+: passwords.db ∧ '\\' ∉ passwords.ldap) ∧
        Replaceable passwords.ldap passwords.ldap := by
  have hvalue := isValue_db passwords.db_accepted hdb
  have hbind := isValue_bind passwords.ldap_accepted hldap
  have hvalid := directory.valid
  have hattributes := attributes_ldap frame connection hvalid hvalue.1 ⟨hbind.1, hbind.2.1⟩
  rw [initConfig_stock directory passwords hdb hhost hold]
  constructor
  · rintro ⟨config', hconfig, hread, hcredentials, hagain⟩
    obtain ⟨out, hout, hblock⟩ := Option.bind_eq_some_iff.mp hconfig
    have hout' := IsValue.unquote hvalue hout
    by_cases haccount : accountWord <:+: out
    · -- the block of the file stays, and has no credential
      rw [patchLdap_unnoticed directory ((connection.account_iff out).mpr haccount)
        (connection.first_credential hout'.1), Option.some.injEq] at hblock
      rw [← hblock, credentials_config (connection.first_credential hout'.1),
        StockAuth.runs_lines] at hcredentials
      cases hcredentials
    · rw [patchLdap_stock directory hldap ((connection.account_iff out).not.mpr haccount)
        (connection.not_auth hout'.2.1)] at hblock
      obtain ⟨credential, hcredential, rfl⟩ := Option.map_eq_some_iff.mp hblock
      have hquotes : '"' ∉ credential ∧ '<' ∉ credential :=
        ⟨fun h => hbind.1 (mem_of_unquote hcredential h),
          fun h => hbind.2.1 (mem_of_unquote hcredential h)⟩
      have hfirst := attributes_ldap frame connection hvalid hout'.1 hquotes
      obtain rfl := List.singleton_inj.mp (hfirst.1.symm.trans hread)
      obtain rfl := List.singleton_inj.mp (hfirst.2.symm.trans hcredentials)
      have hstays := (initConfig_again hdb hldap hvalid).mp hagain
      exact ⟨hstays.1, ⟨haccount, (unquoteText_eq_self_iff.mp hcredential).1⟩, hstays.2⟩
  · rintro ⟨hout, ⟨haccount, hplain⟩, hstays⟩
    have hout' := (unquoteReplacement_db passwords.db_accepted hdb).mpr hout
    have hplain' := unquoteText_eq_self_iff.mpr ⟨hplain, hldap⟩
    refine ⟨_, ?_, hattributes.1, hattributes.2,
      (initConfig_again hdb hldap hvalid).mpr ⟨hout, hstays⟩⟩
    rw [hout', Option.bind_some,
      patchLdap_stock directory hldap ((connection.account_iff _).not.mpr haccount)
        (connection.not_auth hvalue.2.1), hplain', Option.map_some]
    rfl

/-- The passwords arrive exactly if they are writable. -/
theorem initConfig_intact_iff (directory : Directory) (passwords : Passwords) (frame : Frame)
    (connection : Connection) (auth : Auth) {host old : List Char} (hhost : IsHost host)
    (hold : IsValue old) :
    Intact directory passwords (frame.config (connection.line host old) auth.lines) ↔
      Writable passwords auth := by
  have hlines : OneLine (frame.config (connection.line host old) auth.lines) :=
    oneLine_config (connection.newline_not_mem hhost.2.1 hold.2.2) auth.oneLine
  constructor
  · rintro ⟨hwritten, hdatabase⟩
    have hbreaks : '\n' ∉ passwords.db ∧ '\n' ∉ passwords.ldap := by
      obtain ⟨config', hconfig, hread, hcredentials, -⟩ := hwritten
      have hlines' := oneLine_initConfig hlines hconfig
      exact ⟨newline_not_mem_connectionPasswords hlines' (hread ▸ List.mem_cons_self),
        newline_not_mem_credentials hlines' (hcredentials ▸ List.mem_cons_self)⟩
    cases auth with
    | stock shipped =>
        obtain ⟨hdb, haccepts, hstays⟩ :=
          (written_stock hbreaks.1 hbreaks.2 hhost hold shipped).mp hwritten
        exact ⟨hdb, hbreaks.1, ⟨haccepts.1, haccepts.2, hbreaks.2⟩, hstays⟩
    | ldap ldap hvalid present hpresent =>
        obtain ⟨hdb, haccepts, hstays⟩ :=
          (written_ldap hbreaks.1 hbreaks.2 hhost hold hvalid hpresent).mp hwritten
        exact ⟨hdb, hbreaks.1, haccepts, hstays⟩
  · rintro ⟨hdb, hbreak, haccepts, hstays⟩
    have hdatabase := (patchPassword_iff frame connection auth passwords.db_accepted hbreak
      hhost hold).mpr hdb
    cases auth with
    | stock shipped =>
        exact ⟨(written_stock hbreak haccepts.2.2 hhost hold shipped).mpr
          ⟨hdb, ⟨haccepts.1, haccepts.2.1⟩, hstays⟩, hdatabase⟩
    | ldap ldap hvalid present hpresent =>
        exact ⟨(written_ldap hbreak (newline_not_mem_of_replaceable hpresent haccepts) hhost hold
          hvalid hpresent).mpr ⟨hdb, haccepts, hstays⟩, hdatabase⟩

end Intact

/-! ## The shipped file -/

/-- The defaults of `LDAP_HOST` and `LDAP_BASE_DN`. -/
def proxyDirectory : Directory where
  host := "ldap-proxy".toList
  baseDn := "DC=takldap".toList
  unescaped := by decide +kernel
  valid := by
    constructor
    · decide +kernel
    · decide +kernel
    · decide +kernel
    · decide +kernel
    · decide +kernel
    · decide +kernel
    · decide +kernel

def shippedConnection : Connection where
  lead := "        <connection url=\"".toList
  mid := "\" username=\"martiuser\" ".toList
  tail := "/>".toList
  opens := by decide +kernel
  lead_clear := by decide +kernel
  mid_clear := by decide +kernel
  tail_plain := by decide +kernel
  unquoted := by decide +kernel
  oneLine := by decide +kernel

def shippedAuth : StockAuth where
  opening := "    <auth>".toList
  inner := ["        <File location=\"UserAuthenticationFile.xml\"/>".toList]
  closing := "    </auth>".toList
  opens := by decide +kernel
  inner_open := by decide +kernel
  closes := by decide +kernel
  silent := by decide +kernel

def shippedFrame : Frame where
  before := ["<Configuration>".toList]
  between := ["    <repository enable=\"true\">".toList]
  after := ["    </repository>".toList, "</Configuration>".toList]
  authFirst := true
  others := by decide +kernel

def newPasswords : Passwords :=
  ⟨"takdb;pass".toList, "ldap$pass".toList, by decide +kernel, by decide +kernel⟩

/-- A delimiter, which only the checks of `TAK_DB_PASSWORD` refuse. -/
def barredPasswords : Passwords :=
  ⟨"takdb;pass".toList, "ldap|pass".toList, by decide +kernel, by decide +kernel⟩

def oldAuth : Auth :=
  .ldap proxyDirectory.frame proxyDirectory.valid "old".toList
    ⟨by decide +kernel, by decide +kernel, by decide +kernel⟩

theorem initConfig_intact_shipped :
    Intact proxyDirectory newPasswords
        (shippedFrame.config (shippedConnection.line "127.0.0.1:5432".toList [])
          (Auth.stock shippedAuth).lines) ∧
      Intact proxyDirectory newPasswords
        (shippedFrame.config (shippedConnection.line takDatabase "old".toList) oldAuth.lines) := by
  have hhost : IsHost "127.0.0.1:5432".toList :=
    ⟨by decide +kernel, by decide +kernel, by decide +kernel⟩
  have hempty : IsValue [] := ⟨List.not_mem_nil, List.not_mem_nil, List.not_mem_nil⟩
  have hold : IsValue "old".toList := ⟨by decide +kernel, by decide +kernel, by decide +kernel⟩
  have hstays : Replaceable newPasswords.ldap newPasswords.ldap := Or.inl (by decide +kernel)
  have hdb : '\\' ∉ newPasswords.db := by decide +kernel
  have hbreak : '\n' ∉ newPasswords.db := by decide +kernel
  constructor
  · apply (initConfig_intact_iff proxyDirectory newPasswords shippedFrame shippedConnection
      (.stock shippedAuth) hhost hempty).mpr
    refine ⟨hdb, hbreak, ⟨?_, ?_, ?_⟩, hstays⟩
    · decide +kernel
    · decide +kernel
    · decide +kernel
  · apply (initConfig_intact_iff proxyDirectory newPasswords shippedFrame shippedConnection
      oldAuth isHost_takDatabase hold).mpr
    refine ⟨hdb, hbreak, Or.inr ⟨?_, ?_, ?_, ?_, ?_⟩, hstays⟩
    · decide +kernel
    · decide +kernel
    · decide +kernel
    · decide +kernel
    · decide +kernel

/-- The update of a directory service's password with a delimiter in it is refused by `sed`. -/
theorem initConfig_barred :
    ¬ Intact proxyDirectory barredPasswords
      (shippedFrame.config (shippedConnection.line takDatabase "old".toList) oldAuth.lines) := by
  rintro ⟨⟨config', hconfig, -⟩, -⟩
  have hold : IsValue "old".toList := ⟨by decide +kernel, by decide +kernel, by decide +kernel⟩
  have hnext : nextCredential "old".toList barredPasswords.ldap = none := by decide +kernel
  have hrun := initConfig_ldap proxyDirectory barredPasswords shippedFrame shippedConnection
    (by decide +kernel) (by decide +kernel) isHost_takDatabase hold proxyDirectory.valid hold
  rw [hnext] at hrun
  obtain ⟨out, -, hnone⟩ := Option.bind_eq_some_iff.mp (hrun.symm.trans hconfig)
  cases hnone

end FastTAK.Credentials
