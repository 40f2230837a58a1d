import FastTAK.Proxy.Bind

/-!
# The search gate of the LDAP listener

The listener searches LLDAP as the administrator on behalf of its clients, so a
connection has to bind before it may search.  The handlers share a map from
connections to a flag, guarded by a lock; a run is the sequence in which they
use it.  This file shows which history the flag stands for.
-/

namespace FastTAK.ConnAuth

open FastTAK.Bind

/-! ## The map -/

/-- `connAuth.authed`. -/
abbrev Authed := ℕ → Option Bool

def newConnAuth : Authed := fun _ => none

def setAuthed (auth : Authed) (connID : ℕ) (authed : Bool) : Authed :=
  Function.update auth connID (some authed)

def isAuthed (auth : Authed) (connID : ℕ) : Bool := (auth connID).getD false

def forget (auth : Authed) (connID : ℕ) : Authed := Function.update auth connID none

@[simp]
theorem isAuthed_newConnAuth (connID : ℕ) : isAuthed newConnAuth connID = false := rfl

@[simp]
theorem isAuthed_setAuthed_self (auth : Authed) (connID : ℕ) (authed : Bool) :
    isAuthed (setAuthed auth connID authed) connID = authed := by
  simp [isAuthed, setAuthed]

@[simp]
theorem isAuthed_forget_self (auth : Authed) (connID : ℕ) :
    isAuthed (forget auth connID) connID = false := by
  simp [isAuthed, forget]

theorem isAuthed_setAuthed_other {auth : Authed} {connID other : ℕ} {authed : Bool}
    (hother : other ≠ connID) :
    isAuthed (setAuthed auth connID authed) other = isAuthed auth other := by
  simp [isAuthed, setAuthed, hother]

theorem isAuthed_forget_other {auth : Authed} {connID other : ℕ}
    (hother : other ≠ connID) : isAuthed (forget auth connID) other = isAuthed auth other := by
  simp [isAuthed, forget, hother]

/-! ## The handlers -/

inductive ResultCode where
  | success
  | operationsError
  | invalidCredentials
  | insufficientAccessRights
  | unavailable
  | unwillingToPerform
  deriving DecidableEq, Repr

structure Response where
  code : ResultCode
  diagnostic : String
  deriving DecidableEq, Repr

/-- A simple bind message. -/
structure BindMessage where
  userName : GoString
  password : GoString
  deriving DecidableEq, Repr

/-- The parameters of a search, all of them forwarded. -/
structure SearchMessage where
  baseDN : GoString
  scope : ℤ
  derefAliases : ℤ
  sizeLimit : ℤ
  timeLimit : ℤ
  typesOnly : Bool
  filter : GoString
  attributes : List GoString
  deriving DecidableEq, Repr

/-- An entry of a search result. -/
structure Entry where
  dn : GoString
  attributes : List (GoString × List GoString)
  deriving DecidableEq, Repr

/-- LLDAP as the search handler meets it. -/
structure Upstream where
  dials : Bool
  /-- Does it accept the bind of the proxy's service account. -/
  adminBind : Bool
  search : SearchMessage → Option (List Entry)

variable (unicode : Unicode) (baseDN : GoString)

/-- The handler made by `makeBindHandler`; no message stands for an error of
`GetSimpleBindMessage`. -/
def bindHandler (auth : Authed) (connID : ℕ) (message : Option BindMessage)
    (backend : Backend) : Authed × Response :=
  match message with
  | none => (setAuthed auth connID false, ⟨.invalidCredentials, ""⟩)
  | some m =>
      if m.userName = [] ∧ m.password = [] then
        (setAuthed auth connID false, ⟨.success, ""⟩)
      else
        match handleBind unicode baseDN backend m.userName m.password with
        | .error .connect =>
            (setAuthed auth connID false, ⟨.operationsError, "internal proxy error"⟩)
        | .ok (some _) => (setAuthed auth connID true, ⟨.success, ""⟩)
        | .ok none => (setAuthed auth connID false, ⟨.invalidCredentials, ""⟩)

/-- The outcome of a search: the request sent upstream, the entries written back
and the final response. -/
structure Relay where
  relayed : Option SearchMessage
  entries : List Entry
  response : Response

/-- The handler made by `makeSearchHandler`. -/
def searchHandler (auth : Authed) (connID : ℕ) (message : Option SearchMessage)
    (upstream : Upstream) : Relay :=
  if ¬ isAuthed auth connID then
    ⟨none, [], ⟨.insufficientAccessRights, "bind required before search"⟩⟩
  else
    match message with
    | none => ⟨none, [], ⟨.operationsError, ""⟩⟩
    | some m =>
        if ¬ upstream.dials then
          ⟨none, [], ⟨.unavailable, "upstream LDAP unavailable"⟩⟩
        else if ¬ upstream.adminBind then
          ⟨none, [], ⟨.operationsError, "upstream bind failed"⟩⟩
        else
          match upstream.search m with
          | none => ⟨some m, [], ⟨.operationsError, "upstream search failed"⟩⟩
          | some entries => ⟨some m, entries, ⟨.success, ""⟩⟩

/-- The handler made by `makeDefaultHandler`. -/
def defaultHandler : Response :=
  ⟨.unwillingToPerform, "operation not supported by proxy"⟩

/-! ## Runs -/

/-- What the listener meets, in the order in which the handlers use the map.  A
bind stands where it completes. -/
inductive Event where
  | bind (connID : ℕ) (message : Option BindMessage) (backend : Backend)
  | search (connID : ℕ) (message : Option SearchMessage) (upstream : Upstream)
  | unbind (connID : ℕ)
  | close (connID : ℕ)
  | unsupported (connID : ℕ)

/-- The map after an event. -/
def step (auth : Authed) : Event → Authed
  | .bind connID message backend =>
      (bindHandler unicode baseDN auth connID message backend).1
  | .close connID => forget auth connID
  | .search _ _ _ | .unbind _ | .unsupported _ => auth

def after (events : List Event) : Authed :=
  events.foldl (step unicode baseDN) newConnAuth

/-! ## What the flag stands for -/

/-- A bind that checked a credential and found it good. -/
structure Succeeds (message : Option BindMessage) (backend : Backend) (m : BindMessage)
    (checked : Checked) : Prop where
  simple : message = some m
  named : ¬ (m.userName = [] ∧ m.password = [])
  accepted : handleBind unicode baseDN backend m.userName m.password = .ok (some checked)

/-- Does the event end the authorization of a connection, or renew it. -/
def Event.settles (connID : ℕ) : Event → Bool
  | bind id _ _ | close id => id == connID
  | _ => false

/-- The last of these events that settles the connection is a successful bind. -/
def LastBindSucceeds (connID : ℕ) (events : List Event) (m : BindMessage)
    (backend : Backend) (checked : Checked) : Prop :=
  ∃ earlier message later, events = earlier ++ .bind connID message backend :: later ∧
    (∀ event ∈ later, ¬ event.settles connID) ∧
    Succeeds unicode baseDN message backend m checked

variable {unicode baseDN}

theorem isAuthed_bindHandler_self {auth : Authed} {connID : ℕ}
    {message : Option BindMessage} {backend : Backend} :
    isAuthed (bindHandler unicode baseDN auth connID message backend).1 connID ↔
      ∃ m checked, Succeeds unicode baseDN message backend m checked := by
  constructor
  · intro hauthed
    unfold bindHandler at hauthed
    cases message with
    | none => simp at hauthed
    | some m =>
        by_cases hanonymous : m.userName = [] ∧ m.password = []
        · simp [hanonymous] at hauthed
        · cases hbind : handleBind unicode baseDN backend m.userName m.password with
          | error fault => simp [hanonymous, hbind] at hauthed
          | ok result =>
              cases result with
              | none => simp [hanonymous, hbind] at hauthed
              | some checked => exact ⟨m, checked, rfl, hanonymous, hbind⟩
  · rintro ⟨m, checked, rfl, hnamed, hbind⟩
    simp [bindHandler, hnamed, hbind]

theorem isAuthed_bindHandler_other {auth : Authed} {connID other : ℕ}
    {message : Option BindMessage} {backend : Backend} (hother : other ≠ connID) :
    isAuthed (bindHandler unicode baseDN auth connID message backend).1 other =
      isAuthed auth other := by
  unfold bindHandler
  split
  · exact isAuthed_setAuthed_other hother
  · split_ifs
    · exact isAuthed_setAuthed_other hother
    · split <;> exact isAuthed_setAuthed_other hother

/-- An event that does not settle a connection leaves its flag alone. -/
theorem isAuthed_step_of_not_settles {auth : Authed} {event : Event} {connID : ℕ}
    (hevent : ¬ event.settles connID) :
    isAuthed (step unicode baseDN auth event) connID = isAuthed auth connID := by
  cases event with
  | bind id message backend =>
      exact isAuthed_bindHandler_other fun h => hevent (by simp [Event.settles, h])
  | close id =>
      exact isAuthed_forget_other fun h => hevent (by simp [Event.settles, h])
  | search | unbind | unsupported => rfl

theorem isAuthed_foldl_of_not_settles {connID : ℕ} {events : List Event}
    (hevents : ∀ event ∈ events, ¬ event.settles connID) (auth : Authed) :
    isAuthed (events.foldl (step unicode baseDN) auth) connID = isAuthed auth connID := by
  induction events generalizing auth with
  | nil => rfl
  | cons event events ih =>
      obtain ⟨hevent, hrest⟩ := List.forall_mem_cons.mp hevents
      rw [List.foldl_cons, ih hrest, isAuthed_step_of_not_settles hevent]

theorem after_append_cons (earlier later : List Event) (event : Event) :
    after unicode baseDN (earlier ++ event :: later) =
      later.foldl (step unicode baseDN)
        (step unicode baseDN (after unicode baseDN earlier) event) := by
  simp [after]

/-- The flag of a connection is up exactly when the last bind since the connection
was last closed has succeeded. -/
theorem isAuthed_after_iff {connID : ℕ} {events : List Event} :
    isAuthed (after unicode baseDN events) connID ↔
      ∃ m backend checked, LastBindSucceeds unicode baseDN connID events m backend checked := by
  constructor
  · induction events using List.reverseRecOn with
    | nil => intro h; simp [after] at h
    | append_singleton events event ih =>
        intro hauthed
        have hsplit : events ++ [event] = events ++ event :: [] := rfl
        rw [hsplit, after_append_cons, List.foldl_nil] at hauthed
        by_cases hevent : event.settles connID
        · cases event with
          | bind id message backend =>
              obtain rfl : id = connID := by simpa [Event.settles] using hevent
              obtain ⟨m, checked, hsucceeds⟩ := isAuthed_bindHandler_self.mp hauthed
              exact ⟨m, backend, checked, events, message, [], rfl, by simp, hsucceeds⟩
          | close id =>
              obtain rfl : id = connID := by simpa [Event.settles] using hevent
              simp [step] at hauthed
          | search | unbind | unsupported => simp [Event.settles] at hevent
        · rw [isAuthed_step_of_not_settles hevent] at hauthed
          obtain ⟨m, backend, checked, earlier, message, later, rfl, hlater, hsucceeds⟩ :=
            ih hauthed
          refine ⟨m, backend, checked, earlier, message, later ++ [event], by simp, ?_,
            hsucceeds⟩
          intro last hlast
          rcases List.mem_append.mp hlast with hlast | hlast
          · exact hlater last hlast
          · rwa [List.mem_singleton.mp hlast]
  · rintro ⟨m, backend, checked, earlier, message, later, rfl, hlater, hsucceeds⟩
    rw [after_append_cons, isAuthed_foldl_of_not_settles hlater]
    exact isAuthed_bindHandler_self.mpr ⟨m, checked, hsucceeds⟩

/-- Nothing is relayed for a connection whose flag is down. -/
theorem authed_of_relayed {auth : Authed} {connID : ℕ} {message : Option SearchMessage}
    {upstream : Upstream} {sent : SearchMessage}
    (hrelayed : (searchHandler auth connID message upstream).relayed = some sent) :
    isAuthed auth connID := by
  by_contra hauthed
  simp [searchHandler, hauthed] at hrelayed

/-! ## The gate -/

/-- Every bind of the run is answered by an LLDAP that accepts only these credentials. -/
def Event.AcceptsOnly (credentials : GoString → GoString → Prop) : Event → Prop
  | bind _ _ backend =>
      ∀ bindDN password, backend.accepts bindDN password → credentials bindDN password
  | _ => True

/-- The bind is malformed, anonymous, in error or refused. -/
def Withdraws (unicode : Unicode) (baseDN : GoString) (message : Option BindMessage)
    (backend : Backend) : Prop :=
  match message with
  | none => True
  | some m => m.userName = [] ∧ m.password = [] ∨
      handleBind unicode baseDN backend m.userName m.password = .error .connect ∨
      handleBind unicode baseDN backend m.userName m.password = .ok none

theorem not_succeeds_of_withdraws {message : Option BindMessage} {backend : Backend}
    (hwithdraws : Withdraws unicode baseDN message backend) (m : BindMessage)
    (checked : Checked) : ¬ Succeeds unicode baseDN message backend m checked := by
  rintro ⟨rfl, hnamed, haccepted⟩
  rcases hwithdraws with hanonymous | herror | hrefused
  · exact hnamed hanonymous
  · rw [herror] at haccepted
    cases haccepted
  · rw [hrefused] at haccepted
    cases haccepted

/-- The credential of a successful bind has a name and a password, and was good. -/
theorem credential_of_succeeds {credentials : GoString → GoString → Prop}
    (hnamed : ∀ bindDN password, credentials bindDN password → bindDN ≠ [] ∧ password ≠ [])
    {message : Option BindMessage} {backend : Backend} {m : BindMessage} {checked : Checked}
    (hsound : ∀ bindDN password, backend.accepts bindDN password →
      credentials bindDN password)
    (hsucceeds : Succeeds unicode baseDN message backend m checked) :
    m.userName ≠ [] ∧ m.password ≠ [] ∧
      (backend.verify (extractUsername unicode m.userName baseDN) m.password ∨
        credentials m.userName m.password) := by
  rcases handleBind_eq_some hsucceeds.accepted with
    ⟨username, rfl, hname, hpassword, hverify, -⟩ | ⟨-, haccepts, -⟩
  · refine ⟨?_, hpassword, Or.inl hverify⟩
    intro hempty
    rw [hempty, extractUsername_nil] at hname
    exact hname rfl
  · have hcredential := hsound _ _ haccepts
    exact ⟨(hnamed _ _ hcredential).1, (hnamed _ _ hcredential).2, Or.inr hcredential⟩

/-- **The gate.**  In every run a search is relayed only when the last bind on its
connection since that was last closed succeeded with a good credential that is not
anonymous.  A bind that is malformed, anonymous, in error or refused, and a close,
stop every search until the connection binds again. -/
theorem search_gate (unicode : Unicode) (baseDN : GoString)
    (credentials : GoString → GoString → Prop)
    (hnamed : ∀ bindDN password, credentials bindDN password → bindDN ≠ [] ∧ password ≠ [])
    (events : List Event) (hsound : ∀ event ∈ events, event.AcceptsOnly credentials) :
    (∀ connID message upstream sent,
      (searchHandler (after unicode baseDN events) connID message upstream).relayed =
          some sent →
        ∃ m backend checked,
          LastBindSucceeds unicode baseDN connID events m backend checked ∧
          m.userName ≠ [] ∧ m.password ≠ [] ∧
          (backend.verify (extractUsername unicode m.userName baseDN) m.password ∨
            credentials m.userName m.password)) ∧
    (∀ earlier connID later message upstream,
      (∃ bound backend, events = earlier ++ .bind connID bound backend :: later ∧
          Withdraws unicode baseDN bound backend) ∨
        events = earlier ++ .close connID :: later →
      (∀ event ∈ later, ¬ event.settles connID) →
      (searchHandler (after unicode baseDN events) connID message upstream).relayed =
        none) := by
  constructor
  · intro connID message upstream sent hrelayed
    obtain ⟨m, backend, checked, hlast⟩ := isAuthed_after_iff.mp (authed_of_relayed hrelayed)
    have ⟨earlier, bound, later, hevents, _, hsucceeds⟩ := hlast
    have hbackend := hsound (.bind connID bound backend) (by rw [hevents]; simp)
    exact ⟨m, backend, checked, hlast, credential_of_succeeds hnamed hbackend hsucceeds⟩
  · intro earlier connID later message upstream hsettled hlater
    have hdown : ¬ isAuthed (after unicode baseDN events) connID := by
      rcases hsettled with ⟨bound, backend, rfl, hwithdraws⟩ | rfl
      · rw [after_append_cons, isAuthed_foldl_of_not_settles hlater]
        intro hauthed
        obtain ⟨m, checked, hsucceeds⟩ := isAuthed_bindHandler_self.mp hauthed
        exact not_succeeds_of_withdraws hwithdraws m checked hsucceeds
      · rw [after_append_cons, isAuthed_foldl_of_not_settles hlater]
        simp [step]
    simp [searchHandler, hdown]

/-- A backend that knows one client. -/
def oneClient : Backend where
  verify := fun _ _ => false
  dials := true
  accepts := fun bindDN password => bindDN = lit "uid=tak" && password = lit "secret"

/-- A client binds and searches, then another bind of its connection fails. -/
theorem search_gate_one_client :
    let good : Event := .bind 7 (some ⟨lit "uid=tak", lit "secret"⟩) oneClient
    let bad : Event := .bind 7 (some ⟨lit "uid=tak", lit "guess"⟩) oneClient
    let query : SearchMessage := ⟨lit "dc=takldap", 2, 0, 0, 0, false, lit "(uid=*)", []⟩
    let upstream : Upstream := ⟨true, true, fun _ => some []⟩
    (searchHandler (after asciiTable (lit "dc=takldap") [good]) 7 (some query)
        upstream).relayed = some query ∧
      (∃ m backend checked,
        LastBindSucceeds asciiTable (lit "dc=takldap") 7 [good] m backend checked ∧
        m.userName ≠ [] ∧ m.password ≠ []) ∧
      (searchHandler (after asciiTable (lit "dc=takldap") [good, bad]) 7 (some query)
        upstream).relayed = none := by
  intro good bad query upstream
  have hcredential : ∀ bindDN password, oneClient.accepts bindDN password →
      bindDN = lit "uid=tak" ∧ password = lit "secret" := by
    intro bindDN password haccepts
    simpa [oneClient] using haccepts
  have hnamed : ∀ bindDN password, bindDN = lit "uid=tak" ∧ password = lit "secret" →
      bindDN ≠ [] ∧ password ≠ [] := by
    rintro bindDN password ⟨rfl, rfl⟩
    decide
  have hgood := search_gate asciiTable (lit "dc=takldap")
    (fun bindDN password => bindDN = lit "uid=tak" ∧ password = lit "secret") hnamed [good]
    (by simpa [good, Event.AcceptsOnly] using hcredential)
  have hbad := search_gate asciiTable (lit "dc=takldap")
    (fun bindDN password => bindDN = lit "uid=tak" ∧ password = lit "secret") hnamed
    [good, bad] (by simpa [good, bad, Event.AcceptsOnly] using hcredential)
  have hrelayed : (searchHandler (after asciiTable (lit "dc=takldap") [good]) 7 (some query)
      upstream).relayed = some query := by decide +kernel
  refine ⟨hrelayed, ?_, ?_⟩
  · obtain ⟨m, backend, checked, hlast, hname, hpassword, -⟩ := hgood.1 7 _ _ _ hrelayed
    exact ⟨m, backend, checked, hlast, hname, hpassword⟩
  · refine hbad.2 [good] 7 [] _ _ (Or.inl ⟨_, oneClient, rfl, ?_⟩) (by simp)
    exact Or.inr (Or.inr (by decide +kernel))

end FastTAK.ConnAuth
