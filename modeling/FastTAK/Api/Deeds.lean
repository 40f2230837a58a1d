import FastTAK.Api.Tolerant
import FastTAK.Certs.RevocationSpec
import FastTAK.Identity.ClientSpec

/-!
# What a request can do

The changes a request may make to the state, one constructor for each kind, with
what the request determines about them.  Every handler does nothing else,
whatever fails and whatever else runs beside it, so that an invariant has to be
checked once for each kind of change.
-/

namespace FastTAK.Api

open FastTAK.Effect FastTAK.Effect.Prog FastTAK.Certs FastTAK.Identity FastTAK.Naming
open FastTAK.Proxy

variable {settings : Settings} {α : Type}

/-! ## Kinds of changes -/

/-- The mutations of the directory a request may send. -/
inductive Sends (settings : Settings) (request : Request) : (Directory → Directory) → Prop
  | createAccount (username name : String) (hname : request.createdName = some username) :
      Sends settings request fun dir => (Directory.createUser username name dir).2
  | setInitial (username : String) (expires : Option ℤ) (userType : String)
      (hname : request.createdName = some username) :
      Sends settings request fun dir => (Directory.updateUser username none
        (buildCustomAttributes (initialAttributes expires userType)) dir).2
  | change (username : String) (changes : UserChanges) (expires : Option ℤ)
      (existing : Attributes)
      (hrequest : request = .updateUser (settings.numericId username) changes) :
      Sends settings request fun dir => (Directory.updateUser username changes.name
        (buildCustomAttributes (existing.merge (attributesUpdate changes expires)) ++
          (attributesUpdate changes expires).cleared) dir).2
  | rename (username : String) (name : Option String) :
      Sends settings request fun dir => (Directory.updateUser username name [] dir).2
  | deactivate (username : String) :
      Sends settings request fun dir => (Directory.updateUser username none
        (buildCustomAttributes { Attributes.none with isActive := some false }) dir).2
  | mark (username : String) (existing : Attributes) :
      Sends settings request fun dir => (Directory.updateUser username none
        (buildCustomAttributes { existing with certsRevoked := some true }) dir).2
  | createGroup (name : String) :
      Sends settings request fun dir => (Directory.createGroup name dir).2
  | deleteGroup (gid : ℤ) :
      Sends settings request fun dir => (Directory.deleteGroup gid dir).2
  | addMember (username : String) (gid : ℤ) :
      Sends settings request fun dir => (Directory.addUserToGroup username gid dir).2
  | removeMember (username : String) (gid : ℤ) :
      Sends settings request fun dir => (Directory.removeUserFromGroup username gid dir).2

/-- A change of the directory, of the token store, or of queues and caches. -/
inductive IdDeed (request : Request) :
    IdentityState settings → IdentityState settings → Prop
  | quiet {s s' : IdentityState settings} (h : Quiet s s') : IdDeed request s s'
  | mutation {m : Directory → Directory} (hm : Sends settings request m)
      (s : IdentityState settings) : IdDeed request s (withDirectory s (m s.directory))
  | createToken (username : String) (s : IdentityState settings) :
      IdDeed request s (createToken username settings.enrollmentTokenTtlMinutes
        settings.enrollmentTokenOneTime s).2
  | deleteTokens (username : String) (s : IdentityState settings) :
      IdDeed request s (deleteTokens username s).2

abbrev IdDeeds (request : Request) :
    IdentityState settings → IdentityState settings → Prop :=
  Relation.ReflTransGen (IdDeed request)

instance (request : Request) : Identity.Tolerant (@IdDeeds settings request) where
  refl _ := .refl
  trans _ _ _ := .trans
  quiet _ _ h := .single (.quiet h)

/-- The stems a request may generate files for, and for whom. -/
inductive GeneratesFor (settings : Settings) (request : Request) : String → Origin → Prop
  | user (username name : String)
      (hrequest : request = .generateUserCert (settings.numericId username) name)
      (hname : acceptsCertName name) :
      GeneratesFor settings request (userStem username name) (.user username name)
  | service (body : CreateServiceAccountRequest)
      (hrequest : request = .createServiceAccount body) (hbody : body.accepted) :
      GeneratesFor settings request (serviceUsername body.name)
        (.service (serviceUsername body.name))

/-- A change of the state. -/
inductive Deed (request : Request) : World settings → World settings → Prop
  | identity {w : World settings} {s : IdentityState settings}
      (h : IdDeed request w.identity s) : Deed request w (w.withIdentity s)
  | revokes {w : World settings} {s : Pki} (h : Revokes w.pki s) :
      Deed request w (w.withPki s)
  | revokeAll (username : String) (w : World settings) :
      Deed request w ((revokeAll username).run w).2
  | flagCertadmin (certId : ℤ) (w : World settings) :
      Deed request w (w.withPki (revokeCert certId w.pki).2)
  | generates {w : World settings} {s : Pki} {stem : String} {origin : Origin}
      (hfor : GeneratesFor settings request stem origin)
      (h : Generates stem origin w.pki s) : Deed request w (w.withPki s)

abbrev Deeds (request : Request) : World settings → World settings → Prop :=
  Relation.ReflTransGen (Deed request)

instance (request : Request) : Tolerant (@Deeds settings request) where
  refl _ := .refl
  trans _ _ _ := .trans
  quiet _ _ hquiet := .single (.identity (.quiet hquiet))

/-- A handler that does nothing but deeds of the request. -/
abbrev Does (request : Request) (handler : Handler settings α) : Prop :=
  Respects (Deeds request) (fun _ => True) handler

/-- What holds of every deed holds of every request of a handler that does nothing else. -/
theorem Does.respects {R : World settings → World settings → Prop} [IsPreorder _ R]
    {request : Request} {handler : Handler settings α} (hdoes : Does request handler)
    (hdeed : ∀ w w', Deed request w w' → R w w') : Respects R (fun _ => True) handler := by
  apply hdoes.mono _ fun _ h => h
  intro w w' hdeeds
  induction hdeeds with
  | refl => exact refl_of R w
  | tail _ hlast ih => exact trans_of R ih (hdeed _ _ hlast)

theorem stepOf_of_sends {request : Request}
    {m : Directory → Directory.Reply α × Directory}
    (hm : Sends settings request fun dir => (m dir).2) :
    StepOf (@IdDeeds settings request) m :=
  fun s => .single (.mutation hm s)

/-- What an operation of the client does is done to the whole state. -/
theorem respects_identity {request : Request} {P : α → Prop} {program : IdProg settings α}
    (hprogram : Respects (IdDeeds request) P program) :
    Respects (Deeds request) P (identity program) := by
  refine hprogram.onPart fun w s hdeeds => ?_
  induction hdeeds with
  | refl => exact .refl
  | tail _ hlast ih => exact ih.tail (.identity hlast)

theorem respects_certs {request : Request} {call : Call Exn Pki α}
    (hcall : ∀ w : World settings, Deed request w (w.withPki (call w.pki).2)) :
    Does request (certs call : Handler settings _) :=
  respects_atomic fun w => ⟨.single (hcall w), fun _ _ => trivial⟩

/-- A certificate operation that only revokes. -/
theorem respects_certs_of_keeps {request : Request} {call : Call Exn Pki α}
    (hcall : Call.Keeps Revokes call) :
    Does request (certs call : Handler settings _) :=
  respects_certs fun w => .revokes (hcall w.pki)

/-- A certificate operation that only reads. -/
theorem respects_certs_read {request : Request} (f : Pki → Except Exn α) :
    Does request (certs fun s => (f s, s) : Handler settings _) :=
  respects_certs_of_keeps fun s => refl_of Revokes s

theorem respects_revokeAll (request : Request) (username : String) :
    Does request (revokeAll username : Handler settings _) :=
  respects_atomic fun w => ⟨.single (.revokeAll username w), fun _ _ => trivial⟩

/-! ## Parts of handlers -/

section Parts

variable (request : Request)

theorem respects_takCerts (username : String) :
    Does request (takCerts username : Handler settings _) := by
  unfold takCerts
  split_ifs
  · exact respects_certs_of_keeps (keeps_listUserCerts username)
  · exact respects_pure trivial

theorem respects_requireGroups (groups : List String) :
    Does request (requireGroups groups : Handler settings _) := by
  refine respects_bind (respects_identity respects_listGroups) fun existing _ => ?_
  dsimp only
  split_ifs
  · exact respects_raise _
  · exact respects_pure trivial

theorem respects_deactivation (client : Client) (userId : ℤ) :
    Does request (identity (deactivateUser client userId) : Handler settings _) :=
  respects_identity (respects_deactivateUser fun v _ => stepOf_of_sends (.deactivate v))

theorem respects_marking (client : Client) (userId : ℤ) :
    Does request (identity (markCertsRevoked client userId) : Handler settings _) :=
  respects_identity (respects_markCertsRevoked fun v existing _ =>
    stepOf_of_sends (.mark v existing))

theorem respects_deactivateAndRevoke (client : Client) (userId : ℤ) (username : String) :
    Does request (deactivateAndRevoke client userId username : Handler settings _) :=
  respects_deactivateAndRevoke_of (respects_deactivation request) (respects_marking request)
    (respects_revokeAll request) client userId username

theorem respects_rollback (userId : ℤ) :
    Does request (rollback userId : Handler settings _) :=
  respects_tryExcept (respects_deactivation request _ userId) fun _ => respects_pure trivial

theorem respects_setGroups (client : Client) (userId : ℤ) (groups : List String) :
    Does request (identity (Identity.setUserGroups client userId groups) : Handler settings _) :=
  respects_identity (respects_setUserGroups
    (fun v gid => stepOf_of_sends (.removeMember v gid))
    fun v gid => stepOf_of_sends (.addMember v gid))

theorem respects_deleteEnrollment (client : Client) (userId : ℤ) :
    Does request (identity (deleteEnrollmentTokens client userId) : Handler settings _) :=
  respects_identity (respects_deleteEnrollmentTokens fun v _ s =>
    .single (.deleteTokens v s))

theorem respects_newUser {client : Client} {username : String}
    (hname : request.createdName = some username) (name : String) (ttlHours : Option ℤ)
    (groups : List String) (userType : String) :
    Respects (Deeds request) (fun user => Proper settings user ∧ user.username = username)
      (identity (Identity.createUser client username name ttlHours groups userType) :
        Handler settings UserRecord) := by
  refine respects_identity (respects_createUser ?_ ?_ ?_)
  · exact stepOf_of_sends (.createAccount username name hname)
  · exact fun expires => stepOf_of_sends (.setInitial username expires userType hname)
  · exact respects_ensureUserGroups (fun g _ => stepOf_of_sends (.createGroup _))
      fun gid => stepOf_of_sends (.addMember username gid)

end Parts

/-! ## Handlers -/

theorem respects_listUsersHandler (request : Request) (search : Option String)
    (includeCerts : Bool) (page pageSize : ℕ) :
    Does request (Api.listUsers search includeCerts page pageSize : Handler settings _) := by
  refine respects_bind (respects_identity (respects_listUsers .users search)) ?_
  intro users _
  refine respects_bind (P := fun _ => True) ?_ fun _ _ => respects_pure trivial
  refine (respects_mapList (Q := fun _ => True) _ fun user _ => ?_).mono
    (fun _ _ h => h) fun _ _ => trivial
  split_ifs
  · exact respects_bind (respects_takCerts request user.username)
      fun _ _ => respects_pure trivial
  · exact respects_pure trivial

theorem respects_createUserHandler (body : CreateUserRequest) :
    Does (.createUser body) (Api.createUser body : Handler settings _) := by
  unfold Api.createUser
  split_ifs
  · exact respects_raise _
  · refine respects_bind (respects_requireGroups _ _) fun _ _ => ?_
    exact respects_bind (respects_newUser _ rfl _ _ _ _) fun _ _ => respects_pure trivial

theorem respects_updateUserHandler (userId : ℤ) (body : UserChanges) :
    Does (.updateUser userId body) (Api.updateUser userId body : Handler settings _) := by
  refine respects_bind (quiet_requireUser userId) fun _ _ => ?_
  refine respects_bind (respects_identity (respects_updateUser ?_ ?_))
    fun _ _ => respects_pure trivial
  · exact fun username _ _ _ => stepOf_of_sends (.rename username body.name)
  · rintro username expires existing rfl -
    exact stepOf_of_sends (.change username body expires existing rfl)

theorem respects_deleteUserHandler (request : Request) (userId : ℤ) :
    Does request (Api.deleteUser userId : Handler settings _) :=
  respects_deleteUser_of (respects_deactivation request) (respects_marking request)
    (respects_revokeAll request) userId

theorem respects_setPasswordHandler (request : Request) (userId : ℤ) (password : String) :
    Does request (Api.setPassword userId password : Handler settings _) := by
  unfold Api.setPassword
  split_ifs
  · exact respects_raise _
  · refine respects_bind (quiet_requireUser userId) fun user _ => ?_
    split_ifs
    · exact respects_bind (respects_identity (respects_setPassword .users userId))
        fun _ _ => respects_pure trivial
    · exact respects_raise _

theorem respects_enrollUserHandler (request : Request) (userId : ℤ) :
    Does request (Api.enrollUser userId : Handler settings _) := by
  refine respects_bind (quiet_requireUser userId) fun user _ => ?_
  split_ifs
  · refine respects_bind (respects_identity (respects_getOrCreateEnrollmentToken ?_))
      fun _ _ => respects_pure trivial
    exact fun v _ s => .single (.createToken v s)
  · exact respects_raise _

theorem respects_listUserCertsHandler (request : Request) (userId : ℤ) (readable : Bool) :
    Does request (Api.listUserCerts userId readable : Handler settings _) := by
  refine respects_bind (quiet_requireUser userId) fun user _ => ?_
  refine respects_bind (respects_takCerts request user.username) fun _ _ => ?_
  exact respects_bind (respects_certs_read _) fun _ _ => respects_pure trivial

theorem respects_generateUserCertHandler (userId : ℤ) (name : String) :
    Does (.generateUserCert userId name)
      (Api.generateUserCert userId name : Handler settings _) := by
  unfold Api.generateUserCert
  split_ifs with hname
  · refine respects_bind (quiet_requireUser userId) fun user huser => ?_
    obtain rfl := huser
    split_ifs
    · refine respects_bind (respects_certs_read _) fun taken _ => ?_
      split_ifs
      · exact respects_raise _
      · refine respects_bind (P := fun _ => True)
          (respects_atomic fun w => ⟨.refl, fun _ _ => trivial⟩) fun now _ => ?_
        cases validityDaysUntil user.expires now with
        | error e => exact respects_raise _
        | ok validityDays =>
            refine respects_bind (respects_certs fun w =>
              .generates (.user user.username name rfl hname)
                (keeps_generateClientCert validityDays _ w.pki)) fun result _ => ?_
            split_ifs
            · exact respects_pure trivial
            · exact respects_raise _
    · exact respects_raise _
  · exact respects_raise _

theorem respects_revokeUserCertHandler (request : Request) (userId : ℤ)
    (certId : Option ℤ) (certName : Option String) :
    Does request (Api.revokeUserCert userId certId certName : Handler settings _) := by
  refine respects_bind (quiet_requireUser userId) fun user _ => ?_
  have hlast : Does request (do
      let _ ← identity (deleteEnrollmentTokens .users userId)
      return Response.success : Handler settings Response) :=
    respects_bind (respects_deleteEnrollment request .users userId)
      fun _ _ => respects_pure trivial
  split
  · split_ifs
    · refine respects_bind (respects_takCerts request user.username) fun found _ => ?_
      cases found.find? (·.id == _) with
      | none => exact respects_raise _
      | some cert =>
          cases hcontent : cert.certificate with
          | none =>
              simp only [hcontent]
              exact respects_raise _
          | some content =>
              simp only [hcontent]
              refine respects_bind
                (respects_certs_of_keeps (keeps_revokeCertByPem content)) fun result _ => ?_
              split_ifs
              · exact respects_bind (respects_certs fun w => .flagCertadmin _ w)
                  fun _ _ => hlast
              · exact respects_raise _
    · exact respects_raise _
  · refine respects_bind (respects_certs_of_keeps (keeps_revokeCertByName _))
      fun result _ => ?_
    split_ifs
    · exact hlast
    · exact respects_raise _
  · exact respects_raise _

theorem respects_downloadUserCertHandler (request : Request) (userId : ℤ)
    (certName : String) (readable : Bool) :
    Does request (Api.downloadUserCert userId certName readable : Handler settings _) := by
  unfold Api.downloadUserCert
  split_ifs
  · refine respects_bind (quiet_requireUser userId) fun user _ => ?_
    exact respects_bind (respects_certs_read _) fun _ _ => respects_pure trivial
  · exact respects_raise _

theorem respects_deleteGroupHandler (request : Request) (groupId : String) :
    Does request (Api.deleteGroup groupId : Handler settings _) := by
  refine respects_bind (respects_identity (respects_getGroup .users groupId)) ?_
  intro found _
  cases found with
  | none => exact respects_raise _
  | some g =>
      exact respects_bind (respects_identity (respects_deleteGroup fun gid =>
        stepOf_of_sends (.deleteGroup gid))) fun _ _ => respects_pure trivial

theorem respects_setUserGroupsHandler (request : Request) (userId : ℤ)
    (groups : List String) :
    Does request (Api.setUserGroups userId groups : Handler settings _) := by
  refine respects_bind (quiet_requireUser userId) fun user _ => ?_
  have hlast : Does request (do
      identity (Identity.setUserGroups .users userId groups)
      return Response.success : Handler settings Response) :=
    respects_bind (respects_setGroups request .users userId groups)
      fun _ _ => respects_pure trivial
  dsimp only
  split_ifs
  · exact respects_raise _
  · exact respects_raise _
  · exact respects_bind (respects_requireGroups request groups) fun _ _ => hlast
  · exact hlast

theorem keeps_execBeside {R : Pki → Pki → Prop} [IsPreorder Pki R]
    (hdocker : ∀ s queue, R s { s with docker := queue }) : Call.Keeps R execBeside :=
  Call.keeps_tryExcept
    (Call.keeps_bind (keeps_execRun hdocker (by simp)) fun _ => Call.keeps_pure _)
    fun _ => Call.keeps_pure _

theorem keeps_noderedPems {R : Pki → Pki → Prop} [IsPreorder Pki R]
    (hdocker : ∀ s queue, R s { s with docker := queue }) (name : String) :
    Call.Keeps R (noderedPems name) := by
  unfold noderedPems
  cases validateName name with
  | some error => exact Call.keeps_pure _
  | none =>
      refine Call.keeps_bind (keeps_getTakContainer hdocker) fun missing => ?_
      cases missing with
      | some error => exact Call.keeps_pure _
      | none => exact keeps_execBeside hdocker

theorem keeps_registerAdminCert {R : Pki → Pki → Prop} [IsPreorder Pki R]
    (hdocker : ∀ s queue, R s { s with docker := queue }) :
    Call.Keeps R registerAdminCert := by
  refine Call.keeps_bind (keeps_getTakContainer hdocker) fun missing => ?_
  cases missing with
  | some error => exact Call.keeps_pure _
  | none => exact keeps_execBeside hdocker

theorem respects_equipAccount (request : Request) (mode : ServiceAccountMode)
    (user : UserRecord) (username : String) (validityDays : ℕ) :
    Does request (equipAccount mode user username validityDays :
      Handler settings Response) := by
  cases mode with
  | data =>
      exact respects_bind (respects_certs_of_keeps (keeps_noderedPems revokes_docker username))
        fun _ _ => respects_pure trivial
  | admin =>
      refine respects_bind (respects_certs_of_keeps (keeps_registerAdminCert revokes_docker))
        fun registered _ => ?_
      split_ifs
      · exact respects_pure trivial
      · exact respects_bind (respects_rollback request user.id) fun _ _ => respects_raise _

theorem respects_makeAccount {body : CreateServiceAccountRequest} (hbody : body.accepted) :
    Does (.createServiceAccount body) (makeAccount body : Handler settings Response) := by
  refine respects_bind (respects_newUser _ rfl _ _ _ _) fun user _ => ?_
  refine respects_bind (respects_certs fun w => .generates (.service body rfl hbody)
    (keeps_generateClientCert _ none w.pki)) fun generated _ => ?_
  split_ifs
  · exact respects_equipAccount _ _ _ _ _
  · exact respects_bind (respects_rollback _ user.id) fun _ _ => respects_raise _

theorem respects_createServiceAccountHandler (body : CreateServiceAccountRequest) :
    Does (.createServiceAccount body)
      (Api.createServiceAccount body : Handler settings Response) := by
  unfold Api.createServiceAccount
  by_cases hbody : body.accepted
  · rw [if_neg (not_not.mpr hbody)]
    dsimp only
    split_ifs
    · exact respects_bind (respects_requireGroups _ _) fun _ _ => respects_makeAccount hbody
    · exact respects_makeAccount hbody
  · rw [if_pos hbody]
    exact respects_raise _

section ServiceAccounts

variable (request : Request)

theorem respects_checkAccountGroups (user : UserRecord) (groups : Option (List String)) :
    Does request (checkAccountGroups user groups : Handler settings Unit) := by
  cases groups with
  | none => exact respects_pure trivial
  | some groups =>
      dsimp only [checkAccountGroups]
      split_ifs
      · exact respects_raise _
      · exact respects_raise _
      · exact respects_requireGroups request groups

theorem respects_renameAccount (accountId : ℤ) (displayName : Option String) :
    Does request (renameAccount accountId displayName : Handler settings Unit) := by
  cases displayName with
  | none => exact respects_pure trivial
  | some name =>
      refine respects_bind (respects_identity (respects_updateUser ?_ ?_))
        fun _ _ => respects_pure trivial
      · exact fun username _ _ _ => stepOf_of_sends (.rename username (some name))
      · exact fun _ _ _ _ hnone => absurd ⟨rfl, rfl⟩ hnone

theorem respects_regroupAccount (accountId : ℤ) (groups : Option (List String)) :
    Does request (regroupAccount accountId groups : Handler settings Unit) := by
  cases groups with
  | none => exact respects_pure trivial
  | some groups => exact respects_setGroups request .serviceAccounts accountId groups

theorem respects_updateServiceAccountHandler (accountId : ℤ) (displayName : Option String)
    (groups : Option (List String)) :
    Does request (Api.updateServiceAccount accountId displayName groups :
      Handler settings Response) := by
  refine respects_bind (quiet_requireAccount accountId) fun user _ => ?_
  refine respects_bind (respects_checkAccountGroups request user groups) fun _ _ => ?_
  refine respects_bind (respects_renameAccount request accountId displayName) fun _ _ => ?_
  exact respects_bind (respects_regroupAccount request accountId groups)
    fun _ _ => respects_pure trivial

theorem respects_deleteServiceAccountHandler (accountId : ℤ) :
    Does request (Api.deleteServiceAccount accountId : Handler settings Response) := by
  refine respects_bind (quiet_requireAccount accountId) fun user _ => ?_
  refine respects_bind (respects_deactivateAndRevoke request _ _ _) fun _ _ => ?_
  exact respects_bind (respects_certs_of_keeps (keeps_noderedPems revokes_docker user.username))
    fun _ _ => respects_pure trivial

theorem respects_downloadCertHandler (accountId : ℤ) (readable : Bool) :
    Does request (Api.downloadCert accountId readable : Handler settings Response) := by
  refine respects_bind (quiet_requireAccount accountId) fun user _ => ?_
  refine respects_bind (respects_certs_read _) fun found _ => ?_
  cases found with
  | none => exact respects_raise _
  | some bundle =>
      refine respects_bind (respects_certs_read _) fun isRevoked _ => ?_
      split_ifs
      · exact respects_raise _
      · exact respects_pure trivial

/-! ## The scheduler -/

theorem respects_expireUser (user : UserRecord) :
    Does request (expireUser user : Handler settings Unit) :=
  respects_expireUser_of (respects_deactivation request) (respects_marking request)
    (respects_revokeAll request) user

theorem respects_checkUserExpiry :
    Does request (Api.checkUserExpiry : Handler settings Unit) :=
  respects_checkUserExpiry_of (respects_deactivation request) (respects_marking request)
    (respects_revokeAll request)

end ServiceAccounts

/-- **What requests do.**  Whatever fails and whatever runs beside it, a request does
nothing but its deeds. -/
theorem does_handler (request : Request) :
    Does request (request.handler : Handler settings Response) := by
  cases request with
  | listUsers search includeCerts page pageSize =>
      exact respects_listUsersHandler _ search includeCerts page pageSize
  | createUser body => exact respects_createUserHandler body
  | getUser userId =>
      exact respects_bind (quiet_requireUser userId) fun user _ =>
        respects_bind (respects_takCerts _ user.username) fun _ _ => respects_pure trivial
  | updateUser userId body => exact respects_updateUserHandler userId body
  | deleteUser userId => exact respects_deleteUserHandler _ userId
  | setPassword userId password => exact respects_setPasswordHandler _ userId password
  | enrollUser userId => exact respects_enrollUserHandler _ userId
  | listUserCerts userId readable => exact respects_listUserCertsHandler _ userId readable
  | generateUserCert userId name => exact respects_generateUserCertHandler userId name
  | revokeUserCert userId certId certName =>
      exact respects_revokeUserCertHandler _ userId certId certName
  | downloadUserCert userId certName readable =>
      exact respects_downloadUserCertHandler _ userId certName readable
  | listGroups =>
      exact respects_bind (respects_identity respects_listGroups) fun _ _ =>
        respects_pure trivial
  | createGroup name =>
      exact respects_bind (respects_identity (respects_createGroup
        (stepOf_of_sends (.createGroup _)))) fun _ _ => respects_pure trivial
  | getGroup groupId =>
      refine respects_bind (respects_identity (respects_getGroup .users groupId)) ?_
      intro found _
      cases found with
      | none => exact respects_raise _
      | some g => exact respects_pure trivial
  | deleteGroup groupId => exact respects_deleteGroupHandler _ groupId
  | setUserGroups userId groups => exact respects_setUserGroupsHandler _ userId groups
  | listServiceAccounts =>
      exact respects_bind (respects_identity (respects_listUsers _ _)) fun _ _ =>
        respects_pure trivial
  | createServiceAccount body => exact respects_createServiceAccountHandler body
  | updateServiceAccount accountId displayName groups =>
      exact respects_updateServiceAccountHandler _ accountId displayName groups
  | getServiceAccount accountId =>
      exact respects_bind (quiet_requireAccount accountId) fun user _ =>
        respects_bind (respects_takCerts _ user.username) fun _ _ => respects_pure trivial
  | deleteServiceAccount accountId => exact respects_deleteServiceAccountHandler _ accountId
  | downloadCert accountId readable =>
      exact respects_downloadCertHandler _ accountId readable
  | checkUserExpiry =>
      exact respects_bind (respects_checkUserExpiry _) fun _ _ => respects_pure trivial

end FastTAK.Api
