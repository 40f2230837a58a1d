import FastTAK.Api.Users

/-!
# Service accounts and the scheduler

The handlers of `/api/service-accounts`, and the tick that deactivates users
whose lifetime is over.
-/

namespace FastTAK.Api

open FastTAK.Effect FastTAK.Effect.Prog FastTAK.Certs FastTAK.Identity FastTAK.Naming

variable {settings : Settings}

/-! ## Service accounts -/

inductive ServiceAccountMode where
  | data
  | admin
  deriving DecidableEq, Repr

/-- `CreateServiceAccountRequest`. -/
structure CreateServiceAccountRequest where
  name : String
  displayName : String
  mode : ServiceAccountMode
  groups : List String
  validityDays : Option ℕ

/-- The validators of `CreateServiceAccountRequest`. -/
def CreateServiceAccountRequest.accepted (body : CreateServiceAccountRequest) : Bool :=
  acceptsServiceName body.name &&
    (match body.mode with
    | .data => body.groups ≠ []
    | .admin => body.groups = []) &&
    match body.validityDays with
    | none => true
    | some days => 0 < days && days ≤ 3650

/-- The account of the id, or a 404. -/
def requireAccount (accountId : ℤ) : Handler settings UserRecord := do
  match ← identity (Identity.getUser .serviceAccounts accountId) with
  | some user =>
      if "svc_".toList <+: user.username.toList then return user
      else raise (.http 404 "Service account not found")
  | none => raise (.http 404 "Service account not found")

/-- `GET /api/service-accounts`. -/
def listServiceAccounts : Handler settings Response := do
  let accounts ← identity (Identity.listUsers .serviceAccounts (some "svc_"))
  return .users (accounts.map fun account => (account, [])) accounts.length

/-- The deactivation of an account whose certificate could not be made. -/
def rollback (userId : ℤ) : Handler settings Unit :=
  (identity (deactivateUser .serviceAccounts userId)).tryExcept fun _ => pure ()

/-- The type of the LLDAP user for a mode. -/
def ServiceAccountMode.userType : ServiceAccountMode → String
  | .data => "svc_data"
  | .admin => "svc_admin"

/-- The validity of the certificate without a choice. -/
def ServiceAccountMode.defaultValidity : ServiceAccountMode → ℕ
  | .data => 365
  | .admin => 730

/-- What follows the generation of the certificate of an account. -/
def equipAccount (mode : ServiceAccountMode) (user : UserRecord) (username : String)
    (validityDays : ℕ) : Handler settings Response :=
  match mode with
  | .data => do
      let _ ← certs (noderedPems username)
      return .account user validityDays
  | .admin => do
      let registered ← certs registerAdminCert
      if ¬ registered.success then
        rollback user.id
        raise (.http 500 ("Admin cert registration failed: " ++ registered.error))
      else return .account user validityDays

/-- `POST /api/service-accounts` after its checks: the LLDAP user, its certificate, and what
goes with it. -/
def makeAccount (body : CreateServiceAccountRequest) : Handler settings Response := do
  let username := serviceUsername body.name
  let validityDays := body.validityDays.getD body.mode.defaultValidity
  let user ← identity (Identity.createUser .serviceAccounts username body.displayName
    none body.groups body.mode.userType)
  let generated ← certs (generateClientCert (.service username) username validityDays
    none)
  if ¬ generated.success then
    rollback user.id
    raise (.http 500 ("Certificate generation failed: " ++ generated.error))
  else equipAccount body.mode user username validityDays

/-- `POST /api/service-accounts`. -/
def createServiceAccount (body : CreateServiceAccountRequest) :
    Handler settings Response := do
  if ¬ body.accepted then unprocessable
  else
    if body.mode = .data then requireGroups body.groups
    makeAccount body

/-- The checks of `update_service_account` on the groups, before any change. -/
def checkAccountGroups (user : UserRecord) : Option (List String) → Handler settings Unit
  | none => pure ()
  | some groups =>
      if user.userType = some "svc_admin" then
        raise (.http 400 "Admin mode service accounts cannot have groups")
      else if user.userType = some "svc_data" ∧ groups = [] then
        raise (.http 400 "Data mode service accounts require at least one group")
      else requireGroups groups

/-- The change of the display name, if one is given. -/
def renameAccount (accountId : ℤ) : Option String → Handler settings Unit
  | none => pure ()
  | some name => do
      let _ ← identity (Identity.updateUser .serviceAccounts accountId
        ⟨some name, none, none⟩)
      return ()

/-- The change of the groups, if some are given. -/
def regroupAccount (accountId : ℤ) : Option (List String) → Handler settings Unit
  | none => pure ()
  | some groups => identity (Identity.setUserGroups .serviceAccounts accountId groups)

/-- `PATCH /api/service-accounts/{account_id}`. -/
def updateServiceAccount (accountId : ℤ) (displayName : Option String)
    (groups : Option (List String)) : Handler settings Response := do
  let user ← requireAccount accountId
  checkAccountGroups user groups
  renameAccount accountId displayName
  regroupAccount accountId groups
  return .success

/-- `GET /api/service-accounts/{account_id}`. -/
def getServiceAccount (accountId : ℤ) : Handler settings Response := do
  let user ← requireAccount accountId
  let certs ← takCerts user.username
  return .user user certs

/-- `DELETE /api/service-accounts/{account_id}`. -/
def deleteServiceAccount (accountId : ℤ) : Handler settings Response := do
  let user ← requireAccount accountId
  deactivateAndRevoke .serviceAccounts accountId user.username
  let _ ← certs (noderedPems user.username)
  return .deleted user.username

/-- `GET /api/service-accounts/{account_id}/certs/download`. -/
def downloadCert (accountId : ℤ) (readable : Bool) : Handler settings Response := do
  let user ← requireAccount accountId
  match ← certs (Call.read fun s => s.file (user.username ++ ".p12")) with
  | none => raise (.http 404 "Certificate file not found")
  | some bundle => do
      let isRevoked ← certs (Call.read (isRevokedOnDisk readable user.username))
      if isRevoked then raise (.http 403 "Certificate has been revoked")
      else return .file bundle

/-! ## Expiry -/

/-- The body of the loop of `_check_user_expiry`: an exception is logged and the
next user is taken. -/
def expireUser (user : UserRecord) : Handler settings Unit :=
  tryExcept (fun _ => pure ()) do
    if user.isActive then identity (deactivateUser .scheduler user.id)
    if settings.takConfigured then
      let allRevoked ← revokeAll user.username
      if allRevoked then identity (markCertsRevoked .scheduler user.id)

/-- `_check_user_expiry()`. -/
def checkUserExpiry : Handler settings Unit := do
  let pending ← tryExcept (fun _ => pure []) (identity (getUsersPendingExpiry .scheduler))
  forList expireUser pending

/-! ## Requests -/

/-- A request to the API, or a tick of the scheduler. -/
inductive Request where
  | listUsers (search : Option String) (includeCerts : Bool) (page pageSize : ℕ)
  | createUser (body : CreateUserRequest)
  | getUser (userId : ℤ)
  | updateUser (userId : ℤ) (body : UserChanges)
  | deleteUser (userId : ℤ)
  | setPassword (userId : ℤ) (password : String)
  | enrollUser (userId : ℤ)
  | listUserCerts (userId : ℤ) (readable : Bool)
  | generateUserCert (userId : ℤ) (name : String)
  | revokeUserCert (userId : ℤ) (certId : Option ℤ) (certName : Option String)
  | downloadUserCert (userId : ℤ) (certName : String) (readable : Bool)
  | listGroups
  | createGroup (name : String)
  | getGroup (groupId : String)
  | deleteGroup (groupId : String)
  | setUserGroups (userId : ℤ) (groups : List String)
  | listServiceAccounts
  | createServiceAccount (body : CreateServiceAccountRequest)
  | updateServiceAccount (accountId : ℤ) (displayName : Option String)
      (groups : Option (List String))
  | getServiceAccount (accountId : ℤ)
  | deleteServiceAccount (accountId : ℤ)
  | downloadCert (accountId : ℤ) (readable : Bool)
  | checkUserExpiry

/-- The username of the account a request creates. -/
def Request.createdName : Request → Option String
  | .createUser body => some body.username
  | .createServiceAccount body => some (serviceUsername body.name)
  | _ => none

/-- What a request runs. -/
def Request.handler : Request → Handler settings Response
  | .listUsers search includeCerts page pageSize =>
      Api.listUsers search includeCerts page pageSize
  | .createUser body => Api.createUser body
  | .getUser userId => Api.getUser userId
  | .updateUser userId body => Api.updateUser userId body
  | .deleteUser userId => Api.deleteUser userId
  | .setPassword userId password => Api.setPassword userId password
  | .enrollUser userId => Api.enrollUser userId
  | .listUserCerts userId readable => Api.listUserCerts userId readable
  | .generateUserCert userId name => Api.generateUserCert userId name
  | .revokeUserCert userId certId certName => Api.revokeUserCert userId certId certName
  | .downloadUserCert userId certName readable =>
      Api.downloadUserCert userId certName readable
  | .listGroups => Api.listGroups
  | .createGroup name => Api.createGroup name
  | .getGroup groupId => Api.getGroup groupId
  | .deleteGroup groupId => Api.deleteGroup groupId
  | .setUserGroups userId groups => Api.setUserGroups userId groups
  | .listServiceAccounts => Api.listServiceAccounts
  | .createServiceAccount body => Api.createServiceAccount body
  | .updateServiceAccount accountId displayName groups =>
      Api.updateServiceAccount accountId displayName groups
  | .getServiceAccount accountId => Api.getServiceAccount accountId
  | .deleteServiceAccount accountId => Api.deleteServiceAccount accountId
  | .downloadCert accountId readable => Api.downloadCert accountId readable
  | .checkUserExpiry => do
      Api.checkUserExpiry
      return .success

/-- The state after a request that nothing else runs beside. -/
def Request.serve (request : Request) (w : World settings) : World settings :=
  (request.handler.run w).2

end FastTAK.Api
