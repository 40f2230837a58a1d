import FastTAK.Api.World

/-!
# Users and groups

The handlers of `/api/users` and `/api/groups`.
-/

namespace FastTAK.Api

open FastTAK.Effect FastTAK.Effect.Prog FastTAK.Certs FastTAK.Identity FastTAK.Naming

variable {settings : Settings}

/-- The user of the id, or a 404. -/
def requireUser (userId : ℤ) : Handler settings UserRecord := do
  match ← identity (getUser .users userId) with
  | some user => return user
  | none => raise (.http 404 "User not found")

/-! ## Users -/

/-- `GET /api/users`. -/
def listUsers (search : Option String) (includeCerts : Bool) (page pageSize : ℕ) :
    Handler settings Response := do
  let users ← identity (Identity.listUsers .users search)
  let pageUsers := (users.drop ((page - 1) * pageSize)).take pageSize
  let shown ← mapList (fun user : UserRecord =>
    if includeCerts then do
      let certs ← takCerts user.username
      return (user, certs)
    else return (user, [])) pageUsers
  return .users shown users.length

/-- `CreateUserRequest`. -/
structure CreateUserRequest where
  username : String
  name : String
  ttlHours : Option ℤ
  groups : List String

/-- `POST /api/users`. -/
def createUser (body : CreateUserRequest) : Handler settings Response := do
  if ¬ acceptsUsername body.username ∨ body.groups = [] then unprocessable
  else
    requireGroups body.groups
    let user ← identity (Identity.createUser .users body.username body.name body.ttlHours
      body.groups "user")
    return .user user []

/-- `GET /api/users/{user_id}`. -/
def getUser (userId : ℤ) : Handler settings Response := do
  let user ← requireUser userId
  let certs ← takCerts user.username
  return .user user certs

/-- `PATCH /api/users/{user_id}`. -/
def updateUser (userId : ℤ) (body : UserChanges) : Handler settings Response := do
  let _ ← requireUser userId
  let user ← identity (Identity.updateUser .users userId body)
  return .updated user

/-- The deactivation and revocation that both delete handlers share. -/
def deactivateAndRevoke (client : Client) (userId : ℤ) (username : String) :
    Handler settings Unit := do
  identity (deactivateUser client userId)
  if settings.takConfigured then
    let allRevoked ← revokeAll username
    if allRevoked then identity (markCertsRevoked client userId)

/-- `DELETE /api/users/{user_id}`. -/
def deleteUser (userId : ℤ) : Handler settings Response := do
  let user ← requireUser userId
  deactivateAndRevoke .users userId user.username
  return .deleted user.username

/-- `POST /api/users/{user_id}/password`. -/
def setPassword (userId : ℤ) (password : String) : Handler settings Response := do
  if password = "" then unprocessable
  else
    let user ← requireUser userId
    if ¬ user.isActive then raise (.http 400 "Cannot set password for deactivated user")
    else
      identity (Identity.setPassword .users userId)
      return .success

/-- `POST /api/users/{user_id}/enroll`.  The URL is made of the token, the server
address and the username. -/
def enrollUser (userId : ℤ) : Handler settings Response := do
  let user ← requireUser userId
  if ¬ user.isActive then raise (.http 400 "Cannot enroll deactivated user")
  else
    let (token, expiresAt) ← identity (getOrCreateEnrollmentToken .users userId
      settings.enrollmentTokenTtlMinutes settings.enrollmentTokenOneTime)
    return .enrollment user.username token expiresAt

/-! ## Certificates -/

/-- `GET /api/users/{user_id}/certs`: what is merged, the files and the entries of
certadmin. -/
def listUserCerts (userId : ℤ) (readable : Bool) : Handler settings Response := do
  let user ← requireUser userId
  let takCerts ← takCerts user.username
  let onDisk ← certs (Call.read (scanBundles readable user.username))
  return .certs onDisk takCerts

/-- The validity of a new certificate: at most a year, and not past the expiry of
the user. -/
def validityDaysUntil (expires : Option ℤ) (now : ℚ) : Except Exn ℕ :=
  match expires with
  | none => .ok 365
  | some expires =>
      let remainingSeconds := (expires : ℚ) - now
      if remainingSeconds ≤ 0 then .error (.http 400 "User has already expired")
      else .ok (min 365 (max (pyTrunc (remainingSeconds / 86400)) 1)).toNat

/-- `POST /api/users/{user_id}/certs/generate`. -/
def generateUserCert (userId : ℤ) (name : String) : Handler settings Response := do
  if ¬ acceptsCertName name then unprocessable
  else
    let user ← requireUser userId
    if ¬ user.isActive then
      raise (.http 400 "Cannot generate cert for deactivated user")
    else
      let stem := userStem user.username name
      let taken ← certs (Call.read fun s => s.hasFile (stem ++ ".p12"))
      if taken then
        raise (.http 409 ("Certificate '" ++ name ++ "' already exists for this user"))
      else
        let now ← atomic (Call.read fun w => w.identity.now)
        match validityDaysUntil user.expires now with
        | .error e => raise e
        | .ok validityDays => do
            let result ← certs (generateClientCert (.user user.username name) stem
              validityDays (some user.username))
            if ¬ result.success then
              raise (.http 500 ("Cert generation failed: " ++ result.error))
            else return .generated name (stem ++ ".p12") validityDays

/-- `POST /api/users/{user_id}/certs/revoke`. -/
def revokeUserCert (userId : ℤ) (certId : Option ℤ) (certName : Option String) :
    Handler settings Response := do
  let user ← requireUser userId
  match certId, certName with
  | some certId, _ =>
      if ¬ settings.takConfigured then raise (.http 503 "TAK Server not configured")
      else
        let found ← takCerts user.username
        match found.find? (·.id == certId) with
        | none => raise (.http 404 "Certificate not found")
        | some cert =>
            match cert.certificate with
            | none => raise (.http 500 "Cannot revoke: cert PEM not available from TAK Server")
            | some content => do
                let result ← certs (revokeCertByPem content)
                if ¬ result.success then
                  raise (.http 500 ("CRL revocation failed: " ++ result.error))
                else
                  let _ ← certs (revokeCert certId)
                  let _ ← identity (deleteEnrollmentTokens .users userId)
                  return .success
  | none, some certName => do
      let result ← certs (revokeCertByName (userStem user.username certName))
      if ¬ result.success then
        raise (.http 500 ("Revocation failed: " ++ result.error))
      else
        let _ ← identity (deleteEnrollmentTokens .users userId)
        return .success
  | none, none => raise (.http 400 "Provide either cert_id or cert_name")

/-- `GET /api/users/{user_id}/certs/download/{cert_name}`. -/
def downloadUserCert (userId : ℤ) (certName : String) (readable : Bool) :
    Handler settings Response := do
  if ¬ matchesName certName then raise (.http 400 "Invalid certificate name")
  else
    let user ← requireUser userId
    let bundle ← certs fun s =>
      (Certs.downloadUserCert readable user.username certName s, s)
    return .file bundle

/-! ## Groups -/

/-- `GET /api/groups`. -/
def listGroups : Handler settings Response := do
  let groups ← identity Identity.listGroups
  return .groups groups

/-- `POST /api/groups`. -/
def createGroup (name : String) : Handler settings Response := do
  let (id, name) ← identity (Identity.createGroup name)
  return .group id name []

/-- `GET /api/groups/{group_id}`. -/
def getGroup (groupId : String) : Handler settings Response := do
  match ← identity (Identity.getGroup .users groupId) with
  | some (id, name, members) => return .group id name members
  | none => raise (.http 404 "Group not found")

/-- `DELETE /api/groups/{group_id}`. -/
def deleteGroup (groupId : String) : Handler settings Response := do
  match ← identity (Identity.getGroup .users groupId) with
  | some _ => do
      identity (Identity.deleteGroup groupId)
      return .success
  | none => raise (.http 404 "Group not found")

/-- `PUT /api/users/{user_id}/groups`. -/
def setUserGroups (userId : ℤ) (groups : List String) : Handler settings Response := do
  let user ← requireUser userId
  let userType := user.userType.getD "user"
  if userType = "svc_admin" then
    raise (.http 400 "Admin mode service accounts cannot have groups")
  else if (userType = "user" ∨ userType = "svc_data") ∧ groups = [] then
    raise (.http 400 "Users require at least one group")
  else
    if groups ≠ [] then requireGroups groups
    identity (Identity.setUserGroups .users userId groups)
    return .success

end FastTAK.Api
