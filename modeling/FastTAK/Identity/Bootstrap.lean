import FastTAK.Base.Effect
import FastTAK.Identity.Lldap

/-!
# Bootstrap of the directory

The init container that makes the groups, attributes and accounts FastTAK needs.  Each step looks
for what it would make, or makes it and passes over the answer that it is there.
-/

namespace FastTAK.Identity.Bootstrap

open FastTAK.Effect FastTAK.Text

/-! ## Answers -/

/-- `"already exists" in text.lower() or "duplicate" in text.lower()`. -/
def meansTaken (text : List Char) : Bool :=
  "already exists".toList <:+: text.map Char.toLower ||
    "duplicate".toList <:+: text.map Char.toLower

/-- What LLDAP answers: `taken` are the errors for what is there already, `refused` are other
errors.  An attribute of a type accepts certain values. -/
structure Lldap where
  taken : List Char
  refused : List Char
  accepts : String → List String → Bool
  taken_means : meansTaken taken
  refused_means : meansTaken refused = false

inductive Answer (α : Type)
  | data (value : α)
  | errors (text : List Char)

/-- The directory with what only the bootstrap sees of it. -/
structure Server where
  dir : Directory
  emails : List (String × String)
  schemas : List (String × String)
  passwords : AList fun _ : String => ℕ × String

namespace Server

/-- A request about accounts and groups. -/
def onDirectory {α : Type} (lldap : Lldap) (request : Directory → Directory.Reply α × Directory)
    (s : Server) : Answer α × Server :=
  let result := request s.dir
  match result.1 with
  | .data value => (.data value, { s with dir := result.2 })
  | .duplicate => (.errors lldap.taken, { s with dir := result.2 })
  | .errors => (.errors lldap.refused, { s with dir := result.2 })

/-- `groups { id displayName }`. -/
def groups (s : Server) : Answer (List (ℤ × String)) × Server := (.data s.dir.groupNames, s)

/-- `user(userId: $id)`. -/
def user (lldap : Lldap) (id : String) (s : Server) : Answer Directory.UserView × Server :=
  match s.dir.user id with
  | some view => (.data view, s)
  | none => (.errors lldap.refused, s)

/-- `createUser`.  An email belongs to one account. -/
def createUser (lldap : Lldap) (id displayName email : String) (s : Server) :
    Answer String × Server :=
  if id ∈ s.dir.accounts ∨ email ∈ s.emails.map Prod.snd then (.errors lldap.taken, s)
  else
    (.data id,
      { s with dir := (s.dir.createUser id displayName).2, emails := (id, email) :: s.emails })

/-- `addUserAttribute`. -/
def addUserAttribute (lldap : Lldap) (name type : String) (s : Server) : Answer Unit × Server :=
  if name ∈ s.schemas.map Prod.fst then (.errors lldap.taken, s)
  else (.data (), { s with schemas := (name, type) :: s.schemas })

/-- `updateUser` with one attribute to insert. -/
def updateUser (lldap : Lldap) (id name value : String) (s : Server) : Answer Unit × Server :=
  if (s.schemas.lookup name).any (lldap.accepts · [value]) then
    s.onDirectory lldap (Directory.updateUser id none [(name, [value])])
  else (.errors lldap.refused, s)

/-- `addUserToGroup`. -/
def addUserToGroup (lldap : Lldap) (id : String) (group : ℤ) (s : Server) :
    Answer Unit × Server :=
  s.onDirectory lldap (Directory.addUserToGroup id group)

/-- `createGroup`. -/
def createGroup (lldap : Lldap) (name : String) (s : Server) : Answer ℤ × Server :=
  s.onDirectory lldap (Directory.createGroup name)

/-- What `lldap_set_password` asks for.  A hash is of a salt and a password. -/
def setPassword (id : String) (hash : ℕ × String) (s : Server) : Option Server :=
  if id ∈ s.dir.accounts then some { s with passwords := s.passwords.insert id hash } else none

end Server

/-! ## Requests -/

/-- What a run raises: a `RuntimeError`, or something else. -/
inductive Exn
  | runtime (message : List Char)
  | other

structure World where
  server : Server
  verdicts : List Verdict
  salt : ℕ

abbrev Run := Call Exn World

/-- The world after a request that took effect or did not. -/
def World.after (w : World) (server : Server) (took : Bool) : World :=
  { w with server := if took then server else w.server, verdicts := w.verdicts.tail }

/-- One request to the GraphQL endpoint. -/
def send {α : Type} (lldap : Lldap) (request : Server → Answer α × Server) : Run (Answer α) :=
  fun w =>
    let result := request w.server
    match nextVerdict w.verdicts with
    | .runs => (.ok result.1, w.after result.2 true)
    | .fails done => (.ok (.errors lldap.refused), w.after result.2 (0 < done))
    | .raises done => (.error .other, w.after result.2 (0 < done))

def errorMessage (text : List Char) : List Char := "GraphQL error: ".toList ++ text

/-- `graphql`. -/
def graphql {α : Type} (lldap : Lldap) (request : Server → Answer α × Server) : Run (Option α) := do
  match ← send lldap request with
  | .data value => return some value
  | .errors text =>
      if meansTaken text then return none else Call.raise (.runtime (errorMessage text))

/-- `except RuntimeError`. -/
def exceptRuntime {α : Type} (run : Run α) (handler : List Char → Run α) : Run α :=
  Call.tryExcept run fun e =>
    match e with
    | .runtime message => handler message
    | .other => Call.raise .other

/-- One attempt of `lldap_login`. -/
def logIn (lldap : Lldap) : Run Unit := do
  match ← send lldap fun s => (.data (), s) with
  | .data () => return ()
  | .errors _ => Call.raise .other

/-- `lldap_login`, with the attempts that are left. -/
def lldapLogin (lldap : Lldap) : ℕ → Run Unit
  | 0 => Call.raise .other
  | n + 1 => Call.tryExcept (logIn lldap) fun _ => lldapLogin lldap n

/-! ## Steps -/

/-- `ensure_group`. -/
def ensureGroup (lldap : Lldap) (name : String) : Run ℤ := do
  let listed ← graphql lldap Server.groups
  match (listed.getD []).find? fun group => group.2 = name with
  | some group => return group.1
  | none =>
      match ← graphql lldap (Server.createGroup lldap name) with
      | some id => return id
      | none => Call.raise .other

/-- `ensure_user`. -/
def ensureUser (lldap : Lldap) (username displayName : String) : Run String := do
  let found ← exceptRuntime (graphql lldap (Server.user lldap username)) fun _ => return none
  match found with
  | some view => return view.id
  | none => do
      let created ← graphql lldap
        (Server.createUser lldap username displayName (username ++ "@dummy.example.com"))
      return created.getD username

/-- `set_password`. -/
def setPassword (username password : String) : Run Unit := fun w =>
  match Server.setPassword username (w.salt, password) w.server, nextVerdict w.verdicts with
  | some server, .runs => (.ok (), w.after server true)
  | some server, .fails done => (.error (.runtime []), w.after server (0 < done))
  | some server, .raises done => (.error .other, w.after server (0 < done))
  | none, _ => (.error (.runtime []), w.after w.server true)

/-- `add_to_group`. -/
def addToGroup (lldap : Lldap) (username : String) (group : ℤ) : Run Unit := do
  let _ ← graphql lldap (Server.addUserToGroup lldap username group)

/-- `set_user_attribute`. -/
def setUserAttribute (lldap : Lldap) (username name value : String) : Run Unit := do
  let _ ← graphql lldap (Server.updateUser lldap username name value)

def customAttributes : List (String × String) :=
  [("fastak_expires", "INTEGER"), ("fastak_certs_revoked", "STRING"), ("is_active", "STRING"),
    ("fastak_user_type", "STRING")]

/-- The loop body of `ensure_custom_attributes`. -/
def ensureAttribute (lldap : Lldap) (schema : String × String) : Run Unit :=
  exceptRuntime (do let _ ← graphql lldap (Server.addUserAttribute lldap schema.1 schema.2))
    fun message => if meansTaken message then pure () else Call.raise (.runtime message)

def ensureCustomAttributes (lldap : Lldap) : Run Unit :=
  Call.forList (ensureAttribute lldap) customAttributes

/-! ## Settings -/

/-- `_group_from_env`. -/
def groupFromEnv (value : Option String) : String :=
  let name := String.ofList (strip (value.getD "monitor_admin").toList)
  if name = "" then "monitor_admin" else name

structure Config where
  adminGroup : String
  backupAdminGroup : String
  webadminPass : String

/-- The settings of an environment. -/
def Config.ofEnv (env : String → Option String) : Config where
  adminGroup := groupFromEnv (env "ADMIN_GROUP")
  backupAdminGroup := groupFromEnv (env "BACKUP_ADMIN_GROUP")
  webadminPass := String.ofList (strip ((env "TAK_WEBADMIN_PASSWORD").getD "").toList)

/-- `GATE_GROUPS`. -/
def Config.gateGroups (config : Config) : List String :=
  [config.adminGroup, config.backupAdminGroup].eraseDups

/-- `DEFAULT_GROUPS`. -/
def Config.defaultGroups (config : Config) : List String := "tak_ROLE_ADMIN" :: config.gateGroups

def serviceAccounts : List String := ["svc_fasttakapi"]

/-! ## The run -/

/-- `group_ids[name]`, where the last entry of a name counts. -/
def groupId (groupIds : List (String × ℤ)) (name : String) : Run ℤ :=
  match groupIds.reverse.lookup name with
  | some id => pure id
  | none => Call.raise .other

def joinGroup (lldap : Lldap) (groupIds : List (String × ℤ)) (username name : String) :
    Run Unit := do
  addToGroup lldap username (← groupId groupIds name)

/-- The steps for `webadmin`, whose id is `username`. -/
def joinGroups (lldap : Lldap) (config : Config) (groupIds : List (String × ℤ))
    (username : String) : Run Unit := do
  setPassword "webadmin" config.webadminPass
  joinGroup lldap groupIds username "tak_ROLE_ADMIN"
  Call.forList (joinGroup lldap groupIds username) config.gateGroups
  setUserAttribute lldap "webadmin" "fastak_user_type" "user"

def ensureWebadmin (lldap : Lldap) (config : Config) (groupIds : List (String × ℤ)) : Run Unit :=
  if config.webadminPass ≠ "" then do
    let webadmin ← ensureUser lldap "webadmin" "Web Admin"
    joinGroups lldap config groupIds webadmin
  else pure ()

/-- `main` after the groups. -/
def ensureAccounts (lldap : Lldap) (config : Config) (groupIds : List (String × ℤ)) : Run Unit := do
  ensureWebadmin lldap config groupIds
  Call.forList (fun name => do let _ ← ensureUser lldap name name) serviceAccounts
  setUserAttribute lldap "svc_fasttakapi" "fastak_user_type" "svc_admin"

/-- The ids of the groups, with their names. -/
def ensureGroups (lldap : Lldap) (config : Config) : Run (List (String × ℤ)) :=
  Call.mapList (fun name => do return (name, ← ensureGroup lldap name)) config.defaultGroups

/-- `main`. -/
def main (lldap : Lldap) (config : Config) : Run Unit := do
  lldapLogin lldap 60
  ensureCustomAttributes lldap
  let groupIds ← ensureGroups lldap config
  ensureAccounts lldap config groupIds

end FastTAK.Identity.Bootstrap
