import FastTAK.Api.Exn
import FastTAK.Base.Program
import FastTAK.Identity.Lldap
import FastTAK.Proxy.Tokens

/-!
# The identity client

`IdentityClient` as the code runs it: every operation is a program of GraphQL
requests to the directory and REST requests to the token store, each sent up to
three times.  A request may fail before or after it took effect.
-/

namespace FastTAK.Identity

open FastTAK.Effect FastTAK.Effect.Prog FastTAK.Api FastTAK.Proxy

/-! ## State -/

/-- What does not change while the monitor runs.  `numericId` stands for the
truncated SHA-256 of a username, `tokenHash` for the hash of the token store,
`token n` for the token it generates after `n` others, `lower` for `str.lower`, and
`setOrder` for the order in which Python goes through a set.  `recognizesDuplicates` says whether
LLDAP's text for a taken name contains "already exists" or "duplicate". -/
structure Settings where
  numericId : String → ℤ
  usersHiddenPrefixes : List String
  recognizesDuplicates : Bool
  takConfigured : Bool
  enrollmentTokenTtlMinutes : ℤ
  enrollmentTokenOneTime : Bool
  tokenHash : String → String
  token : ℕ → String
  lower : String → String
  setOrder : List String → List String
  setOrder_perm : ∀ names, (setOrder names).Perm names.dedup

/-- A deployment for the examples. -/
def Settings.small : Settings where
  numericId := fun username => username.toList.foldl (fun n c => n * 256 + c.toNat) 0
  usersHiddenPrefixes := ["adm_", "svc_"]
  recognizesDuplicates := true
  takConfigured := true
  enrollmentTokenTtlMinutes := 15
  enrollmentTokenOneTime := true
  tokenHash := id
  token := fun n => "token-" ++ toString n
  lower := String.toLower
  setOrder := List.dedup
  setOrder_perm := fun _ => .refl _

/-- The instances of `IdentityClient`: each router and the scheduler has one. -/
inductive Client where
  | users
  | serviceAccounts
  | scheduler
  deriving DecidableEq, Repr

/-- `_user_id_map`: every id is the numeric id of its username. -/
structure IdMap (numericId : String → ℤ) where
  entries : AList fun _ : ℤ => String
  sound : ∀ id username, entries.lookup id = some username → numericId username = id

namespace IdMap

variable {numericId : String → ℤ}

def empty : IdMap numericId where
  entries := ∅
  sound := fun id username h => by simp at h

def lookup (ids : IdMap numericId) (id : ℤ) : Option String := ids.entries.lookup id

/-- `self._user_id_map[numeric_id] = username`. -/
def note (ids : IdMap numericId) (username : String) : IdMap numericId where
  entries := ids.entries.insert (numericId username) username
  sound := fun id other h => by
    rcases eq_or_ne id (numericId username) with rfl | hne
    · rw [AList.lookup_insert] at h
      rw [← Option.some.inj h]
    · rw [AList.lookup_insert_ne hne] at h
      exact ids.sound id other h

end IdMap

/-- The directory and the token store with the clients' caches, the clock, and
what happens to the requests still to come.  `minted` counts the tokens the proxy
has generated. -/
structure IdentityState (settings : Settings) where
  directory : Directory
  tokens : List TokenRow
  ids : Client → IdMap settings.numericId
  now : ℚ
  lldap : List Verdict
  proxy : List Verdict
  minted : ℕ

variable {settings : Settings}

/-- A fresh monitor in front of a directory. -/
def IdentityState.start (directory : Directory) (now : ℚ) : IdentityState settings where
  directory := directory
  tokens := []
  ids := fun _ => .empty
  now := now
  lldap := []
  proxy := []
  minted := 0

/-- The programs of the identity client. -/
abbrev IdProg (settings : Settings) (α : Type) : Type :=
  Prog Exn (IdentityState settings) α

variable {α : Type}

/-! ## Requests to the directory -/

def withDirectory (s : IdentityState settings) (directory : Directory) :
    IdentityState settings := { s with directory := directory }

/-- The state with other fortunes ahead of it. -/
def withQueue (queue : List Verdict) (s : IdentityState settings) :
    IdentityState settings := { s with lldap := queue }

@[simp]
theorem withQueue_withQueue (queue queue' : List Verdict) (s : IdentityState settings) :
    withQueue queue (withQueue queue' s) = withQueue queue s := rfl

@[simp]
theorem withQueue_directory (queue : List Verdict) (s : IdentityState settings) :
    (withQueue queue s).directory = s.directory := rfl

/-- One attempt of `_graphql`; `none` asks for another one. -/
def graphqlAttempt (request : Directory → Directory.Reply α × Directory) :
    Call Exn (IdentityState settings) (Option (Directory.Reply α)) := fun s =>
  let rest := { s with lldap := s.lldap.tail }
  let answered := request s.directory
  match nextVerdict s.lldap with
  | .runs => (.ok (some answered.1), withDirectory rest answered.2)
  | .fails applied =>
      (.ok none, if applied = 0 then rest else withDirectory rest answered.2)
  | .raises applied =>
      (.error .external, if applied = 0 then rest else withDirectory rest answered.2)

/-- The loop of `_graphql`.  A reply with the error of a taken name, where it is
recognized, has no data, and `onEmpty` is what the caller makes of it. -/
def graphqlAttempts (onEmpty : IdProg settings α)
    (request : Directory → Directory.Reply α × Directory) : ℕ → IdProg settings α
  | 0 => raise .httpError
  | attempts + 1 => do
      match ← atomic (graphqlAttempt request) with
      | some (.data value) => return value
      | some .duplicate =>
          if settings.recognizesDuplicates then onEmpty
          else raise (.runtimeError "GraphQL error")
      | some .errors => raise (.runtimeError "GraphQL error")
      | none => graphqlAttempts onEmpty request attempts

/-- `_graphql` of a mutation. -/
def graphql (onEmpty : IdProg settings α)
    (request : Directory → Directory.Reply α × Directory) : IdProg settings α :=
  graphqlAttempts onEmpty request 3

/-- `_graphql` of a mutation whose reply is not looked at. -/
def mutation (request : Directory → Directory.Reply Unit × Directory) :
    IdProg settings Unit := graphql (pure ()) request

/-- `_graphql` of a query. -/
def query (f : Directory → α) : IdProg settings α :=
  graphql (raise .typeError) fun dir => (.data (f dir), dir)

/-! ## Names and ids -/

/-- `name.startswith("tak_")`. -/
def isTakName (name : String) : Bool := "tak_".toList <+: name.toList

/-- `name[4:]`. -/
def bodyName (name : String) : String := String.ofList (name.toList.drop 4)

/-- `f"tak_{name}" if not name.startswith("tak_") else name`. -/
def takName (name : String) : String :=
  if isTakName name then name else "tak_" ++ name

def Client.hiddenPrefixes (settings : Settings) : Client → List String
  | .users | .scheduler => settings.usersHiddenPrefixes
  | .serviceAccounts => []

/-- `is_hidden(username)`. -/
def isHidden (settings : Settings) (client : Client) (username : String) : Bool :=
  (client.hiddenPrefixes settings).any fun hidden =>
    (settings.lower hidden).toList <+: (settings.lower username).toList

/-- The part of the state a client owns: its id map. -/
def noteId (client : Client) (username : String) (s : IdentityState settings) :
    IdentityState settings :=
  { s with ids := fun other =>
      if other = client then (s.ids other).note username else s.ids other }

/-- The loop body of `_refresh_user_id_map`. -/
def registerId (client : Client) (username : String) :
    Call Exn (IdentityState settings) Unit := fun s =>
  let numericId := settings.numericId username
  match (s.ids client).lookup numericId with
  | some existing =>
      if existing = username then (.ok (), noteId client username s)
      else (.error (.runtimeError ("Numeric ID collision: '" ++ existing ++ "' and '" ++
        username ++ "' both map to " ++ toString numericId ++
        ". This should be practically impossible with 53-bit hashes — please report.")),
        s)
  | none => (.ok (), noteId client username s)

/-- `_refresh_user_id_map()`. -/
def refreshUserIdMap (client : Client) : IdProg settings Unit := do
  let users ← query Directory.users
  forList (fun u : Directory.UserView => atomic (registerId client u.id)) users

/-- `_resolve_username(user_id)`. -/
def resolveUsername (client : Client) (userId : ℤ) : IdProg settings (Option String) := do
  match ← atomic (Call.read fun s => (s.ids client).lookup userId) with
  | some username => return some username
  | none => do
      refreshUserIdMap client
      atomic (Call.read fun s => (s.ids client).lookup userId)

/-- The username of the id, or the `ValueError` of the operations that need it. -/
def requireUsername (client : Client) (userId : ℤ) : IdProg settings String := do
  match ← resolveUsername client userId with
  | some username => return username
  | none => raise (.valueError ("User " ++ toString userId ++ " not found"))

/-! ## Users -/

/-- A user in the shape of the API. -/
structure UserRecord where
  id : ℤ
  username : String
  name : String
  isActive : Bool
  groups : List String
  expires : Option ℤ
  certsRevoked : Option Bool
  userType : Option String
  deriving DecidableEq, Repr

/-- The dictionary `_format_user` builds. -/
def toRecord (settings : Settings) (u : Directory.UserView) : UserRecord :=
  let attrs := parseAttributes u.attributes
  { id := settings.numericId u.id
    username := u.id
    name := u.displayName
    isActive := attrs.isActive.getD true
    groups := (u.groups.filter (isTakName ·.2)).map (bodyName ·.2)
    expires := attrs.expires
    certsRevoked := attrs.certsRevoked
    userType := attrs.userType }

/-- `_format_user(u)`, which also notes the id. -/
def formatUser (client : Client) (u : Directory.UserView) : IdProg settings UserRecord := do
  atomic (Call.modify (noteId client u.id))
  return toRecord settings u

/-- `list_users(search)`. -/
def listUsers (client : Client) (search : Option String) :
    IdProg settings (List UserRecord) := do
  let users ← query Directory.users
  let found (u : Directory.UserView) : Bool :=
    match search with
    | none => true
    | some text => text = "" ||
        (settings.lower text).toList <:+: (settings.lower u.id).toList ||
        (settings.lower text).toList <:+: (settings.lower u.displayName).toList
  mapList (formatUser client)
    (users.filter fun u => !isHidden settings client u.id && found u)

/-- `get_user(user_id)`. -/
def getUser (client : Client) (userId : ℤ) : IdProg settings (Option UserRecord) := do
  match ← resolveUsername client userId with
  | none => return none
  | some username =>
      if isHidden settings client username then return none
      else
        match ← query (Directory.user · username) with
        | none => return none
        | some u =>
            if isHidden settings client u.id then return none
            else
              let record ← formatUser client u
              return some record

/-- `int(x)` of a number with a fraction. -/
def pyTrunc (x : ℚ) : ℤ := if 0 ≤ x then ⌊x⌋ else ⌈x⌉

/-- Integers from here on do not fit into a float. -/
def floatLimit : ℤ := 2 ^ 1024 - 2 ^ 970

/-- `int(time.time() + ttl_hours * 3600)`. -/
def expiryAfter (ttlHours : ℤ) : IdProg settings ℤ := do
  let now ← atomic (Call.read IdentityState.now)
  if floatLimit ≤ |ttlHours * 3600| then raise .overflowError
  else return pyTrunc (now + (ttlHours * 3600 : ℤ))

/-- The expiry a lifetime leads to, if there is one. -/
def expiryFor : Option ℤ → IdProg settings (Option ℤ)
  | none => pure none
  | some ttlHours => do
      let expires ← expiryAfter ttlHours
      return some expires

/-- The id of a listed group, or of the group created under the name. -/
def ensureGroup (allGroups : List (ℤ × String)) (name : String) : IdProg settings ℤ :=
  match allGroups.find? (·.2 == name) with
  | some found => pure found.1
  | none => graphql (raise .typeError) (Directory.createGroup name)

/-- `_ensure_user_groups(username, group_names)`. -/
def ensureUserGroups (username : String) (groupNames : List String) :
    IdProg settings Unit := do
  let allGroups ← query Directory.groupNames
  forList (fun name => do
    let gid ← ensureGroup allGroups (takName name)
    mutation (Directory.addUserToGroup username gid)) groupNames

/-- The attributes `create_user` sets. -/
def initialAttributes (expires : Option ℤ) (userType : String) : Attributes where
  expires := expires
  certsRevoked := some false
  isActive := none
  userType := some userType

/-- The end of `create_user`: the new user as it is listed. -/
def fetchCreated (client : Client) (username name : String) (attrs : Attributes) :
    IdProg settings UserRecord := do
  let users ← query Directory.users
  match users.find? (·.id == username) with
  | some u => formatUser client u
  | none =>
      formatUser client
        { id := username, displayName := name, groups := []
          attributes := insertAttributes ∅ (buildCustomAttributes attrs) }

/-- `create_user(username, name, ttl_hours, groups, user_type)`. -/
def createUser (client : Client) (username name : String) (ttlHours : Option ℤ)
    (groups : List String) (userType : String) : IdProg settings UserRecord := do
  mutation (Directory.createUser username name)
  let expires ← expiryFor ttlHours
  let attrs := initialAttributes expires userType
  mutation (Directory.updateUser username none (buildCustomAttributes attrs))
  if groups ≠ [] then ensureUserGroups username groups
  fetchCreated client username name attrs

/-! ## Updates -/

/-- The keyword arguments of `update_user`.  `ttlHours` is `some none` for the
`null` that clears it. -/
structure UserChanges where
  name : Option String
  isActive : Option Bool
  ttlHours : Option (Option ℤ)
  deriving DecidableEq, Repr

/-- `attrs_update`: `some none` clears an attribute. -/
structure AttributesUpdate where
  expires : Option (Option ℤ)
  certsRevoked : Option (Option Bool)
  isActive : Option Bool
  deriving DecidableEq, Repr

/-- The update for the changes, given the expiry a new lifetime leads to. -/
def attributesUpdate (changes : UserChanges) (expires : Option ℤ) : AttributesUpdate where
  expires := changes.ttlHours.map fun _ => expires
  certsRevoked :=
    match changes.ttlHours, changes.isActive with
    | some none, _ => some none
    | some (some _), _ => some (some false)
    | none, some true => some (some false)
    | none, _ => none
  isActive := changes.isActive

/-- The existing attributes merged with the update. -/
def Attributes.merge (existing : Attributes) (update : AttributesUpdate) : Attributes where
  expires := update.expires.getD existing.expires
  certsRevoked := update.certsRevoked.getD existing.certsRevoked
  isActive := update.isActive.or existing.isActive
  userType := existing.userType

/-- The attributes of the update that are sent with an empty list. -/
def AttributesUpdate.cleared (update : AttributesUpdate) : List (String × List String) :=
  (if update.expires = some none then [("fastak_expires", [])] else []) ++
    if update.certsRevoked = some none then [("fastak_certs_revoked", [])] else []

/-- The stored attributes of a user that `data.get("user", {})` is expected to
find. -/
def existingAttributes (username : String) : IdProg settings Attributes := do
  match ← query (Directory.user · username) with
  | some u => return parseAttributes u.attributes
  | none => raise .attributeError

/-- The mutation of `update_user`, if there is anything to change. -/
def sendChanges (username : String) (changes : UserChanges) (expires : Option ℤ) :
    IdProg settings Unit := do
  if changes.isActive = none ∧ changes.ttlHours = none then
    if changes.name = none then pure ()
    else mutation (Directory.updateUser username changes.name [])
  else
    let update := attributesUpdate changes expires
    let existing ← existingAttributes username
    mutation (Directory.updateUser username changes.name
      (buildCustomAttributes (existing.merge update) ++ update.cleared))

/-- `update_user(user_id, **kwargs)`. -/
def updateUser (client : Client) (userId : ℤ) (changes : UserChanges) :
    IdProg settings (Option UserRecord) := do
  let username ← requireUsername client userId
  let expires ← expiryFor changes.ttlHours.join
  sendChanges username changes expires
  getUser client userId

/-- `deactivate_user(user_id)`. -/
def deactivateUser (client : Client) (userId : ℤ) : IdProg settings Unit := do
  let username ← requireUsername client userId
  mutation (Directory.updateUser username none
    (buildCustomAttributes { Attributes.none with isActive := some false }))

/-- `set_password(user_id, password)`.  The binary that sets the password changes
nothing that is modelled. -/
def setPassword (client : Client) (userId : ℤ) : IdProg settings Unit := do
  let username ← requireUsername client userId
  let verdict ← atomic (Call.update fun s =>
    (nextVerdict s.lldap, { s with lldap := s.lldap.tail }))
  match verdict with
  | .runs => return ()
  | .fails _ => raise (.runtimeError ("lldap_set_password failed for " ++ username ++ ": "))
  | .raises _ => raise .external

/-- `mark_certs_revoked(user_id)`. -/
def markCertsRevoked (client : Client) (userId : ℤ) : IdProg settings Unit := do
  let username ← requireUsername client userId
  let existing ← existingAttributes username
  mutation (Directory.updateUser username none
    (buildCustomAttributes { existing with certsRevoked := some true }))

/-! ## Groups -/

/-- `list_groups()`. -/
def listGroups : IdProg settings (List (ℤ × String)) := do
  let groups ← query Directory.groupNames
  return (groups.filter fun g => isTakName g.2 && g.2 != "tak_ROLE_ADMIN").map
    fun g => (g.1, bodyName g.2)

/-- `get_group(group_id)` with the members that are not hidden. -/
def getGroup (client : Client) (groupId : String) :
    IdProg settings (Option (ℤ × String × List (ℤ × String))) := do
  match pyInt groupId with
  | none => return none
  | some gid =>
      match ← query (Directory.group · gid) with
      | none => return none
      | some g =>
          if isTakName g.displayName then
            let members := g.members.filter fun u => !isHidden settings client u
            return some (g.id, bodyName g.displayName,
              members.map fun u => (settings.numericId u, u))
          else return none

/-- `create_group(name)`. -/
def createGroup (name : String) : IdProg settings (ℤ × String) := do
  let gid ← graphql (raise .typeError) (Directory.createGroup (takName name))
  return (gid, bodyName (takName name))

/-- `delete_group(group_id)`. -/
def deleteGroup (groupId : String) : IdProg settings Unit :=
  match pyInt groupId with
  | none => pure ()
  | some gid => mutation (Directory.deleteGroup gid)

/-- `set_user_groups` once the username is known. -/
def assignGroups (username : String) (groupNames : List String) : IdProg settings Unit := do
  let desired := settings.setOrder (groupNames.map takName)
  let allGroups ← query Directory.groupNames
  match ← query (Directory.user · username) with
  | none => raise .attributeError
  | some u => do
      forList (fun g : ℤ × String =>
        if isTakName g.2 && !desired.contains g.2 then
          mutation (Directory.removeUserFromGroup username g.1)
        else pure ()) u.groups
      forList (fun name : String =>
        if u.groups.any (·.2 == name) then pure ()
        else
          match allGroups.find? (·.2 == name) with
          | some found => mutation (Directory.addUserToGroup username found.1)
          | none => pure ()) desired

/-- `set_user_groups(user_id, group_names)`. -/
def setUserGroups (client : Client) (userId : ℤ) (groupNames : List String) :
    IdProg settings Unit := do
  let username ← requireUsername client userId
  assignGroups username groupNames

/-! ## Enrollment tokens -/

/-- One attempt of `_proxy_request`; a client error is raised at once. -/
def proxyAttempt (request : IdentityState settings → Option α × IdentityState settings) :
    Call Exn (IdentityState settings) (Option α) := fun s =>
  let rest := { s with proxy := s.proxy.tail }
  match nextVerdict s.proxy with
  | .runs =>
      match request rest with
      | (some value, s') => (.ok (some value), s')
      | (none, s') => (.error .httpError, s')
  | .fails applied => (.ok none, if applied = 0 then rest else (request rest).2)
  | .raises applied => (.error .external, if applied = 0 then rest else (request rest).2)

def proxyAttempts (request : IdentityState settings → Option α × IdentityState settings) :
    ℕ → IdProg settings α
  | 0 => raise .httpError
  | attempts + 1 => do
      match ← atomic (proxyAttempt request) with
      | some value => return value
      | none => proxyAttempts request attempts

/-- `_proxy_request`. -/
def proxyRequest (request : IdentityState settings → Option α × IdentityState settings) :
    IdProg settings α := proxyAttempts request 3

/-- `_proxy_request` with the username in the path.  The client library rejects
control characters there. -/
def proxyPathRequest (username : String)
    (request : IdentityState settings → Option α × IdentityState settings) :
    IdProg settings α :=
  if username.toList.any fun c => c.toNat < 32 || c.toNat == 127 then raise .external
  else proxyRequest request

/-- `GET /tokens/{username}`. -/
def activeTokens (username : String) (s : IdentityState settings) :
    Option (List TokenRow) × IdentityState settings :=
  (some (getActive username ⌊s.now⌋ s.tokens), s)

/-- `POST /tokens`. -/
def createToken (username : String) (ttlMinutes : ℤ) (oneTime : Bool)
    (s : IdentityState settings) : Option (String × Option ℤ) × IdentityState settings :=
  if Text.strip username.toList = [] then (none, s)
  else
    let tokenPlain := settings.token s.minted
    let row : TokenRow :=
      { id := (s.tokens.map TokenRow.id).foldr max 0 + 1
        username := username
        tokenHash := settings.tokenHash tokenPlain
        tokenPlain := tokenPlain
        expiresAt := newExpiry ⌊s.now⌋ ttlMinutes
        oneTime := oneTime
        createdAt := ⌊s.now⌋ }
    (some (tokenPlain, row.expiresAt),
      { s with tokens := row :: s.tokens, minted := s.minted + 1 })

/-- `DELETE /tokens/{username}`. -/
def deleteTokens (username : String) (s : IdentityState settings) :
    Option ℕ × IdentityState settings :=
  (some (s.tokens.countP (·.username == username)),
    { s with tokens := s.tokens.filter (·.username != username) })

/-- `get_or_create_enrollment_token(user_id, ttl_minutes, one_time)`; the expiry
is not formatted. -/
def getOrCreateEnrollmentToken (client : Client) (userId ttlMinutes : ℤ)
    (oneTime : Bool) : IdProg settings (String × Option ℤ) := do
  let username ← requireUsername client userId
  match ← proxyPathRequest username (activeTokens username) with
  | row :: _ => return (row.tokenPlain, row.expiresAt)
  | [] => proxyRequest (createToken username ttlMinutes oneTime)

/-- `delete_enrollment_tokens(user_id)`. -/
def deleteEnrollmentTokens (client : Client) (userId : ℤ) : IdProg settings ℕ := do
  match ← resolveUsername client userId with
  | none => return 0
  | some username => proxyPathRequest username (deleteTokens username)

/-! ## Expiry -/

/-- The condition of `get_users_pending_expiry` on the attributes of a user. -/
def pendingExpiry (now : ℚ) (attrs : Attributes) : Bool :=
  match attrs.expires with
  | none => false
  | some expires => !attrs.certsRevoked.getD false && (expires : ℚ) ≤ now

/-- `get_users_pending_expiry()`. -/
def getUsersPendingExpiry (client : Client) : IdProg settings (List UserRecord) := do
  let users ← query Directory.users
  let now ← atomic (Call.read IdentityState.now)
  mapList (formatUser client)
    (users.filter fun u => pendingExpiry now (parseAttributes u.attributes))

end FastTAK.Identity
