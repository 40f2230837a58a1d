import FastTAK.Certs.Generation
import FastTAK.Certs.Ownership
import FastTAK.Identity.Client

/-!
# The state behind the API

The directory and the token store on one side, the certificate directory with
its authority on the other.  Handlers are programs over both; the certificate
operations act at once, since nothing else touches what they work on.
-/

namespace FastTAK.Api

open FastTAK.Effect FastTAK.Effect.Prog FastTAK.Certs FastTAK.Identity

/-- A call of `revoke_all_user_certs` that returned, with the state it found. -/
structure RevocationCall where
  username : String
  before : Pki
  answer : Bool

/-- `revocations` records the calls of `revoke_all_user_certs`, the latest first. -/
structure World (settings : Settings) where
  identity : IdentityState settings
  pki : Pki
  revocations : List RevocationCall

variable {settings : Settings} {α : Type}

def World.withIdentity (s : IdentityState settings) (w : World settings) :
    World settings := { w with identity := s }

def World.withPki (s : Pki) (w : World settings) : World settings := { w with pki := s }

/-- The handlers. -/
abbrev Handler (settings : Settings) (α : Type) : Type := Prog Exn (World settings) α

/-- An operation of an `IdentityClient`. -/
def identity (program : IdProg settings α) : Handler settings α :=
  program.onPart World.identity World.withIdentity

/-- An operation on the certificate directory, in `cert_gen` or over TAK Server. -/
def certs (call : Call Exn Pki α) : Handler settings α :=
  atomic (Call.onPart World.pki World.withPki call)

/-- `TakServerClient.revoke_all_user_certs(username)`, with its record. -/
def revokeAll (username : String) : Handler settings Bool := atomic fun w =>
  match revokeAllUserCerts username w.pki with
  | (.ok answer, s) =>
      (.ok answer, { w with
        pki := s
        revocations := ⟨username, w.pki, answer⟩ :: w.revocations })
  | (.error e, s) => (.error e, { w with pki := s })

/-- The revocation leaves the identity state alone. -/
theorem identity_revokeAll (username : String) (w : World settings) :
    ((revokeAll username).run w).2.identity = w.identity := by
  rcases hrun : revokeAllUserCerts username w.pki with ⟨_ | _, _⟩
  · simp [revokeAll, run, atomic, hrun]
  · simp [revokeAll, run, atomic, hrun]

theorem respects_revokeAll_of {guar : World settings → World settings → Prop}
    (hguar : ∀ w w', w'.identity = w.identity → guar w w') (username : String) :
    Respects guar (fun _ => True) (revokeAll username) :=
  respects_atomic fun w => ⟨hguar _ _ (identity_revokeAll username w), fun _ _ => trivial⟩

theorem run_identity (program : IdProg settings α) :
    (identity program).run =
      Call.onPart World.identity World.withIdentity program.run := by
  have hget : ∀ (s : IdentityState settings) (w : World settings),
      (World.withIdentity s w).identity = s := fun _ _ => rfl
  have hset : ∀ (s s' : IdentityState settings) (w : World settings),
      World.withIdentity s (World.withIdentity s' w) = World.withIdentity s w :=
    fun _ _ _ => rfl
  have hself : ∀ w : World settings, World.withIdentity w.identity w = w :=
    fun _ => rfl
  exact run_onPart hget hset hself program

/-- The body of a successful answer. -/
inductive Response where
  | users (page : List (UserRecord × List CertadminCert)) (count : ℕ)
  | user (user : UserRecord) (certs : List CertadminCert)
  | updated (user : Option UserRecord)
  | account (user : UserRecord) (validityDays : ℕ)
  | success
  | deleted (username : String)
  | enrollment (username token : String) (expiresAt : Option ℤ)
  | certs (onDisk : List DiskEntry) (certadmin : List CertadminCert)
  | generated (name filename : String) (validityDays : ℕ)
  | file (file : CertFile)
  | groups (groups : List (ℤ × String))
  | group (id : ℤ) (name : String) (members : List (ℤ × String))

/-- The answer to a request that a validator of the request models rejects. -/
def unprocessable : Handler settings α := raise (.http 422 "")

/-- `tak.list_user_certs(username)` if a TAK client is configured. -/
def takCerts (username : String) : Handler settings (List CertadminCert) :=
  if settings.takConfigured then certs (listUserCerts username) else pure []

/-- The check that every group asked for is listed. -/
def requireGroups (groups : List String) : Handler settings Unit := do
  let existing ← identity listGroups
  let missing := groups.filter fun g => !(existing.map Prod.snd).contains g
  if missing ≠ [] then
    raise (.http 400 ("Groups do not exist: " ++ String.intercalate ", " missing ++
      ". Create them first."))

end FastTAK.Api
