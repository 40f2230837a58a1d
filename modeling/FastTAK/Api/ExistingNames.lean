import FastTAK.Api.Sequential
import FastTAK.Identity.Recreation

/-!
# Creating an existing name

A creation under a name that is taken goes on with the account that has it.  This
file says exactly when neither `POST /api/users` nor `POST /api/service-accounts`
does it any harm, whatever fails on the way.
-/

namespace FastTAK.Api

open FastTAK.Effect FastTAK.Effect.Prog FastTAK.Certs FastTAK.Identity FastTAK.Naming

variable {settings : Settings} {α : Type}

/-! ## What a request may do -/

/-- The state with these fortunes and this randomness ahead. -/
def World.under (lldap docker : List Verdict) (entropy : List ℕ) (w : World settings) :
    World settings where
  identity := withQueue lldap w.identity
  pki := { w.pki with docker := docker, entropy := entropy }
  revocations := w.revocations

/-- The account, with its attributes, name and groups, and the certificate directory are as
before. -/
structure Untouched (username : String) (w w' : World settings) : Prop where
  account : SameAccount username w.identity.directory w'.identity.directory
  files : ∀ name, w'.pki.file name = w.pki.file name

instance (username : String) : Tolerant (@Untouched settings username) where
  refl _ := ⟨refl_of (SameAccount username) _, fun _ => rfl⟩
  trans _ _ _ hfirst hsecond :=
    ⟨trans_of (SameAccount username) hfirst.account hsecond.account,
      fun name => (hsecond.files name).trans (hfirst.files name)⟩
  quiet w s h := by
    refine ⟨?_, fun _ => rfl⟩
    change SameAccount username w.identity.directory s.directory
    rw [h.directory]
    exact refl_of (SameAccount username) _

/-- Fortunes and randomness do not count. -/
theorem untouched_under_iff {username : String} {lldap docker : List Verdict}
    {entropy : List ℕ} {w w' : World settings} :
    Untouched username (w.under lldap docker entropy) w' ↔ Untouched username w w' :=
  ⟨fun h => ⟨h.account, h.files⟩, fun h => ⟨h.account, h.files⟩⟩

/-- Whatever fails, the request leaves the account as it is. -/
def HarmlessTo (username : String) (request : Request) (w : World settings) : Prop :=
  ∀ lldap docker entropy, Untouched username w (request.serve (w.under lldap docker entropy))

/-- A group that is asked for is not listed. -/
def MissesGroup (groups : List String) (w : World settings) : Prop :=
  ∃ g ∈ groups, g ∉ (listedGroups w.identity.directory).map Prod.snd

/-- The requests that do nothing to the account there is: they are refused, or the account
has what they set.  The certificate of a service account is not even tried under a name that
is too long for a file, and then the account is deactivated. -/
def Spares (w : World settings) : Request → Prop
  | .createUser body =>
      ¬ acceptsUsername body.username ∨ body.groups = [] ∨ MissesGroup body.groups w ∨
        ∀ expires, storedExpiry w.identity.now body.ttlHours = some expires →
          Fits body.username (initialAttributes expires "user") body.groups
            w.identity.directory
  | .createServiceAccount body =>
      ¬ body.accepted ∨ (body.mode = .data ∧ MissesGroup body.groups w) ∨
        validateName (serviceUsername body.name) ≠ none ∧
          Fits (serviceUsername body.name)
            { initialAttributes none body.mode.userType with isActive := some false }
            body.groups w.identity.directory
  | _ => True

/-! ## Requests that spare the account -/

section Spared

variable {w : World settings}

theorem alone_identity_untouched {username : String} {program : IdProg settings α}
    {post : Except Exn α → World settings → Prop}
    (hprogram : Alone (AlongId (SameAccount username))
      (fun result s => post result (w.withIdentity s)) program w.identity) :
    Alone (Untouched username) post (identity program) w :=
  alone_identity (fun _ _ h => ⟨h, fun _ => rfl⟩) hprogram

theorem untouched_createUser {body : CreateUserRequest}
    (hexists : body.username ∈ w.identity.directory.accounts)
    (hspares : Spares w (.createUser body)) :
    Alone (Untouched body.username) (fun _ _ => True) (Api.createUser body) w := by
  unfold Api.createUser
  split_ifs with hrefused
  · exact alone_raise trivial
  · push Not at hrefused
    refine alone_bind (alone_requireGroups (fun hlisted queue => ?_) fun _ _ => trivial)
    rcases hspares with hno | hno | ⟨g, hg, hmissing⟩ | hfits
    · exact absurd hrefused.1 hno
    · exact absurd hno hrefused.2
    · exact absurd (hlisted g hg) hmissing
    · refine alone_bind (alone_identity_untouched ?_)
      refine (alone_createUser_of_fits (s := withQueue queue w.identity) hexists hfits).mono
        (fun _ _ h => h) ?_
      rintro (e | user) s -
      · trivial
      · exact alone_pure trivial

theorem untouched_rollback {username : String}
    (hinactive : ∀ existing ∈ w.identity.directory.attributesOf username,
      existing.isActive = some false) (userId : ℤ) :
    Alone (Untouched username) (fun _ _ => True) (rollback userId) w := by
  refine alone_tryExcept (alone_identity_untouched
    ((alone_deactivateUser_of_inactive hinactive userId).mono (fun _ _ h => h) ?_))
  rintro (e | _) s -
  · exact alone_pure trivial
  · trivial

/-- A name too long for a file is not tried. -/
theorem generateClientCert_of_invalid {origin : Origin} {name error : String}
    (hinvalid : validateName name = some error) (validityDays : ℕ)
    (cnOverride : Option String) :
    generateClientCert origin name validityDays cnOverride = pure (.fail error) := by
  simp only [generateClientCert, hinvalid]

theorem untouched_makeAccount {body : CreateServiceAccountRequest}
    (hexists : serviceUsername body.name ∈ w.identity.directory.accounts)
    (hinvalid : validateName (serviceUsername body.name) ≠ none)
    (hfits : Fits (serviceUsername body.name)
      { initialAttributes none body.mode.userType with isActive := some false } body.groups
      w.identity.directory) :
    Alone (Untouched (serviceUsername body.name)) (fun _ _ => True) (makeAccount body) w := by
  obtain ⟨error, herror⟩ := Option.ne_none_iff_exists'.mp hinvalid
  -- What is sent at the creation is part of what is there.
  have hinactive : ∀ existing ∈ w.identity.directory.attributesOf (serviceUsername body.name),
      existing.isActive = some false := fun existing h => by
    rw [← hfits.attributes existing h]
    rfl
  have hinitial : Fits (serviceUsername body.name)
      (initialAttributes none body.mode.userType) body.groups w.identity.directory := by
    refine ⟨fun existing h => ?_, hfits.groups⟩
    have hthere := hfits.attributes existing h
    rw [← hthere]
    rfl
  have hcreate : Alone (AlongId (SameAccount (serviceUsername body.name)))
      (fun _ s => SameAccount (serviceUsername body.name) w.identity.directory s.directory)
      (Identity.createUser .serviceAccounts (serviceUsername body.name) body.displayName none
        body.groups body.mode.userType) w.identity := by
    refine (alone_createUser_of_fits hexists ?_).since.mono (fun _ _ h => h) fun _ _ h => h.2
    rintro expires hstored
    obtain rfl := Option.some.inj hstored
    exact hinitial
  refine alone_bind (alone_identity_untouched (hcreate.mono (fun _ _ h => h) ?_))
  rintro (e | user) s hsame
  · trivial
  rw [generateClientCert_of_invalid herror]
  refine alone_bind (alone_atomic ⟨refl_of (SameAccount _) _, fun _ => rfl⟩ ?_)
  refine alone_bind ((untouched_rollback ?_ user.id).mono (fun _ _ h => h) ?_)
  · intro existing h
    exact hinactive existing (hsame.attributes ▸ h)
  · rintro (e | _) w' -
    · trivial
    · exact alone_raise trivial

theorem untouched_createServiceAccount {body : CreateServiceAccountRequest}
    (hexists : serviceUsername body.name ∈ w.identity.directory.accounts)
    (hspares : Spares w (.createServiceAccount body)) :
    Alone (Untouched (serviceUsername body.name)) (fun _ _ => True)
      (Api.createServiceAccount body) w := by
  unfold Api.createServiceAccount
  rcases hspares with hrefused | ⟨hdata, g, hg, hmissing⟩ | ⟨hinvalid, hfits⟩
  · rw [if_pos hrefused]
    exact alone_raise trivial
  · split_ifs
    · refine alone_bind (alone_requireGroups (fun hlisted _ => ?_) fun _ _ => trivial)
      exact absurd (hlisted g hg) hmissing
    · exact alone_raise trivial
  · split_ifs
    · exact alone_bind (alone_requireGroups (fun _ queue =>
        untouched_makeAccount (w := w.withFaults queue) hexists hinvalid hfits)
        fun _ _ => trivial)
    · exact untouched_makeAccount hexists hinvalid hfits
    · exact alone_raise trivial

end Spared

/-! ## Requests that do not -/

section Touched

variable {w : World settings}

/-- How a handler ends. -/
abbrev EndsIn (post : Except Exn α → World settings → Prop) (handler : Handler settings α)
    (w : World settings) : Prop :=
  Alone (fun _ _ => True) post handler w

theorem endsIn_identity {program : IdProg settings α}
    {post : Except Exn α → World settings → Prop}
    (hprogram : Ends (fun result s => post result (w.withIdentity s)) program w.identity) :
    EndsIn post (identity program) w :=
  alone_identity (fun _ _ _ => trivial) hprogram

theorem endsIn_certs {call : Call Exn Pki α} {a : α} {s : Pki}
    {post : Except Exn α → World settings → Prop} (hrun : call w.pki = (.ok a, s))
    (hpost : post (.ok a) (w.withPki s)) : EndsIn post (certs call) w := by
  refine alone_atomic trivial ?_
  rw [Call.onPart_apply, hrun]
  exact hpost

/-- The groups are listed, and nothing happens to the request that finds them. -/
theorem endsIn_requireGroups {groups : List String}
    {post : Except Exn Unit → World settings → Prop} (hcalm : w.identity.lldap = [])
    (hlisted : ¬ MissesGroup groups w) (hpost : post (.ok ()) w) :
    EndsIn post (requireGroups groups) w := by
  have hself : w.withFaults [] = w := by
    unfold World.withFaults withQueue
    rw [← hcalm]
    rfl
  refine alone_of_run ?_
  have hrun : (requireGroups groups).run (w.withFaults []) = (.ok (), w.withFaults []) := by
    refine run_requireGroups fun g hg => ?_
    by_contra hnot
    exact hlisted ⟨g, hg, hnot⟩
  rw [hself] at hrun
  rw [hrun]
  exact hpost

theorem spares_of_untouched_createUser (hrecognizes : settings.recognizesDuplicates)
    {body : CreateUserRequest} (hcalm : w.identity.lldap = [])
    (hexists : body.username ∈ w.identity.directory.accounts) :
    EndsIn (fun _ w' => Untouched body.username w w' → Spares w (.createUser body))
      (Api.createUser body) w := by
  by_cases hrefused : ¬ acceptsUsername body.username ∨ body.groups = []
  · rw [Api.createUser, if_pos hrefused]
    exact alone_raise fun _ => hrefused.imp_right Or.inl
  by_cases hmissing : MissesGroup body.groups w
  · exact alone_of_run fun _ => Or.inr (Or.inr (Or.inl hmissing))
  cases hstored : storedExpiry w.identity.now body.ttlHours with
  | none => exact alone_of_run fun _ => Or.inr (Or.inr (Or.inr (by simp [hstored])))
  | some expires =>
      rw [Api.createUser, if_neg hrefused]
      refine alone_bind (endsIn_requireGroups hcalm hmissing ?_)
      refine alone_bind (endsIn_identity
        ((ends_createUser_existing hrecognizes hcalm hexists hstored).mono (fun _ _ h => h) ?_))
      rintro (e | user) s hends
      · obtain ⟨group, hgained, hbefore⟩ := hends
        exact fun huntouched => absurd ((huntouched.account.groups group).mp hgained) hbefore
      · obtain ⟨-, -, hrecreated⟩ := hends
        refine alone_pure fun huntouched => Or.inr (Or.inr (Or.inr fun expires' hstored' => ?_))
        obtain rfl : expires = expires' := Option.some.inj (hstored.symm.trans hstored')
        exact fits_of_recreated hrecreated huntouched.account

/-- A deactivation of the account under its id. -/
theorem endsIn_rollback (hrecognizes : settings.recognizesDuplicates) {userId : ℤ}
    {username : String} {attrs : Attributes} (hcalm : w.identity.lldap = [])
    (hknown : Known .serviceAccounts userId username w.identity)
    (hattributes : w.identity.directory.attributesOf username = some attrs) :
    EndsIn (fun _ w' =>
      w'.identity.directory.attributesOf username =
          some { attrs with isActive := some false } ∧
        ∀ group, w'.identity.directory.IsMember username group ↔
          w.identity.directory.IsMember username group) (rollback userId) w := by
  refine alone_tryExcept (endsIn_identity
    ((ends_deactivateUser hrecognizes hcalm hknown hattributes).mono (fun _ _ h => h) ?_))
  rintro (e | _) s h
  · exact alone_pure h
  · exact h

/-- Whatever it does to the account, a rollback leaves the certificate directory alone. -/
theorem endsIn_rollback_files (userId : ℤ) :
    EndsIn (fun _ w' => w'.pki = w.pki) (rollback userId) w := by
  refine alone_tryExcept (endsIn_identity (alone_of_run ?_))
  rcases ((deactivateUser .serviceAccounts userId).run w.identity).1 with e | _
  · exact alone_pure rfl
  · rfl

theorem spares_of_untouched_makeAccount (hrecognizes : settings.recognizesDuplicates)
    {body : CreateServiceAccountRequest} (hcalm : w.identity.lldap = [])
    (hdocker : w.pki.docker = [.runs, .runs, .fails 1])
    (hkey : w.pki.file (serviceUsername body.name ++ ".key") ≠
      some ⟨.key (w.pki.entropy.headD 0), .service (serviceUsername body.name)⟩)
    (hexists : serviceUsername body.name ∈ w.identity.directory.accounts) :
    EndsIn (fun _ w' => Untouched (serviceUsername body.name) w w' →
      Spares w (.createServiceAccount body)) (makeAccount body) w := by
  refine alone_bind (endsIn_identity
    ((ends_createUser_existing hrecognizes hcalm hexists rfl).mono (fun _ _ h => h) ?_))
  rintro (e | user) s hends
  · obtain ⟨group, hgained, hbefore⟩ := hends
    exact fun huntouched => absurd ((huntouched.account.groups group).mp hgained) hbefore
  obtain ⟨hproper, hname, hrecreated⟩ := hends
  cases hvalid : validateName (serviceUsername body.name) with
  | none =>
      obtain ⟨s', hrun, hwritten⟩ : ∃ s', generateClientCert
          (.service (serviceUsername body.name)) (serviceUsername body.name)
          (body.validityDays.getD body.mode.defaultValidity) none w.pki = (.ok _, s') ∧
            s'.file (serviceUsername body.name ++ ".key") =
              some ⟨.key (w.pki.entropy.headD 0), .service (serviceUsername body.name)⟩ :=
        generateClientCert_cut hvalid _ hdocker
      refine alone_bind (endsIn_certs hrun ?_)
      refine alone_bind ((endsIn_rollback_files user.id).mono (fun _ _ h => h) ?_)
      rintro result w' hpki
      have hchanged : ¬ Untouched (serviceUsername body.name) w w' := fun huntouched => by
        have hsame := huntouched.files (serviceUsername body.name ++ ".key")
        rw [hpki] at hsame
        exact hkey (hsame.symm.trans hwritten)
      cases result with
      | error e => exact fun h => absurd h hchanged
      | ok _ => exact alone_raise fun h => absurd h hchanged
  | some error =>
      rw [generateClientCert_of_invalid hvalid]
      refine alone_bind (endsIn_certs rfl ?_)
      obtain ⟨existing, hexisting⟩ : ∃ existing, w.identity.directory.attributesOf
          (serviceUsername body.name) = some existing := by
        obtain ⟨account, haccount⟩ :=
          Option.isSome_iff_exists.mp (AList.lookup_isSome.mpr hexists)
        exact ⟨_, by rw [Directory.attributesOf, haccount]; rfl⟩
      have hattributes := hrecreated.attributes
      rw [hexisting, Option.map_some] at hattributes
      have hknown : Known .serviceAccounts user.id (serviceUsername body.name) s := by
        rw [hproper, hname]
        exact hrecreated.known
      refine alone_bind ((endsIn_rollback hrecognizes hrecreated.calm hknown hattributes).mono
        (fun _ _ h => h) ?_)
      rintro result w' ⟨hafter, hgroups⟩
      have hspares : Untouched (serviceUsername body.name) w w' →
          Spares w (.createServiceAccount body) := by
        refine fun huntouched => Or.inr (Or.inr ⟨by simp [hvalid], ?_, fun g hg => ?_⟩)
        · rintro existing' hexisting'
          obtain rfl : existing = existing' := Option.some.inj (hexisting.symm.trans hexisting')
          rw [huntouched.account.attributes, hexisting] at hafter
          exact (Option.some.inj hafter).symm
        · exact (huntouched.account.groups _).mp ((hgroups _).mpr (hrecreated.groups g hg))
      cases result with
      | error e => exact hspares
      | ok _ => exact alone_raise hspares

theorem spares_of_untouched_createServiceAccount (hrecognizes : settings.recognizesDuplicates)
    {body : CreateServiceAccountRequest} (hcalm : w.identity.lldap = [])
    (hdocker : w.pki.docker = [.runs, .runs, .fails 1])
    (hkey : w.pki.file (serviceUsername body.name ++ ".key") ≠
      some ⟨.key (w.pki.entropy.headD 0), .service (serviceUsername body.name)⟩)
    (hexists : serviceUsername body.name ∈ w.identity.directory.accounts) :
    EndsIn (fun _ w' => Untouched (serviceUsername body.name) w w' →
      Spares w (.createServiceAccount body)) (Api.createServiceAccount body) w := by
  have hmake := spares_of_untouched_makeAccount hrecognizes hcalm hdocker hkey hexists
  by_cases hrefused : ¬ body.accepted
  · exact alone_of_run fun _ => Or.inl hrefused
  rw [Api.createServiceAccount, if_neg hrefused]
  split_ifs with hmode
  · by_cases hmissing : MissesGroup body.groups w
    · exact alone_of_run fun _ => Or.inr (Or.inl ⟨hmode, hmissing⟩)
    · exact alone_bind (endsIn_requireGroups hcalm hmissing hmake)
  · exact hmake

end Touched

/-- **Existing names.**  A creation under the name of an account leaves the account and the
certificate files alone, whatever fails, exactly if it is refused or the account has what it
sets. -/
theorem harmless_iff_spares (hrecognizes : settings.recognizesDuplicates) (w : World settings)
    (request : Request) {username : String} (hname : request.createdName = some username)
    (hexists : username ∈ w.identity.directory.accounts) :
    HarmlessTo username request w ↔ Spares w request := by
  constructor
  · intro hharmless
    cases request with
    | createUser body =>
        obtain rfl := Option.some.inj hname
        exact (spares_of_untouched_createUser (w := w.under [] [] []) hrecognizes rfl
          hexists).ends (untouched_under_iff.mpr (hharmless [] [] []))
    | createServiceAccount body =>
        obtain rfl := Option.some.inj hname
        obtain ⟨material, hfresh⟩ : ∃ material, w.pki.file
            (serviceUsername body.name ++ ".key") ≠
              some ⟨.key material, .service (serviceUsername body.name)⟩ := by
          by_contra hall
          push Not at hall
          have hzero := (hall 0).symm.trans (hall 1)
          simp at hzero
        exact (spares_of_untouched_createServiceAccount
          (w := w.under [] [.runs, .runs, .fails 1] [material]) hrecognizes rfl rfl hfresh
          hexists).ends (untouched_under_iff.mpr (hharmless [] [.runs, .runs, .fails 1] [material]))
    | _ => cases hname
  · intro hspares lldap docker entropy
    cases request with
    | createUser body =>
        obtain rfl := Option.some.inj hname
        exact untouched_under_iff.mp
          (untouched_createUser (w := w.under lldap docker entropy) hexists hspares).whole
    | createServiceAccount body =>
        obtain rfl := Option.some.inj hname
        exact untouched_under_iff.mp (untouched_createServiceAccount
          (w := w.under lldap docker entropy) hexists hspares).whole
    | _ => cases hname

/-- A service with an account `svc_feed` and one group, where Docker finds no container. -/
def feedWorld : World Settings.small where
  identity := .start (Directory.createGroup "tak_ops"
    (Directory.createUser "svc_feed" "Feed" .empty).2).2 0
  pki := { Pki.empty with docker := [.fails 0] }
  revocations := []

/-- `POST /api/service-accounts` with the name of an account: no certificate is made, and the
rollback deactivates the account there was. -/
theorem existing_account_deactivated :
    let body : CreateServiceAccountRequest := ⟨"svc_feed", "Feed 2", .data, ["ops"], none⟩
    let after := (Request.createServiceAccount body).serve feedWorld
    feedWorld.identity.directory.attributesOf "svc_feed" = some Attributes.none ∧
      after.identity.directory.attributesOf "svc_feed" =
        some ⟨none, some false, some false, some "svc_data"⟩ ∧
      after.identity.directory.IsMember "svc_feed" "tak_ops" ∧
      ¬ feedWorld.identity.directory.IsMember "svc_feed" "tak_ops" := by
  decide +kernel

/-- A request for a group that does not exist spares the account. -/
theorem harmless_unlisted_group :
    HarmlessTo "svc_feed" (.createUser ⟨"svc_feed", "Feed", none, ["staff"]⟩) feedWorld :=
  (harmless_iff_spares rfl feedWorld (.createUser ⟨"svc_feed", "Feed", none, ["staff"]⟩) rfl
    (by decide)).mpr (Or.inr (Or.inr (Or.inl ⟨"staff", by decide, by decide +kernel⟩)))

end FastTAK.Api
