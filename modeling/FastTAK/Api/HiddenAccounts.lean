import FastTAK.Api.TemporaryUsers

/-!
# Hidden accounts

The user API hides the accounts whose names start with a configured prefix.  Every
operation by id looks the account up first, which fails for a hidden one; the
creation by name does not.  This file says that nothing but such a creation gets at
a hidden account.
-/

namespace FastTAK.Api

open FastTAK.Effect FastTAK.Effect.Prog FastTAK.Certs FastTAK.Identity FastTAK.Naming

variable {settings : Settings}

/-- The requests to the `/api/users` endpoints. -/
def Request.isUsers : Request → Bool
  | .listUsers .. | .createUser _ | .getUser _ | .updateUser .. | .deleteUser _
  | .setPassword .. | .enrollUser _ | .listUserCerts .. | .generateUserCert ..
  | .revokeUserCert .. | .downloadUserCert .. | .setUserGroups .. => true
  | _ => false

/-- The accounts an answer shows. -/
def Response.usernames : Response → List String
  | .users page _ => page.map fun entry => entry.1.username
  | .user shown _ => [shown.username]
  | .account shown _ => [shown.username]
  | .updated shown => shown.toList.map UserRecord.username
  | .deleted username => [username]
  | .enrollment username _ _ => [username]
  | .group _ _ members => members.map Prod.snd
  | .success | .certs _ _ | .generated _ _ _ | .file _ | .groups _ => []

/-- No account that an answer shows is hidden. -/
def Visible (settings : Settings) (response : Response) : Prop :=
  ∀ username ∈ response.usernames, ¬ isHidden settings .users username

/-- The hidden accounts with their names, attributes and groups are as before. -/
def HiddenKept (settings : Settings) (dir dir' : Directory) : Prop :=
  ∀ v, isHidden settings .users v →
    dir'.accounts.lookup v = dir.accounts.lookup v ∧
      ∀ group, dir'.IsMember v group ↔ dir.IsMember v group

instance : IsPreorder Directory (HiddenKept settings) where
  refl _ _ _ := ⟨rfl, fun _ => Iff.rfl⟩
  trans _ _ _ hfirst hsecond v hv :=
    ⟨(hsecond v hv).1.trans (hfirst v hv).1,
      fun group => ((hsecond v hv).2 group).trans ((hfirst v hv).2 group)⟩

/-- A hidden username for a new user, with groups that all exist. -/
def CreatesHidden (w : World settings) (request : Request) : Prop :=
  ∃ body, request = .createUser body ∧ acceptsUsername body.username ∧
    isHidden settings .users body.username ∧ body.groups ≠ [] ∧
      ∀ g ∈ body.groups, g ∈ (listedGroups w.identity.directory).map Prod.snd

/-! ## Mutations of other accounts -/

section Mutations

variable {username : String} (hvisible : ¬ isHidden settings .users username)

include hvisible

theorem ne_of_hidden {v : String} (hv : isHidden settings .users v) : v ≠ username := by
  rintro rfl
  exact hvisible hv

theorem hiddenKept_createUser (name : String) (dir : Directory) :
    HiddenKept settings dir (Directory.createUser username name dir).2 := fun _ hv =>
  ⟨Directory.lookup_createUser_of_ne (ne_of_hidden hvisible hv) name dir,
    Directory.isMember_congr (Directory.groups_createUser username name dir) _⟩

theorem hiddenKept_updateUser (name : Option String) (inserted : List (String × List String))
    (dir : Directory) :
    HiddenKept settings dir (Directory.updateUser username name inserted dir).2 :=
  fun _ hv =>
    ⟨Directory.lookup_updateUser_of_ne (ne_of_hidden hvisible hv) name inserted dir,
      Directory.isMember_congr (Directory.groups_updateUser username name inserted dir) _⟩

theorem hiddenKept_addUserToGroup (gid : ℤ) (dir : Directory) :
    HiddenKept settings dir (Directory.addUserToGroup username gid dir).2 := fun _ hv =>
  ⟨by rw [Directory.accounts_addUserToGroup],
    Directory.isMember_addUserToGroup_of_ne (ne_of_hidden hvisible hv) gid dir⟩

theorem hiddenKept_removeUserFromGroup (gid : ℤ) (dir : Directory) :
    HiddenKept settings dir (Directory.removeUserFromGroup username gid dir).2 := fun _ hv =>
  ⟨by rw [Directory.accounts_removeUserFromGroup],
    Directory.isMember_removeUserFromGroup_of_ne (ne_of_hidden hvisible hv) gid dir⟩

end Mutations

theorem hiddenKept_createGroup (name : String) (dir : Directory) :
    HiddenKept settings dir (Directory.createGroup name dir).2 := fun v _ =>
  ⟨by rw [Directory.accounts_createGroup], Directory.isMember_createGroup_iff name dir v⟩

/-! ## Requests -/

/-- From this state on, the handler changes and shows no hidden account. -/
abbrev HidesFrom (w : World settings) (handler : Handler settings Response) : Prop :=
  Alone (Along (HiddenKept settings))
    (fun result _ => ∀ response, result = .ok response → Visible settings response) handler w

/-- The same in whatever states its requests find themselves. -/
abbrev Hides (settings : Settings) (handler : Handler settings Response) : Prop :=
  Respects (Along (HiddenKept settings)) (Visible settings) handler

theorem hides_from {handler : Handler settings Response} (hhandler : Hides settings handler)
    (w : World settings) : HidesFrom w handler :=
  (hhandler.alone (fun _ _ _ _ => trivial) trivial).mono (fun _ _ h => h)
    fun _ _ h response hresponse => h.1 response hresponse

theorem visible_of_nil {response : Response} (hnil : response.usernames = []) :
    Visible settings response := by
  intro username husername
  rw [hnil] at husername
  cases husername

section Reading

variable (userId : ℤ)

theorem hides_listUsers (search : Option String) (includeCerts : Bool) (page pageSize : ℕ) :
    Hides settings (Api.listUsers search includeCerts page pageSize) := by
  refine respects_bind (along_identity (respects_listUsers .users search)) ?_
  intro users husers
  have hshown : Respects (Along (HiddenKept settings))
      (fun shown => ∀ entry ∈ shown, ¬ isHidden settings .users entry.1.username)
      (mapList (fun user : UserRecord =>
        if includeCerts then do
          let certs ← takCerts user.username
          return (user, certs)
        else return (user, [])) ((users.drop ((page - 1) * pageSize)).take pageSize) :
        Handler settings (List (UserRecord × List CertadminCert))) := by
    refine respects_mapList _ fun user huser => ?_
    have hvisible := husers user (List.mem_of_mem_drop (List.mem_of_mem_take huser))
    split_ifs
    · exact respects_bind (along_takCerts _) fun _ _ => respects_pure hvisible
    · exact respects_pure hvisible
  refine respects_bind hshown fun shown hshown => respects_pure ?_
  intro username husername
  obtain ⟨entry, hentry, rfl⟩ := List.mem_map.mp husername
  exact hshown entry hentry

theorem hides_getUser :
    Hides settings (Api.getUser userId) := by
  refine respects_bind (along_requireUser userId) fun user hvisible => ?_
  refine respects_bind (along_takCerts _) fun certs _ => respects_pure ?_
  intro username husername
  obtain rfl := List.mem_singleton.mp husername
  exact hvisible

theorem hides_setPassword (password : String) :
    Hides settings (Api.setPassword userId password) := by
  unfold Api.setPassword
  split_ifs
  · exact respects_raise _
  · refine respects_bind (along_requireUser userId) fun user _ => ?_
    split_ifs
    · exact respects_bind (along_identity (respects_setPassword .users userId))
        fun _ _ => respects_pure (visible_of_nil rfl)
    · exact respects_raise _

theorem hides_enrollUser :
    Hides settings (Api.enrollUser userId) := by
  refine respects_bind (along_requireUser userId) fun user hvisible => ?_
  split_ifs
  · refine respects_bind (along_identity (respects_getOrCreateEnrollmentToken ?_)) ?_
    · intro username _ s
      unfold createToken
      split_ifs
      · exact refl_of (AlongId (HiddenKept settings)) s
      · exact refl_of (AlongId (HiddenKept settings)) s
    · rintro ⟨token, expiresAt⟩ _
      refine respects_pure fun username husername => ?_
      obtain rfl := List.mem_singleton.mp husername
      exact hvisible
  · exact respects_raise _

theorem hides_listUserCerts (readable : Bool) :
    Hides settings (Api.listUserCerts userId readable) := by
  refine respects_bind (along_requireUser userId) fun user _ => ?_
  refine respects_bind (along_takCerts _) fun _ _ => ?_
  exact respects_bind (along_certs _) fun _ _ => respects_pure (visible_of_nil rfl)

theorem hides_generateUserCert (name : String) :
    Hides settings (Api.generateUserCert userId name) := by
  unfold Api.generateUserCert
  split_ifs
  · refine respects_bind (along_requireUser userId) fun user _ => ?_
    split_ifs
    · refine respects_bind (along_certs _) fun taken _ => ?_
      split_ifs
      · exact respects_raise _
      · refine respects_bind (P := fun _ => True)
          (respects_atomic fun w => ⟨refl_of (Along (HiddenKept settings)) w,
            fun _ _ => trivial⟩) fun now _ => ?_
        split
        · exact respects_raise _
        · refine respects_bind (along_certs _) fun result _ => ?_
          split_ifs
          · exact respects_pure (visible_of_nil rfl)
          · exact respects_raise _
    · exact respects_raise _
  · exact respects_raise _

theorem hides_revokeUserCert (certId : Option ℤ) (certName : Option String) :
    Hides settings (Api.revokeUserCert userId certId certName) := by
  have hend : Hides settings (do
      let _ ← identity (deleteEnrollmentTokens .users userId)
      return .success) := by
    refine respects_bind (along_identity (respects_deleteEnrollmentTokens ?_))
      fun _ _ => respects_pure (visible_of_nil rfl)
    exact fun _ _ s => refl_of (AlongId (HiddenKept settings)) s
  refine respects_bind (along_requireUser userId) fun user _ => ?_
  match certId, certName with
  | some certId, _ =>
      dsimp only
      split_ifs
      · refine respects_bind (along_takCerts _) fun found _ => ?_
        split
        · exact respects_raise _
        · split
          · exact respects_raise _
          · refine respects_bind (along_certs _) fun result _ => ?_
            split_ifs
            · exact respects_bind (along_certs _) fun _ _ => hend
            · exact respects_raise _
      · exact respects_raise _
  | none, some certName =>
      refine respects_bind (along_certs _) fun result _ => ?_
      split_ifs
      · exact hend
      · exact respects_raise _
  | none, none => exact respects_raise _

theorem hides_downloadUserCert (certName : String) (readable : Bool) :
    Hides settings (Api.downloadUserCert userId certName readable) := by
  unfold Api.downloadUserCert
  split_ifs
  · refine respects_bind (along_requireUser userId) fun user _ => ?_
    exact respects_bind (along_certs _) fun _ _ => respects_pure (visible_of_nil rfl)
  · exact respects_raise _

end Reading

section Changing

variable {w : World settings}

theorem hides_createUser {body : CreateUserRequest}
    (hadmitted : ¬ CreatesHidden w (.createUser body)) :
    HidesFrom w (Api.createUser body) := by
  unfold Api.createUser
  split_ifs with hrefused
  · exact alone_raise (by simp)
  · push Not at hrefused
    refine alone_bind (alone_requireGroups (fun hlisted queue => ?_) fun _ _ => by simp)
    have hvisible : ¬ isHidden settings .users body.username := fun hhidden =>
      hadmitted ⟨body, rfl, hrefused.1, hhidden, hrefused.2, hlisted⟩
    have hcreate : Hides settings (do
        let user ← identity (Identity.createUser .users body.username body.name
          body.ttlHours body.groups "user")
        return .user user []) := by
      refine respects_bind (along_identity (respects_createUser ?_ ?_ ?_)) ?_
      · exact stepOf_along (hiddenKept_createUser hvisible body.name)
      · exact fun expires => stepOf_along (hiddenKept_updateUser hvisible none _)
      · exact respects_ensureUserGroups
          (fun name _ => stepOf_along (hiddenKept_createGroup (takName name)))
          fun gid => stepOf_along (hiddenKept_addUserToGroup hvisible gid)
      · rintro user ⟨-, hname⟩
        refine respects_pure fun username husername => ?_
        obtain rfl := List.mem_singleton.mp husername
        rw [hname]
        exact hvisible
    exact hides_from hcreate _

theorem hides_updateUser (userId : ℤ) (body : UserChanges) :
    HidesFrom w (Api.updateUser userId body) := by
  refine alone_bind (alone_requireUser (fun user s _ hshows hknown => ?_) fun _ _ _ => by simp)
  have hupdate : Alone (AlongId (HiddenKept settings)) (fun result _ => ∀ user,
      result = .ok (some user) → ¬ isHidden settings .users user.username)
      (Identity.updateUser .users userId body) s :=
    alone_updateUser hknown fun inserted =>
      stepOf_along (hiddenKept_updateUser hshows.visible body.name inserted)
  refine alone_bind (alone_along (hupdate.mono (fun _ _ h => h) ?_))
  intro result _ hvisible
  match result, hvisible with
  | .error e, _ => simp
  | .ok none, _ =>
      refine alone_pure fun response hresponse => ?_
      obtain rfl := Except.ok.inj hresponse
      exact visible_of_nil rfl
  | .ok (some updated), hvisible =>
      refine alone_pure fun response hresponse username husername => ?_
      obtain rfl := Except.ok.inj hresponse
      obtain rfl := List.mem_singleton.mp husername
      exact hvisible updated rfl

theorem hides_deleteUser (userId : ℤ) : HidesFrom w (Api.deleteUser userId) := by
  refine alone_bind (alone_requireUser (fun user s _ hshows hknown => ?_) fun _ _ _ => by simp)
  have hdelete : Alone (Along (HiddenKept settings)) (fun _ _ => True)
      (deactivateAndRevoke .users userId user.username) (w.withIdentity s) :=
    alone_deactivateAndRevoke hknown (hiddenKept_updateUser hshows.visible none)
  refine alone_bind (hdelete.mono (fun _ _ h => h) ?_)
  intro result _ _
  match result with
  | .error e => simp
  | .ok _ =>
      refine alone_pure fun response hresponse username husername => ?_
      obtain rfl := Except.ok.inj hresponse
      obtain rfl := List.mem_singleton.mp husername
      exact hshows.visible

theorem hides_setUserGroups (userId : ℤ) (groups : List String) :
    HidesFrom w (Api.setUserGroups userId groups) := by
  refine alone_bind (alone_requireUser (fun user s _ hshows hknown => ?_) fun _ _ _ => by simp)
  have hset : ∀ w' : World settings, Known .users userId user.username w'.identity →
      HidesFrom w' (do
        identity (Identity.setUserGroups .users userId groups)
        return .success) := by
    intro w' hknown
    refine alone_bind (alone_along ((alone_setUserGroups hknown
      (fun gid => stepOf_along (hiddenKept_removeUserFromGroup hshows.visible gid))
      fun gid => stepOf_along (hiddenKept_addUserToGroup hshows.visible gid)).mono
        (fun _ _ h => h) ?_))
    intro result _ _
    match result with
    | .error e => simp
    | .ok _ =>
        refine alone_pure fun response hresponse => ?_
        obtain rfl := Except.ok.inj hresponse
        exact visible_of_nil rfl
  dsimp only
  split_ifs
  · exact alone_raise (by simp)
  · exact alone_raise (by simp)
  · exact alone_bind (alone_requireGroups (fun _ queue => hset _ hknown) fun _ _ => by simp)
  · exact hset _ hknown

end Changing

/-- One request of the user API, from any state. -/
theorem hides_handler {w : World settings} {request : Request} (husers : request.isUsers)
    (hadmitted : ¬ CreatesHidden w request) : HidesFrom w request.handler := by
  cases request with
  | listUsers search includeCerts page pageSize =>
      exact hides_from (hides_listUsers search includeCerts page pageSize) w
  | createUser body => exact hides_createUser hadmitted
  | getUser userId => exact hides_from (hides_getUser userId) w
  | updateUser userId body => exact hides_updateUser userId body
  | deleteUser userId => exact hides_deleteUser userId
  | setPassword userId password => exact hides_from (hides_setPassword userId password) w
  | enrollUser userId => exact hides_from (hides_enrollUser userId) w
  | listUserCerts userId readable => exact hides_from (hides_listUserCerts userId readable) w
  | generateUserCert userId name => exact hides_from (hides_generateUserCert userId name) w
  | revokeUserCert userId certId certName =>
      exact hides_from (hides_revokeUserCert userId certId certName) w
  | downloadUserCert userId certName readable =>
      exact hides_from (hides_downloadUserCert userId certName readable) w
  | setUserGroups userId groups => exact hides_setUserGroups userId groups
  | listGroups => cases husers
  | createGroup name => cases husers
  | getGroup groupId => cases husers
  | deleteGroup groupId => cases husers
  | listServiceAccounts => cases husers
  | createServiceAccount body => cases husers
  | updateServiceAccount accountId displayName groups => cases husers
  | getServiceAccount accountId => cases husers
  | deleteServiceAccount accountId => cases husers
  | downloadCert accountId readable => cases husers
  | checkUserExpiry => cases husers

/-! ## Runs -/

/-- What the runs of this file consist of. -/
def UsersOnly (w : World settings) (request : Request) : Prop :=
  request.isUsers ∧ ¬ CreatesHidden w request

/-- **Hidden accounts.**  In every run of requests to the user API none of which creates a
hidden account by name, no hidden account is created, changed or shown, whatever fails and
whatever else happens to the other accounts. -/
theorem hidden_out_of_reach {w w' : World settings}
    (hrun : Run (Along (HiddenKept settings)) UsersOnly w w') :
    Along (HiddenKept settings) w w' ∧
      ∀ request, UsersOnly w' request →
        Along (HiddenKept settings) w' (request.serve w') ∧
          ∀ response, (request.handler.run w').1 = .ok response → Visible settings response := by
  refine ⟨hrun.keeps (fun _ _ h => h) fun w request h => ?_, fun request h => ?_⟩
  · exact (hides_handler h.1 h.2).whole
  · exact ⟨(hides_handler h.1 h.2).whole, (hides_handler h.1 h.2).ends⟩

/-- A service with a hidden account and one group. -/
def hiddenWorld : World Settings.small where
  identity := .start (Directory.createGroup "tak_ops"
    (Directory.createUser "adm_ldap" "LDAP" .empty).2).2 0
  pki := .empty
  revocations := []

/-- `POST /api/users` with the name of a hidden account: it becomes a user with a group, and
is shown. -/
theorem hidden_account_changed :
    let body : CreateUserRequest := ⟨"adm_ldap", "x", none, ["ops"]⟩
    let answer := (Request.createUser body).handler.run hiddenWorld
    isHidden Settings.small .users "adm_ldap" ∧
      hiddenWorld.identity.directory.attributesOf "adm_ldap" = some Attributes.none ∧
      answer.2.identity.directory.attributesOf "adm_ldap" =
        some ⟨none, some false, none, some "user"⟩ ∧
      (match answer.1 with
        | .ok response => response.usernames
        | .error _ => []) = ["adm_ldap"] := by
  decide +kernel

/-- A visible user is created and updated next to a hidden account. -/
theorem hidden_out_of_reach_of_bob :
    let w := (Request.updateUser (Settings.small.numericId "bob") ⟨some "Robert", none, none⟩).serve
      ((Request.createUser ⟨"bob", "Bob", none, ["ops"]⟩).serve hiddenWorld)
    Along (HiddenKept Settings.small) hiddenWorld w := by
  intro w
  have hcreate : UsersOnly hiddenWorld (.createUser ⟨"bob", "Bob", none, ["ops"]⟩) := by
    refine ⟨rfl, ?_⟩
    rintro ⟨body, hbody, -, hhidden, -⟩
    obtain rfl := Request.createUser.inj hbody
    exact absurd hhidden (by decide +kernel)
  have hupdate : ∀ w : World Settings.small,
      UsersOnly w (.updateUser (Settings.small.numericId "bob") ⟨some "Robert", none, none⟩) := by
    refine fun w => ⟨rfl, ?_⟩
    rintro ⟨body, hbody, -⟩
    cases hbody
  exact (hidden_out_of_reach (.tail (.single (.serve _ hcreate)) (.serve _ (hupdate _)))).1

end FastTAK.Api
