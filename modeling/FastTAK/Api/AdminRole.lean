import FastTAK.Api.ExistingNames
import FastTAK.Identity.Grants

/-!
# The administrators' group

The listing hides the group `tak_ROLE_ADMIN`, and the requests that set groups accept
the listed names only.  A listed name lost its `tak_` while the write adds it to names
without one, so that the two disagree on a group whose name has it twice.  This file says
that nothing else puts anybody into the group.
-/

namespace FastTAK.Api

open FastTAK.Effect FastTAK.Effect.Prog FastTAK.Certs FastTAK.Identity FastTAK.Naming

variable {settings : Settings}

/-! ## Requests without group names -/

/-- The requests that put an account into groups by their names. -/
def Request.setsGroups : Request → Bool
  | .createUser _ | .createServiceAccount _ | .setUserGroups .. => true
  | .updateServiceAccount _ _ groups => groups.isSome
  | _ => false

section Others

variable {R : Directory → Directory → Prop} [IsPreorder Directory R]
variable (hupdate : ∀ username name inserted dir,
  R dir (Directory.updateUser username name inserted dir).2)

theorem along_requireAccount (accountId : ℤ) :
    Respects (Along R) (fun _ => True)
      (requireAccount accountId : Handler settings UserRecord) := by
  refine respects_bind (along_identity (respects_getUser .serviceAccounts accountId)) ?_
  intro found _
  cases found with
  | none => exact respects_raise _
  | some user =>
      dsimp only
      split_ifs
      · exact respects_pure trivial
      · exact respects_raise _

include hupdate

theorem along_deactivateAndRevoke (client : Client) (userId : ℤ) (username : String) :
    Respects (Along R) (fun _ => True)
      (deactivateAndRevoke client userId username : Handler settings Unit) := by
  refine respects_bind (along_identity (respects_deactivateUser fun v _ =>
    stepOf_along (hupdate v none _))) fun _ _ => ?_
  split_ifs
  · refine respects_bind (along_revokeAll username) fun allRevoked _ => ?_
    split_ifs
    · exact along_identity (respects_markCertsRevoked fun v _ _ =>
        stepOf_along (hupdate v none _))
    · exact respects_pure trivial
  · exact respects_pure trivial

theorem along_expireUser (user : UserRecord) :
    Respects (Along R) (fun _ => True) (expireUser user : Handler settings Unit) := by
  have hrevoke : Respects (Along R) (fun _ => True) (do
      let allRevoked ← revokeAll user.username
      if allRevoked then identity (markCertsRevoked .scheduler user.id) :
      Handler settings Unit) := by
    refine respects_bind (along_revokeAll user.username) fun allRevoked _ => ?_
    split_ifs
    · exact along_identity (respects_markCertsRevoked fun v _ _ =>
        stepOf_along (hupdate v none _))
    · exact respects_pure trivial
  have hdeactivate : Respects (Along R) (fun _ => True)
      (identity (deactivateUser .scheduler user.id) : Handler settings Unit) :=
    along_identity (respects_deactivateUser fun v _ => stepOf_along (hupdate v none _))
  refine respects_tryExcept ?_ fun _ => respects_pure trivial
  dsimp only
  split_ifs
  · exact respects_bind hdeactivate fun _ _ => hrevoke
  · exact respects_bind hdeactivate fun _ _ => respects_pure trivial
  · exact hrevoke
  · exact respects_pure trivial

theorem along_checkUserExpiry :
    Respects (Along R) (fun _ => True) (Api.checkUserExpiry : Handler settings Unit) := by
  have hpending : Respects (Along R) (fun _ => True)
      (tryExcept (fun _ => pure []) (identity (getUsersPendingExpiry .scheduler)) :
        Handler settings (List UserRecord)) :=
    respects_tryExcept (along_identity ((respects_getUsersPendingExpiry .scheduler).mono
      (fun _ _ h => h) fun _ _ => trivial)) fun _ => respects_pure trivial
  exact respects_bind hpending fun pending _ =>
    respects_forList pending fun user _ => along_expireUser hupdate user

theorem along_updateAccount (client : Client) (userId : ℤ) (changes : UserChanges) :
    Respects (Along R) (fun _ => True)
      (identity (Identity.updateUser client userId changes) :
        Handler settings (Option UserRecord)) :=
  along_identity (respects_updateUser
    (fun username _ _ _ => stepOf_along (hupdate username changes.name _))
    fun username _ _ _ _ => stepOf_along (hupdate username changes.name _))

end Others

section Tokens

variable {R : Directory → Directory → Prop} [IsPreorder Directory R]

theorem along_createToken (userId : ℤ) :
    Respects (Along R) (fun _ => True)
      (identity (getOrCreateEnrollmentToken .users userId settings.enrollmentTokenTtlMinutes
        settings.enrollmentTokenOneTime) : Handler settings (String × Option ℤ)) := by
  refine along_identity (respects_getOrCreateEnrollmentToken fun username _ s => ?_)
  unfold createToken
  split_ifs
  · exact refl_of (AlongId R) s
  · exact refl_of (AlongId R) s

theorem along_deleteTokens (userId : ℤ) :
    Respects (Along R) (fun _ => True)
      (identity (deleteEnrollmentTokens .users userId) : Handler settings ℕ) :=
  along_identity (respects_deleteEnrollmentTokens fun _ _ s => refl_of (AlongId R) s)

theorem along_generateUserCert (userId : ℤ) (name : String) :
    Respects (Along R) (fun _ => True)
      (Api.generateUserCert userId name : Handler settings Response) := by
  unfold Api.generateUserCert
  split_ifs
  · refine respects_bind (along_requireUser userId) fun user _ => ?_
    split_ifs
    · refine respects_bind (along_certs _) fun taken _ => ?_
      split_ifs
      · exact respects_raise _
      · refine respects_bind (P := fun _ => True) (respects_atomic fun w =>
          ⟨refl_of (Along R) w, fun _ _ => trivial⟩) fun now _ => ?_
        cases validityDaysUntil user.expires now with
        | error e => exact respects_raise _
        | ok validityDays =>
            refine respects_bind (along_certs _) fun result _ => ?_
            split_ifs
            · exact respects_pure trivial
            · exact respects_raise _
    · exact respects_raise _
  · exact respects_raise _

theorem along_revokeUserCert (userId : ℤ) (certId : Option ℤ) (certName : Option String) :
    Respects (Along R) (fun _ => True)
      (Api.revokeUserCert userId certId certName : Handler settings Response) := by
  have hlast : Respects (Along R) (fun _ => True) (do
      let _ ← identity (deleteEnrollmentTokens .users userId)
      return Response.success : Handler settings Response) :=
    respects_bind (along_deleteTokens userId) fun _ _ => respects_pure trivial
  refine respects_bind (along_requireUser userId) fun user _ => ?_
  match certId, certName with
  | some certId, _ =>
      dsimp only
      split_ifs
      · refine respects_bind (along_takCerts user.username) fun found _ => ?_
        split
        · exact respects_raise _
        · split
          · exact respects_raise _
          · refine respects_bind (along_certs _) fun result _ => ?_
            split_ifs
            · exact respects_bind (along_certs _) fun _ _ => hlast
            · exact respects_raise _
      · exact respects_raise _
  | none, some certName =>
      refine respects_bind (along_certs _) fun result _ => ?_
      split_ifs
      · exact hlast
      · exact respects_raise _
  | none, none => exact respects_raise _

end Tokens

/-- A request that sets no groups moves the directory along what the updates of accounts and
the changes of the list of groups do. -/
theorem along_handler {R : Directory → Directory → Prop} [IsPreorder Directory R]
    (hupdate : ∀ username name inserted dir,
      R dir (Directory.updateUser username name inserted dir).2)
    (hcreate : ∀ name dir, R dir (Directory.createGroup name dir).2)
    (hdelete : ∀ gid dir, R dir (Directory.deleteGroup gid dir).2)
    {request : Request} (hnone : request.setsGroups = false) :
    Respects (Along R) (fun _ => True) (request.handler : Handler settings Response) := by
  cases request with
  | listUsers search includeCerts page pageSize =>
      refine respects_bind (along_identity (respects_listUsers .users search)) fun users _ => ?_
      have hshown : ∀ user : UserRecord, Respects (Along R) (fun _ => True)
          (if includeCerts then do
            let certs ← takCerts user.username
            return (user, certs)
          else return (user, []) : Handler settings (UserRecord × List CertadminCert)) := by
        intro user
        split_ifs
        · exact respects_bind (along_takCerts user.username) fun _ _ => respects_pure trivial
        · exact respects_pure trivial
      exact respects_bind (respects_mapList (Q := fun _ => True) _ fun user _ => hshown user)
        fun _ _ => respects_pure trivial
  | createUser body => cases hnone
  | getUser userId =>
      exact respects_bind (along_requireUser userId) fun user _ =>
        respects_bind (along_takCerts user.username) fun _ _ => respects_pure trivial
  | updateUser userId body =>
      exact respects_bind (along_requireUser userId) fun _ _ =>
        respects_bind (along_updateAccount hupdate .users userId body)
          fun _ _ => respects_pure trivial
  | deleteUser userId =>
      exact respects_bind (along_requireUser userId) fun user _ =>
        respects_bind (along_deactivateAndRevoke hupdate .users userId user.username)
          fun _ _ => respects_pure trivial
  | setPassword userId password =>
      change Respects _ _ (Api.setPassword userId password)
      unfold Api.setPassword
      split_ifs
      · exact respects_raise _
      · refine respects_bind (along_requireUser userId) fun user _ => ?_
        split_ifs
        · exact respects_bind (along_identity (respects_setPassword .users userId))
            fun _ _ => respects_pure trivial
        · exact respects_raise _
  | enrollUser userId =>
      refine respects_bind (along_requireUser userId) fun user _ => ?_
      split_ifs
      · exact respects_bind (along_createToken userId) fun _ _ => respects_pure trivial
      · exact respects_raise _
  | listUserCerts userId readable =>
      exact respects_bind (along_requireUser userId) fun user _ =>
        respects_bind (along_takCerts user.username) fun _ _ =>
          respects_bind (along_certs _) fun _ _ => respects_pure trivial
  | generateUserCert userId name => exact along_generateUserCert userId name
  | revokeUserCert userId certId certName => exact along_revokeUserCert userId certId certName
  | downloadUserCert userId certName readable =>
      change Respects _ _ (Api.downloadUserCert userId certName readable)
      unfold Api.downloadUserCert
      split_ifs
      · exact respects_bind (along_requireUser userId) fun user _ =>
          respects_bind (along_certs _) fun _ _ => respects_pure trivial
      · exact respects_raise _
  | listGroups =>
      exact respects_bind (along_identity respects_listGroups) fun _ _ => respects_pure trivial
  | createGroup name =>
      exact respects_bind (along_identity (respects_createGroup (stepOf_along (hcreate _))))
        fun _ _ => respects_pure trivial
  | getGroup groupId =>
      refine respects_bind (along_identity (respects_getGroup .users groupId)) fun found _ => ?_
      cases found with
      | none => exact respects_raise _
      | some g => exact respects_pure trivial
  | deleteGroup groupId =>
      refine respects_bind (along_identity (respects_getGroup .users groupId)) fun found _ => ?_
      cases found with
      | none => exact respects_raise _
      | some g =>
          exact respects_bind (along_identity (respects_deleteGroup fun gid =>
            stepOf_along (hdelete gid))) fun _ _ => respects_pure trivial
  | setUserGroups userId groups => cases hnone
  | listServiceAccounts =>
      exact respects_bind (along_identity (respects_listUsers _ _)) fun _ _ =>
        respects_pure trivial
  | createServiceAccount body => cases hnone
  | updateServiceAccount accountId displayName groups =>
      cases groups with
      | some groups => cases hnone
      | none =>
          refine respects_bind (along_requireAccount accountId) fun user _ => ?_
          refine respects_bind (P := fun _ => True) (respects_pure trivial) fun _ _ => ?_
          refine respects_bind (P := fun _ => True) ?_ fun _ _ =>
            respects_bind (P := fun _ => True) (respects_pure trivial)
              fun _ _ => respects_pure trivial
          cases displayName with
          | none => exact respects_pure trivial
          | some name =>
              exact respects_bind (along_updateAccount hupdate .serviceAccounts accountId _)
                fun _ _ => respects_pure trivial
  | getServiceAccount accountId =>
      exact respects_bind (along_requireAccount accountId) fun user _ =>
        respects_bind (along_takCerts user.username) fun _ _ => respects_pure trivial
  | deleteServiceAccount accountId =>
      exact respects_bind (along_requireAccount accountId) fun user _ =>
        respects_bind (along_deactivateAndRevoke hupdate .serviceAccounts accountId
          user.username) fun _ _ =>
          respects_bind (along_certs _) fun _ _ => respects_pure trivial
  | downloadCert accountId readable =>
      refine respects_bind (along_requireAccount accountId) fun user _ => ?_
      refine respects_bind (along_certs _) fun found _ => ?_
      cases found with
      | none => exact respects_raise _
      | some bundle =>
          refine respects_bind (along_certs _) fun isRevoked _ => ?_
          split_ifs
          · exact respects_raise _
          · exact respects_pure trivial
  | checkUserExpiry =>
      exact respects_bind (along_checkUserExpiry hupdate) fun _ _ => respects_pure trivial

/-! ## Requests with group names -/

/-- The group that gives administrators their rights. -/
abbrev roleAdmin : String := "tak_ROLE_ADMIN"

/-- The requests that put nobody else into the group: those that do not ask for it by the name
under which the listing shows `tak_tak_ROLE_ADMIN`, that are refused, or that are for somebody
who may be in it. -/
def LeavesAdmins (members : Set String) (w : World settings) : Request → Prop
  | .createUser body =>
      roleAdmin ∈ body.groups → ¬ acceptsUsername body.username ∨ MissesGroup body.groups w ∨
        body.username ∈ members
  | .createServiceAccount body =>
      roleAdmin ∈ body.groups → ¬ body.accepted ∨ MissesGroup body.groups w ∨
        serviceUsername body.name ∈ members
  | .setUserGroups userId groups =>
      roleAdmin ∈ groups → MissesGroup groups w ∨
        ∀ username ∈ w.identity.directory.accounts, settings.numericId username = userId →
          isHidden settings .users username ∨
            w.identity.directory.userTypeOf username = some "svc_admin" ∨ username ∈ members
  | .updateServiceAccount accountId _ groups =>
      ∀ wanted ∈ groups, roleAdmin ∈ wanted → MissesGroup wanted w ∨
        ∀ username ∈ w.identity.directory.accounts, settings.numericId username = accountId →
          ¬ "svc_".toList <+: username.toList ∨
            w.identity.directory.userTypeOf username = some "svc_admin" ∨ username ∈ members
  | _ => True

/-- The group is not listed under the name without `tak_`. -/
theorem roleAdmin_not_listed {name : String} {dir : Directory}
    (hname : name ∈ (listedGroups dir).map Prod.snd) (hne : name ≠ roleAdmin) :
    takName name ≠ roleAdmin := by
  intro htak
  by_cases hlead : isTakName name
  · rw [takName, if_pos hlead] at htak
    exact hne htak
  · rw [takName, if_neg hlead] at htak
    obtain ⟨entry, hentry, hsnd⟩ := List.mem_map.mp hname
    obtain ⟨g, hg, rfl⟩ := List.mem_map.mp hentry
    obtain ⟨hlisted, hshown⟩ := Bool.and_eq_true_iff.mp (List.mem_filter.mp hg).2
    rw [← hsnd, tak_bodyName hlisted] at htak
    simp [htak] at hshown

section Handlers

variable {members : Set String} {w : World settings}

theorem leavesAdmins_createUser {body : CreateUserRequest}
    (hleaves : LeavesAdmins members w (.createUser body)) :
    Alone (Along (StaysWithin roleAdmin members)) (fun _ _ => True) (Api.createUser body) w := by
  unfold Api.createUser
  split_ifs with hrefused
  · exact alone_raise trivial
  · push Not at hrefused
    refine alone_bind (alone_requireGroups (fun hlisted queue => ?_) fun _ _ => trivial)
    have hgroups : body.username ∈ members ∨ ∀ g ∈ body.groups, takName g ≠ roleAdmin := by
      by_cases hasks : roleAdmin ∈ body.groups
      · rcases hleaves hasks with hno | ⟨g, hg, hno⟩ | hmember
        · exact absurd hrefused.1 hno
        · exact absurd (hlisted g hg) hno
        · exact Or.inl hmember
      · exact Or.inr fun g hg => roleAdmin_not_listed (hlisted g hg) fun h => hasks (h ▸ hg)
    refine alone_bind (alone_along ((alone_createUser_within hgroups).mono (fun _ _ h => h) ?_))
    rintro (e | user) s -
    · trivial
    · exact alone_pure trivial

theorem leavesAdmins_makeAccount {body : CreateServiceAccountRequest}
    (hgroups : serviceUsername body.name ∈ members ∨ ∀ g ∈ body.groups, takName g ≠ roleAdmin) :
    Alone (Along (StaysWithin roleAdmin members)) (fun _ _ => True) (makeAccount body) w := by
  have hrollback : ∀ userId, Respects (Along (StaysWithin roleAdmin members)) (fun _ => True)
      (rollback userId : Handler settings Unit) := fun userId =>
    respects_tryExcept (along_identity (respects_deactivateUser fun v _ =>
      stepOf_along (staysWithin_updateUser v none _))) fun _ => respects_pure trivial
  refine alone_bind (alone_along ((alone_createUser_within hgroups).mono (fun _ _ h => h) ?_))
  rintro (e | user) s -
  · trivial
  have hend : ∀ {handler : Handler settings Response},
      Respects (Along (StaysWithin roleAdmin members)) (fun _ => True) handler →
      Alone (Along (StaysWithin roleAdmin members)) (fun _ _ => True) handler
        (w.withIdentity s) := fun hhandler =>
    (hhandler.alone (fun _ _ _ _ => trivial) trivial).mono (fun _ _ h => h) fun _ _ _ => trivial
  apply hend
  refine respects_bind (along_certs _) fun generated _ => ?_
  split_ifs
  · unfold equipAccount
    cases body.mode with
    | data => exact respects_bind (along_certs _) fun _ _ => respects_pure trivial
    | admin =>
        refine respects_bind (along_certs _) fun registered _ => ?_
        split_ifs
        · exact respects_pure trivial
        · exact respects_bind (hrollback user.id) fun _ _ => respects_raise _
  · exact respects_bind (hrollback user.id) fun _ _ => respects_raise _

theorem leavesAdmins_createServiceAccount {body : CreateServiceAccountRequest}
    (hleaves : LeavesAdmins members w (.createServiceAccount body)) :
    Alone (Along (StaysWithin roleAdmin members)) (fun _ _ => True)
      (Api.createServiceAccount body) w := by
  by_cases hrefused : ¬ body.accepted
  · rw [Api.createServiceAccount, if_pos hrefused]
    exact alone_raise trivial
  rw [Api.createServiceAccount, if_neg hrefused]
  by_cases hmode : body.mode = .data
  · rw [if_pos hmode]
    refine alone_bind (alone_requireGroups (fun hlisted queue => ?_) fun _ _ => trivial)
    apply leavesAdmins_makeAccount
    by_cases hasks : roleAdmin ∈ body.groups
    · rcases hleaves hasks with hno | ⟨g, hg, hno⟩ | hmember
      · exact absurd hno hrefused
      · exact absurd (hlisted g hg) hno
      · exact Or.inl hmember
    · exact Or.inr fun g hg => roleAdmin_not_listed (hlisted g hg) fun h => hasks (h ▸ hg)
  · rw [if_neg hmode]
    apply leavesAdmins_makeAccount
    have hadmin : body.mode = .admin := by
      cases h : body.mode with
      | data => exact absurd h hmode
      | admin => rfl
    have haccepted := not_not.mp hrefused
    simp only [CreateServiceAccountRequest.accepted, hadmin, Bool.and_eq_true,
      decide_eq_true_eq] at haccepted
    right
    intro g hg
    rw [haccepted.1.2] at hg
    cases hg

theorem alone_setUserGroups_within {client : Client} {userId : ℤ} {username : String}
    {groups : List String} {s : IdentityState settings} (hknown : Known client userId username s)
    (hgroups : username ∈ members ∨ ∀ g ∈ groups, takName g ≠ roleAdmin) :
    Alone (AlongId (StaysWithin roleAdmin members)) (fun _ _ => True)
      (Identity.setUserGroups client userId groups) s :=
  alone_requireUsername_bind hknown (alone_assignGroups_within hgroups)

theorem leavesAdmins_setUserGroups {userId : ℤ} {groups : List String}
    (hleaves : LeavesAdmins members w (.setUserGroups userId groups)) :
    Alone (Along (StaysWithin roleAdmin members)) (fun _ _ => True)
      (Api.setUserGroups userId groups) w := by
  refine alone_bind (alone_requireUser (fun user s hquiet hshows hknown => ?_)
    fun _ _ _ => trivial)
  have hlast : ∀ queue, (user.username ∈ members ∨ ∀ g ∈ groups, takName g ≠ roleAdmin) →
      Alone (Along (StaysWithin roleAdmin members)) (fun _ _ => True) (do
        identity (Identity.setUserGroups .users userId groups)
        return Response.success) ((w.withIdentity s).withFaults queue) := by
    intro queue hgroups
    have hknown' : Known .users userId user.username (withQueue queue s) := hknown
    refine alone_bind (alone_along ((alone_setUserGroups_within hknown' hgroups).mono
      (fun _ _ h => h) ?_))
    rintro (e | _) s' -
    · trivial
    · exact alone_pure trivial
  dsimp only
  split_ifs with hadmin hempty hgroups
  · exact alone_raise trivial
  · exact alone_raise trivial
  · refine alone_bind (alone_requireGroups (fun hlisted queue => hlast queue ?_)
      fun _ _ => trivial)
    have hlisted' : ∀ g ∈ groups, g ∈ (listedGroups w.identity.directory).map Prod.snd := by
      rw [← hquiet.directory]
      exact hlisted
    by_cases hasks : roleAdmin ∈ groups
    · rcases hleaves hasks with ⟨g, hg, hno⟩ | hall
      · exact absurd (hlisted' g hg) hno
      · rcases hall user.username (mem_accounts_of_shows hshows) hshows.id with
          hhidden | htype | hmember
        · exact absurd hhidden hshows.visible
        · rw [userType_of_shows hshows] at htype
          simp [htype] at hadmin
        · exact Or.inl hmember
    · exact Or.inr fun g hg => roleAdmin_not_listed (hlisted' g hg) fun h => hasks (h ▸ hg)
  · refine hlast s.lldap (Or.inr fun g hg => ?_)
    rw [not_not.mp hgroups] at hg
    cases hg

theorem leavesAdmins_updateServiceAccount {accountId : ℤ} {displayName : Option String}
    {wanted : List String}
    (hleaves : LeavesAdmins members w (.updateServiceAccount accountId displayName (some wanted))) :
    Alone (Along (StaysWithin roleAdmin members)) (fun _ _ => True)
      (Api.updateServiceAccount accountId displayName (some wanted)) w := by
  refine alone_bind (alone_requireAccount (fun user s hquiet hshows hknown hservice => ?_)
    fun _ _ _ => trivial)
  change Alone _ _ (checkAccountGroups user (some wanted) >>= _) _
  rw [checkAccountGroups]
  split_ifs with hadmin hempty
  · exact alone_bind (alone_raise trivial)
  · exact alone_bind (alone_raise trivial)
  refine alone_bind (alone_requireGroups (fun hlisted queue => ?_) fun _ _ => trivial)
  have hlisted' : ∀ g ∈ wanted, g ∈ (listedGroups w.identity.directory).map Prod.snd := by
    rw [← hquiet.directory]
    exact hlisted
  have hgroups : user.username ∈ members ∨ ∀ g ∈ wanted, takName g ≠ roleAdmin := by
    by_cases hasks : roleAdmin ∈ wanted
    · rcases hleaves wanted rfl hasks with ⟨g, hg, hno⟩ | hall
      · exact absurd (hlisted' g hg) hno
      · rcases hall user.username (mem_accounts_of_shows hshows) hshows.id with
          hno | htype | hmember
        · exact absurd hservice hno
        · exact absurd ((userType_of_shows hshows).symm.trans htype) hadmin
        · exact Or.inl hmember
    · exact Or.inr fun g hg => roleAdmin_not_listed (hlisted' g hg) fun h => hasks (h ▸ hg)
  have hrenamed : Alone (Along (StaysWithin roleAdmin members))
      (fun _ w' => Known .serviceAccounts accountId user.username w'.identity)
      (renameAccount accountId displayName) ((w.withIdentity s).withFaults queue) := by
    cases displayName with
    | none => exact alone_pure hknown
    | some name =>
        have hknown' : Known .serviceAccounts accountId user.username (withQueue queue s) :=
          hknown
        refine alone_bind (alone_along ((alone_rename hknown'
          (stepOf_along (staysWithin_updateUser user.username (some name) _))).mono
            (fun _ _ h => h) ?_))
        rintro (e | _) s' h
        · exact h
        · exact alone_pure h
  refine alone_bind (hrenamed.mono (fun _ _ h => h) ?_)
  rintro (e | _) w' hknown'
  · trivial
  refine alone_bind (alone_along ((alone_setUserGroups_within hknown' hgroups).mono
    (fun _ _ h => h) ?_))
  rintro (e | _) s' -
  · trivial
  · exact alone_pure trivial

/-- One request, whatever fails. -/
theorem leavesAdmins_serve {request : Request} (hleaves : LeavesAdmins members w request) :
    Along (StaysWithin roleAdmin members) w (request.serve w) := by
  by_cases hnone : request.setsGroups = false
  · have hothers : Respects (Along (StaysWithin roleAdmin members)) (fun _ => True)
        (request.handler : Handler settings Response) :=
      along_handler staysWithin_updateUser staysWithin_createGroup staysWithin_deleteGroup hnone
    exact hothers.keeps w
  · cases request with
    | createUser body => exact (leavesAdmins_createUser hleaves).whole
    | createServiceAccount body => exact (leavesAdmins_createServiceAccount hleaves).whole
    | setUserGroups userId groups => exact (leavesAdmins_setUserGroups hleaves).whole
    | updateServiceAccount accountId displayName groups =>
        cases groups with
        | none => exact absurd rfl hnone
        | some wanted => exact (leavesAdmins_updateServiceAccount hleaves).whole
    | _ => exact absurd rfl hnone

end Handlers

/-! ## Runs -/

/-- **The administrators' group.**  In every run of requests that leave the group to its
members, whatever fails, nobody else is ever in it. -/
theorem admins_of_run {members : Set String} {w w' : World settings}
    (hrun : Run (Along (StaysWithin roleAdmin members)) (LeavesAdmins members) w w')
    (hstart : w.identity.directory.Within roleAdmin members) :
    w'.identity.directory.Within roleAdmin members := by
  have hkept : Along (StaysWithin roleAdmin members) w w' :=
    hrun.keeps (fun _ _ h => h) fun _ _ hleaves => leavesAdmins_serve hleaves
  exact hkept hstart

/-- A service with the administrators' group, which has one member. -/
def adminWorld : World Settings.small where
  identity := .start (Directory.addUserToGroup "webadmin" 1
    (Directory.createUser "webadmin" "Admin" (Directory.createGroup roleAdmin .empty).2).2).2 0
  pki := .empty
  revocations := []

/-- `POST /api/groups` with the name `tak_tak_ROLE_ADMIN`. -/
def twiceNamed : World Settings.small := (Request.createGroup "tak_tak_ROLE_ADMIN").serve adminWorld

theorem within_adminWorld : adminWorld.identity.directory.Within roleAdmin {"webadmin"} := by
  rintro v ⟨g, hg, -, hv⟩
  have hgroups : adminWorld.identity.directory.groups = [⟨1, roleAdmin, ["webadmin"]⟩] := by
    decide +kernel
  rw [hgroups] at hg
  obtain rfl := List.mem_singleton.mp hg
  exact List.mem_singleton.mp hv

/-- `POST /api/users` with the group `tak_ROLE_ADMIN` after it: the name is listed, for the
group that has `tak_` twice, and the new user becomes an administrator. -/
theorem admin_granted :
    let w := (Request.createUser ⟨"kim", "Kim", none, [roleAdmin]⟩).serve twiceNamed
    adminWorld.identity.directory.Within roleAdmin {"webadmin"} ∧
      Run (fun _ _ => False) (fun _ _ => True) adminWorld w ∧
      w.identity.directory.IsMember "kim" roleAdmin ∧
      ¬ w.identity.directory.Within roleAdmin {"webadmin"} := by
  intro w
  have hmember : w.identity.directory.IsMember "kim" roleAdmin := by decide +kernel
  refine ⟨within_adminWorld, ?_, hmember, fun hwithin => ?_⟩
  · exact .tail (.single (.serve _ trivial)) (.serve _ trivial)
  · exact absurd (hwithin "kim" hmember) (by decide)

/-- The creation of the group that has `tak_` twice makes nobody an administrator. -/
theorem within_twiceNamed : twiceNamed.identity.directory.Within roleAdmin {"webadmin"} := by
  have hrun : Run (Along (StaysWithin roleAdmin {"webadmin"})) (LeavesAdmins {"webadmin"})
      adminWorld twiceNamed := .single (.serve (.createGroup "tak_tak_ROLE_ADMIN") trivial)
  exact admins_of_run hrun within_adminWorld

end FastTAK.Api
