import FastTAK.Api.ExistingNames
import FastTAK.Identity.UserTypes

/-!
# Groups by type of account

An account of type `svc_admin` has no `tak_` group, and a created one of type `user` or
`svc_data` has at least one.  This file says for which requests the rule survives,
whatever fails, and that it survives any run of these.
-/

namespace FastTAK.Api

open FastTAK.Effect FastTAK.Effect.Prog FastTAK.Certs FastTAK.Identity FastTAK.Naming

variable {settings : Settings} {α : Type}

/-! ## The rule -/

/-- The types that need a group. -/
def Grouped (userType : Option String) : Prop :=
  userType = some "user" ∨ userType = some "svc_data"

instance (userType : Option String) : Decidable (Grouped userType) :=
  inferInstanceAs (Decidable (_ ∨ _))

/-- The rule for one account; `created` are the ones that were successfully created. -/
structure RuleFor (created : List String) (username : String) (dir : Directory) : Prop where
  admin : dir.userTypeOf username = some "svc_admin" → ¬ dir.HasTakGroup username
  grouped : username ∈ created → Grouped (dir.userTypeOf username) → dir.HasTakGroup username

/-- DD-032. -/
def GroupRule (created : List String) (dir : Directory) : Prop :=
  ∀ username, RuleFor created username dir

theorem RuleFor.of_sameRole {created : List String} {username : String} {dir dir' : Directory}
    (hrule : RuleFor created username dir) (hsame : SameRole username dir dir') :
    RuleFor created username dir' where
  admin := by
    rw [hsame.userType, hsame.hasTakGroup_iff]
    exact hrule.admin
  grouped := by
    rw [hsame.userType, hsame.hasTakGroup_iff]
    exact hrule.grouped

/-- One account changes, and it may be the only one that is new. -/
theorem groupRule_of_others {created created' : List String} {username : String}
    {dir dir' : Directory} (hrule : GroupRule created dir)
    (hothers : RolesKept (· ≠ username) dir dir') (hself : RuleFor created' username dir')
    (hcreated : ∀ v ∈ created', v ≠ username → v ∈ created) : GroupRule created' dir' := by
  intro v
  rcases eq_or_ne v username with rfl | hne
  · exact hself
  · have hold := (hrule v).of_sameRole (hothers v hne)
    exact ⟨hold.admin, fun hv => hold.grouped (hcreated v hv hne)⟩

/-! ## Requests that keep it -/

/-- The first group asked for can be ensured: LLDAP answers and it exists, or no request is
lost. -/
def EnsuresFirst (groups : List String) (w : World settings) : Prop :=
  ∃ first rest, groups = first :: rest ∧
    ((Lossy w.identity.lldap ∧ takName first ∈ w.identity.directory.groupNames.map Prod.snd) ∨
      Faultless w.identity.lldap)

/-- A creation with groups may fail halfway: then an account that was created before has a
group already, or the first group can be ensured. -/
def RemakesSafely (created : List String) (username : String) (groups : List String)
    (w : World settings) : Prop :=
  username ∈ created → w.identity.directory.HasTakGroup username ∨ EnsuresFirst groups w

/-- A change of groups does not end in between: the account is in one of the groups asked for
already, or LLDAP answers and one of them exists. -/
def RegroupsSafely (username : String) (groups : List String) (w : World settings) : Prop :=
  (∃ g ∈ groups, w.identity.directory.IsMember username (takName g)) ∨
    Lossy w.identity.lldap ∧
      ∃ g ∈ groups, takName g ∈ w.identity.directory.groupNames.map Prod.snd

/-- The account is in a `tak_` group with another id. -/
def HasTakGroupBeside (gid : ℤ) (dir : Directory) (username : String) : Prop :=
  ∃ g ∈ dir.groups, g.id ≠ gid ∧ isTakName g.displayName ∧ username ∈ g.members

/-- The requests that keep the rule.  Of the others, only those count that are refused. -/
def KeepsRule (created : List String) (w : World settings) : Request → Prop
  | .createUser body =>
      ¬ acceptsUsername body.username ∨ body.groups = [] ∨ MissesGroup body.groups w ∨
        RemakesSafely created body.username body.groups w
  | .createServiceAccount body =>
      ¬ body.accepted ∨
        match body.mode with
        | .data => MissesGroup body.groups w ∨
            RemakesSafely created (serviceUsername body.name) body.groups w
        | .admin => ¬ w.identity.directory.HasTakGroup (serviceUsername body.name)
  | .setUserGroups userId groups =>
      groups = [] ∨ MissesGroup groups w ∨
        ∀ username ∈ created, settings.numericId username = userId →
          Grouped (w.identity.directory.userTypeOf username) →
            isHidden settings .users username ∨ RegroupsSafely username groups w
  | .updateServiceAccount accountId _ groups =>
      ∀ wanted ∈ groups, MissesGroup wanted w ∨
        ∀ username ∈ created, settings.numericId username = accountId →
          Grouped (w.identity.directory.userTypeOf username) →
            ¬ "svc_".toList <+: username.toList ∨
              (w.identity.directory.userTypeOf username = some "svc_data" ∧ wanted = []) ∨
                RegroupsSafely username wanted w
  | .deleteGroup groupId =>
      ∀ gid ∈ pyInt groupId, ∀ username ∈ created,
        Grouped (w.identity.directory.userTypeOf username) →
          HasTakGroupBeside gid w.identity.directory username
  | _ => False

/-! ## What the handlers read -/

section Reading

variable {w : World settings}

theorem endsIn_requireUser {userId : ℤ} {post : Except Exn UserRecord → World settings → Prop}
    (hok : ∀ user s, Quiet w.identity s → Drops w.identity s →
      Shows settings .users userId w.identity.directory user →
      Known .users userId user.username s → post (.ok user) (w.withIdentity s))
    (herror : ∀ e s, Quiet w.identity s → post (.error e) (w.withIdentity s)) :
    EndsIn post (requireUser userId) w := by
  refine alone_bind (endsIn_identity ((alone_drops (alone_getUser .users userId w.identity)
    (respects_getUser .users userId)).mono (fun _ _ _ => trivial) ?_))
  rintro result s ⟨⟨hquiet, hshows⟩, hdrops⟩
  match result, hshows with
  | .error e, _ => exact herror e s hquiet
  | .ok none, _ => exact herror _ s hquiet
  | .ok (some user), hshows =>
      obtain ⟨hshow, hknown⟩ := hshows user rfl
      exact hok user s hquiet hdrops hshow hknown

theorem endsIn_requireAccount {accountId : ℤ}
    {post : Except Exn UserRecord → World settings → Prop}
    (hok : ∀ user s, Quiet w.identity s → Drops w.identity s →
      Shows settings .serviceAccounts accountId w.identity.directory user →
      Known .serviceAccounts accountId user.username s →
      "svc_".toList <+: user.username.toList → post (.ok user) (w.withIdentity s))
    (herror : ∀ e s, Quiet w.identity s → post (.error e) (w.withIdentity s)) :
    EndsIn post (requireAccount accountId) w := by
  refine alone_bind (endsIn_identity ((alone_drops
    (alone_getUser .serviceAccounts accountId w.identity)
    (respects_getUser .serviceAccounts accountId)).mono (fun _ _ _ => trivial) ?_))
  rintro result s ⟨⟨hquiet, hshows⟩, hdrops⟩
  match result, hshows with
  | .error e, _ => exact herror e s hquiet
  | .ok none, _ => exact herror _ s hquiet
  | .ok (some user), hshows =>
      obtain ⟨hshow, hknown⟩ := hshows user rfl
      dsimp only
      split_ifs with hservice
      · exact hok user s hquiet hdrops hshow hknown hservice
      · exact herror _ s hquiet

/-- The groups asked for are listed, or the request ends here. -/
theorem endsIn_listed {groups : List String} {post : Except Exn Unit → World settings → Prop}
    (hok : ¬ MissesGroup groups w → ∀ queue, Drops w.identity (withQueue queue w.identity) →
      post (.ok ()) (w.withFaults queue))
    (herror : ∀ queue e, post (.error e) (w.withFaults queue)) :
    EndsIn post (requireGroups groups) w := by
  have hlist : Alone Quiet (fun result s => ∃ queue, s = withQueue queue w.identity ∧
      ∀ listed, result = .ok listed → listed = listedGroups w.identity.directory)
      Identity.listGroups w.identity :=
    Identity.alone_listGroups (fun queue => ⟨queue, rfl, by simp⟩)
      fun queue _ => ⟨queue, rfl, by simp⟩
  have hdropped : Respects Drops (fun _ => True) (Identity.listGroups : IdProg settings _) :=
    respects_listGroups
  refine alone_bind (endsIn_identity ((alone_drops hlist hdropped).mono (fun _ _ _ => trivial) ?_))
  rintro (e | listed) s ⟨⟨queue, rfl, hlisted⟩, hdrops⟩
  · exact herror queue e
  · obtain rfl := hlisted listed rfl
    dsimp only
    split_ifs with hmissing
    · exact herror queue _
    · refine hok ?_ queue hdrops
      rintro ⟨g, hg, hnot⟩
      exact hmissing (List.ne_nil_of_mem (List.mem_filter.mpr ⟨hg, by simpa using hnot⟩))

end Reading

/-! ## Creations -/

/-- What a request without success leaves of the rule. -/
theorem GroupRule.mono {created created' : List String} {dir : Directory}
    (hrule : GroupRule created' dir) (hsub : created ⊆ created') : GroupRule created dir :=
  fun username => ⟨(hrule username).admin, fun h => (hrule username).grouped (hsub h)⟩

/-- No role has changed. -/
theorem GroupRule.of_rolesKept {created : List String} {dir dir' : Directory}
    (hrule : GroupRule created dir) (hkept : RolesKept (fun _ => True) dir dir') :
    GroupRule created dir' :=
  fun username => (hrule username).of_sameRole (hkept username trivial)

/-- The rule holds, and the account counts as created if its creation returned. -/
def RuleAfter (created : List String) (username : String) (result : Except Exn α)
    (dir : Directory) : Prop :=
  GroupRule created dir ∧ ∀ a, result = .ok a → GroupRule (username :: created) dir

theorem RuleAfter.of_error {created : List String} {username : String} {e : Exn}
    {dir : Directory} (hrule : GroupRule created dir) :
    RuleAfter created username (Except.error e : Except Exn α) dir :=
  ⟨hrule, fun _ h => by cases h⟩

section Creating

variable {created : List String} {w : World settings} {client : Client}
variable {username name : String} {ttlHours : Option ℤ} {groups : List String}

theorem RemakesSafely.of_drops {w' : World settings}
    (hsafe : RemakesSafely created username groups w)
    (hdirectory : w'.identity.directory = w.identity.directory)
    (hdrops : Drops w.identity w'.identity) : RemakesSafely created username groups w' := by
  intro hcreated
  rw [EnsuresFirst, hdirectory]
  refine (hsafe hcreated).imp_right ?_
  rintro ⟨first, rest, hgroups, hfirst⟩
  refine ⟨first, rest, hgroups, hfirst.imp ?_ ?_⟩
  · exact fun h => ⟨answering_lossy.drops hdrops h.1, h.2⟩
  · exact answering_faultless.drops hdrops

/-- The creation of an account of a type that needs a group. -/
theorem endsIn_newGrouped {userType : String} (htype : Grouped (some userType))
    (hgroups : groups ≠ []) (hrule : GroupRule created w.identity.directory)
    (hsafe : RemakesSafely created username groups w) :
    EndsIn (fun result w' => RuleAfter created username result w'.identity.directory)
      (identity (Identity.createUser client username name ttlHours groups userType)) w := by
  have hadmin : userType ≠ "svc_admin" := by
    rintro rfl
    simp [Grouped] at htype
  have hkeeps : Alone (AlongId (RolesKept (· ≠ username)))
      (fun _ s' => username ∈ created → s'.directory.HasTakGroup username ∨
        SameRole username w.identity.directory s'.directory)
      (Identity.createUser client username name ttlHours groups userType) w.identity := by
    by_cases hcreated : username ∈ created
    · rcases hsafe hcreated with hthere | ⟨first, rest, rfl, hfirst⟩
      · refine alone_createUser_remade.mono (fun _ _ h => h) fun _ _ h _ => Or.inl ?_
        obtain ⟨group, htak, hmember⟩ := hthere
        exact ⟨group, htak, h.1.grown group hmember⟩
      · rcases hfirst with ⟨hlossy, hexists⟩ | hfaultless
        · exact (alone_createUser_answered answering_lossy (Or.inl hexists) hlossy).mono
            (fun _ _ h => h) fun _ _ h _ => h
        · exact (alone_createUser_answered answering_faultless (Or.inr fun _ h => h)
            hfaultless).mono (fun _ _ h => h) fun _ _ h _ => h
    · exact alone_createUser_remade.mono (fun _ _ h => h) fun _ _ _ h => absurd h hcreated
  refine endsIn_identity ((alone_createUser_remade.since.and hkeeps).mono
    (fun _ _ _ => trivial) ?_)
  rintro result s ⟨⟨⟨hremade, hdone⟩, hothers⟩, hkept⟩
  have hold := hrule username
  have hself : RuleFor created username s.directory := by
    refine ⟨fun hnow => ?_, fun hcreated hnow => ?_⟩
    · rcases hremade.role with hsame | hsent
      · exact (hold.of_sameRole hsame).admin hnow
      · exact absurd (Option.some.inj (hsent.symm.trans hnow)) hadmin
    · rcases hkept hcreated with htak | hsame
      · exact htak
      · exact (hold.of_sameRole hsame).grouped hcreated hnow
  refine ⟨groupRule_of_others hrule hothers hself fun v hv _ => hv, fun user huser => ?_⟩
  obtain ⟨-, htak⟩ := hdone user huser
  refine groupRule_of_others hrule hothers ⟨hself.admin, fun _ _ => htak hgroups⟩ ?_
  exact fun v hv hne => (List.mem_cons.mp hv).resolve_left hne

/-- The creation of an account of the type that has no groups. -/
theorem endsIn_newAdmin (hrule : GroupRule created w.identity.directory)
    (hnone : ¬ w.identity.directory.HasTakGroup username) :
    EndsIn (fun result w' => RuleAfter created username result w'.identity.directory)
      (identity (Identity.createUser client username name ttlHours [] "svc_admin")) w := by
  refine endsIn_identity (alone_createUser_remade.since.mono (fun _ _ _ => trivial) ?_)
  rintro result s ⟨⟨hremade, hdone⟩, hothers⟩
  have hself : RuleFor created username s.directory := by
    refine ⟨fun _ => ?_, fun hcreated hnow => ?_⟩
    · rintro ⟨group, htak, hmember⟩
      exact hnone ⟨group, htak, hremade.same rfl group hmember⟩
    · rcases hremade.role with hsame | hsent
      · exact ((hrule username).of_sameRole hsame).grouped hcreated hnow
      · rw [hsent] at hnow
        simp [Grouped] at hnow
  refine ⟨groupRule_of_others hrule hothers hself fun v hv _ => hv, fun user huser => ?_⟩
  obtain ⟨htype, -⟩ := hdone user huser
  have hungrouped : ¬ Grouped (s.directory.userTypeOf username) := by
    rw [htype]
    simp [Grouped]
  refine groupRule_of_others hrule hothers ⟨hself.admin, fun _ hnow => ?_⟩ ?_
  · exact absurd hnow hungrouped
  · exact fun v hv hne => (List.mem_cons.mp hv).resolve_left hne

end Creating

/-! ## Changes -/

section Changing

variable {created : List String} {w : World settings} {client : Client} {userId : ℤ}
variable {username : String} {groups : List String}

/-- The change of the groups of an account that is not of the type without groups. -/
theorem endsIn_regroup (hknown : Known client userId username w.identity)
    (hrule : GroupRule created w.identity.directory)
    (hadmin : w.identity.directory.userTypeOf username ≠ some "svc_admin")
    (hsafe : username ∈ created → Grouped (w.identity.directory.userTypeOf username) →
      RegroupsSafely username groups w) :
    EndsIn (fun _ w' => GroupRule created w'.identity.directory)
      (identity (Identity.setUserGroups client userId groups)) w := by
  have hregroups : Respects (AlongId (Regroups username)) (fun _ => True)
      (assignGroups username groups : IdProg settings Unit) :=
    respects_assignGroups (fun gid => stepOf_along (regroups_removeUserFromGroup username gid))
      fun gid => stepOf_along (regroups_addUserToGroup username gid)
  have hkeeps : Alone (AlongId (Regroups username)) (fun _ s' => username ∈ created →
      Grouped (w.identity.directory.userTypeOf username) → s'.directory.HasTakGroup username)
      (assignGroups username groups) w.identity := by
    by_cases hneeds : username ∈ created ∧ Grouped (w.identity.directory.userTypeOf username)
    · rcases hsafe hneeds.1 hneeds.2 with ⟨g, hg, hmember⟩ | ⟨hlossy, g, hg, hexists⟩
      · exact (alone_assignGroups_of_isMember hg hmember).mono (fun _ _ h => h)
          fun _ _ h _ _ => ⟨takName g, isTakName_takName g, h⟩
      · have haccount : username ∈ w.identity.directory.accounts := by
          by_contra hnone
          have hgrouped := hneeds.2
          rw [Directory.userTypeOf, Directory.attributesOf_eq_none hnone] at hgrouped
          simp [Grouped] at hgrouped
        exact (alone_assignGroups_answered answering_lossy hg hexists haccount hlossy).mono
          (fun _ _ h => h) fun _ _ h _ _ => h
    · exact (hregroups.alone (fun _ _ _ _ => trivial) trivial).mono (fun _ _ h => h)
        fun _ _ _ hcreated hgrouped => absurd ⟨hcreated, hgrouped⟩ hneeds
  refine endsIn_identity (alone_requireUsername_bind hknown
    (hkeeps.since.mono (fun _ _ _ => trivial) ?_))
  rintro result s ⟨htak, hothers, htype⟩
  refine groupRule_of_others hrule hothers ⟨fun hnow => ?_, fun hcreated hnow => ?_⟩
    fun v hv _ => hv
  · exact absurd (htype.symm.trans hnow) hadmin
  · exact htak hcreated (htype ▸ hnow)

/-- No role has changed, and no group. -/
structure RolesAndGroups (dir dir' : Directory) : Prop where
  roles : RolesKept (fun _ => True) dir dir'
  groups : dir'.groups = dir.groups

instance : IsPreorder Directory RolesAndGroups where
  refl dir := ⟨refl_of (RolesKept _) dir, rfl⟩
  trans _ _ _ hfirst hsecond :=
    ⟨trans_of (RolesKept _) hfirst.roles hsecond.roles,
      hsecond.groups.trans hfirst.groups⟩

theorem RegroupsSafely.of_drops {w' : World settings}
    (hsafe : RegroupsSafely username groups w)
    (hkept : RolesAndGroups w.identity.directory w'.identity.directory)
    (hdrops : Drops w.identity w'.identity) : RegroupsSafely username groups w' := by
  refine hsafe.imp ?_ ?_
  · rintro ⟨g, hg, hmember⟩
    exact ⟨g, hg, ((hkept.roles username trivial).groups _).mpr hmember⟩
  · rintro ⟨hlossy, g, hg, hexists⟩
    refine ⟨answering_lossy.drops hdrops hlossy, g, hg, ?_⟩
    rw [Directory.groupNames_snd] at hexists ⊢
    rwa [hkept.groups]

/-- A new display name is all that changes. -/
theorem endsIn_rename (hknown : Known .serviceAccounts userId username w.identity)
    (displayName : Option String) :
    EndsIn (fun _ w' => Known .serviceAccounts userId username w'.identity ∧
      RolesAndGroups w.identity.directory w'.identity.directory ∧
      Drops w.identity w'.identity) (renameAccount userId displayName) w := by
  cases displayName with
  | none => exact alone_pure ⟨hknown, refl_of RolesAndGroups _, refl_of Drops _⟩
  | some name =>
      have htype : Attributes.none.userType = none := rfl
      have hstep : StepOf (@AlongId settings RolesAndGroups)
          (Directory.updateUser username (some name) []) := stepOf_along fun dir =>
        ⟨rolesKept_updateUser htype _ username (some name) dir,
          Directory.groups_updateUser username (some name) [] dir⟩
      have hdrops : Respects Drops (fun _ => True)
          (Identity.updateUser .serviceAccounts userId ⟨some name, none, none⟩ :
            IdProg settings (Option UserRecord)) :=
        respects_updateUser (fun _ _ _ _ => stepOf_drops _) fun _ _ _ _ _ => stepOf_drops _
      have hrename := alone_drops (alone_rename hknown hstep).since hdrops
      refine alone_bind (endsIn_identity (hrename.mono (fun _ _ _ => trivial) ?_))
      rintro (e | _) s ⟨⟨hknown, hkept⟩, hdropped⟩
      · exact ⟨hknown, hkept, hdropped⟩
      · exact alone_pure ⟨hknown, hkept, hdropped⟩

end Changing

/-! ## Handlers -/

section Handlers

variable {created : List String} {w : World settings}

theorem RuleAfter.of_bind {β : Type} {username : String} {result : Except Exn α}
    {dir : Directory} (hafter : RuleAfter created username result dir)
    (result' : Except Exn β) (hresult : ∀ b, result' = .ok b → ∃ a, result = .ok a) :
    RuleAfter created username result' dir := by
  refine ⟨hafter.1, fun b hb => ?_⟩
  obtain ⟨a, ha⟩ := hresult b hb
  exact hafter.2 a ha

theorem keepsRule_createUser {body : CreateUserRequest}
    (hrule : GroupRule created w.identity.directory)
    (hkeeps : KeepsRule created w (.createUser body)) :
    EndsIn (fun result w' => RuleAfter created body.username result w'.identity.directory)
      (Api.createUser body) w := by
  unfold Api.createUser
  split_ifs with hrefused
  · exact alone_raise (.of_error hrule)
  · push Not at hrefused
    refine alone_bind (endsIn_listed (fun hlisted queue hdrops => ?_)
      fun _ _ => .of_error hrule)
    rcases hkeeps with hno | hno | hno | hsafe
    · exact absurd hrefused.1 hno
    · exact absurd hno hrefused.2
    · exact absurd hno hlisted
    · refine alone_bind ((endsIn_newGrouped (w := w.withFaults queue) (Or.inl rfl) hrefused.2
        hrule (hsafe.of_drops rfl hdrops)).mono (fun _ _ h => h) ?_)
      rintro (e | user) w' hafter
      · exact .of_error hafter.1
      · exact alone_pure (hafter.of_bind _ fun _ _ => ⟨user, rfl⟩)

theorem along_rollback (userId : ℤ) :
    Respects (Along (RolesKept fun _ => True)) (fun _ => True)
      (rollback userId : Handler settings Unit) := by
  refine respects_tryExcept (along_identity (respects_deactivateUser fun v _ => ?_))
    fun _ => respects_pure trivial
  exact stepOf_along (rolesKept_updateUser rfl _ v none)

/-- The certificate of a new account, and what goes with it, change no role. -/
theorem along_afterCreation {body : CreateServiceAccountRequest} (user : UserRecord)
    (generated : Outcome) :
    Respects (Along (RolesKept fun _ => True)) (fun _ => True)
      (if ¬ generated.success then do
        rollback user.id
        raise (.http 500 ("Certificate generation failed: " ++ generated.error))
      else
        equipAccount body.mode user (serviceUsername body.name)
          (body.validityDays.getD body.mode.defaultValidity) : Handler settings Response) := by
  split_ifs
  · unfold equipAccount
    cases body.mode with
    | data => exact respects_bind (along_certs _) fun _ _ => respects_pure trivial
    | admin =>
        refine respects_bind (along_certs _) fun registered _ => ?_
        split_ifs
        · exact respects_pure trivial
        · exact respects_bind (along_rollback user.id) fun _ _ => respects_raise _
  · exact respects_bind (along_rollback user.id) fun _ _ => respects_raise _

theorem keepsRule_makeAccount {body : CreateServiceAccountRequest}
    (hnew : EndsIn (fun result w' =>
      RuleAfter created (serviceUsername body.name) result w'.identity.directory)
      (identity (Identity.createUser .serviceAccounts (serviceUsername body.name)
        body.displayName none body.groups body.mode.userType)) w) :
    EndsIn (fun result w' =>
      RuleAfter created (serviceUsername body.name) result w'.identity.directory)
      (makeAccount body) w := by
  refine alone_bind (hnew.mono (fun _ _ h => h) ?_)
  rintro (e | user) w₁ hafter
  · exact .of_error hafter.1
  have hkept : ∀ w w' : World settings,
      GroupRule (serviceUsername body.name :: created) w.identity.directory →
      Along (RolesKept fun _ => True) w w' →
      GroupRule (serviceUsername body.name :: created) w'.identity.directory :=
    fun _ _ h halong => h.of_rolesKept halong
  have hrest : Respects (Along (RolesKept fun _ => True)) (fun _ => True) (do
      let generated ← certs (generateClientCert (.service (serviceUsername body.name))
        (serviceUsername body.name) (body.validityDays.getD body.mode.defaultValidity) none)
      if ¬ generated.success then
        rollback user.id
        raise (.http 500 ("Certificate generation failed: " ++ generated.error))
      else
        equipAccount body.mode user (serviceUsername body.name)
          (body.validityDays.getD body.mode.defaultValidity) : Handler settings Response) :=
    respects_bind (along_certs _) fun generated _ => along_afterCreation user generated
  refine (hrest.alone hkept (hafter.2 user rfl)).mono (fun _ _ _ => trivial) ?_
  rintro result w' ⟨-, hrule⟩
  exact ⟨hrule.mono (List.subset_cons_self _ _), fun _ _ => hrule⟩

theorem keepsRule_createServiceAccount {body : CreateServiceAccountRequest}
    (hrule : GroupRule created w.identity.directory)
    (hkeeps : KeepsRule created w (.createServiceAccount body)) :
    EndsIn (fun result w' =>
      RuleAfter created (serviceUsername body.name) result w'.identity.directory)
      (Api.createServiceAccount body) w := by
  by_cases hrefused : ¬ body.accepted
  · rw [Api.createServiceAccount, if_pos hrefused]
    exact alone_raise (.of_error hrule)
  rw [Api.createServiceAccount, if_neg hrefused]
  have hcase := hkeeps.resolve_left hrefused
  have haccepted := not_not.mp hrefused
  by_cases hmode : body.mode = .data
  · simp only [CreateServiceAccountRequest.accepted, hmode, Bool.and_eq_true,
      decide_eq_true_eq] at haccepted
    rw [if_pos hmode]
    refine alone_bind (endsIn_listed (fun hlisted queue hdrops => ?_)
      fun _ _ => RuleAfter.of_error hrule)
    rw [hmode] at hcase
    refine keepsRule_makeAccount (endsIn_newGrouped (w := w.withFaults queue) ?_ haccepted.1.2
      hrule ((hcase.resolve_left hlisted).of_drops rfl hdrops))
    rw [hmode]
    exact Or.inr rfl
  · have hadmin : body.mode = .admin := by
      cases h : body.mode with
      | data => exact absurd h hmode
      | admin => rfl
    simp only [CreateServiceAccountRequest.accepted, hadmin, Bool.and_eq_true,
      decide_eq_true_eq] at haccepted
    rw [hadmin] at hcase
    rw [if_neg hmode]
    refine keepsRule_makeAccount ?_
    rw [haccepted.1.2, hadmin]
    exact endsIn_newAdmin hrule hcase

/-- The end of a change of groups, after what has only looked. -/
theorem keepsRule_regroup {client : Client} {userId : ℤ} {username : String}
    {groups : List String} {w' : World settings}
    (hrule : GroupRule created w.identity.directory)
    (hadmin : w.identity.directory.userTypeOf username ≠ some "svc_admin")
    (hsafe : username ∈ created → Grouped (w.identity.directory.userTypeOf username) →
      RegroupsSafely username groups w)
    (hknown : Known client userId username w'.identity)
    (hkept : RolesAndGroups w.identity.directory w'.identity.directory)
    (hdrops : Drops w.identity w'.identity) :
    EndsIn (fun _ w'' => GroupRule created w''.identity.directory)
      (identity (Identity.setUserGroups client userId groups)) w' := by
  have hsame := hkept.roles username trivial
  refine endsIn_regroup hknown (hrule.of_rolesKept hkept.roles) ?_ fun hcreated hgrouped => ?_
  · rw [hsame.userType]
    exact hadmin
  · exact (hsafe hcreated (hsame.userType ▸ hgrouped)).of_drops hkept hdrops

theorem keepsRule_setUserGroups {userId : ℤ} {groups : List String}
    (hrule : GroupRule created w.identity.directory)
    (hkeeps : KeepsRule created w (.setUserGroups userId groups)) :
    EndsIn (fun _ w' => GroupRule created w'.identity.directory)
      (Api.setUserGroups userId groups) w := by
  have hsame : ∀ s, Quiet w.identity s → GroupRule created s.directory :=
    fun s h => h.directory ▸ hrule
  refine alone_bind (endsIn_requireUser (fun user s hquiet hdrops hshows hknown => ?_)
    fun e s hquiet => hsame s hquiet)
  have htype := userType_of_shows hshows
  have hlast : ∀ queue, Drops w.identity (withQueue queue s) →
      user.userType.getD "user" ≠ "svc_admin" →
      (Grouped user.userType → groups ≠ [] ∧ ¬ MissesGroup groups w) →
      EndsIn (fun _ w' => GroupRule created w'.identity.directory) (do
        identity (Identity.setUserGroups .users userId groups)
        return Response.success) ((w.withIdentity s).withFaults queue) := by
    intro queue hdropped hadmin hchecked
    have hkept : RolesAndGroups w.identity.directory s.directory := by
      rw [hquiet.directory]
      exact refl_of RolesAndGroups _
    have hnotAdmin : w.identity.directory.userTypeOf user.username ≠ some "svc_admin" := by
      rw [htype]
      intro h
      simp [h] at hadmin
    have hregroup : EndsIn (fun _ w' => GroupRule created w'.identity.directory)
        (identity (Identity.setUserGroups .users userId groups))
        ((w.withIdentity s).withFaults queue) := by
      refine keepsRule_regroup hrule hnotAdmin (fun hcreated hgrouped => ?_) hknown hkept hdropped
      obtain ⟨hasked, hlisted⟩ := hchecked (htype ▸ hgrouped)
      have hcase := (hkeeps.resolve_left hasked).resolve_left hlisted
      exact (hcase user.username hcreated hshows.id hgrouped).resolve_left hshows.visible
    refine alone_bind (hregroup.mono (fun _ _ h => h) ?_)
    rintro (e | _) w' h
    · exact h
    · exact alone_pure h
  have hneeds : Grouped user.userType → user.userType.getD "user" = "user" ∨
      user.userType.getD "user" = "svc_data" := by
    rintro (h | h)
    · exact Or.inl (by rw [h]; rfl)
    · exact Or.inr (by rw [h]; rfl)
  dsimp only
  split_ifs with hadmin hempty hgroups
  · exact alone_raise (hsame s hquiet)
  · exact alone_raise (hsame s hquiet)
  · refine alone_bind (endsIn_listed (fun hlisted queue hdrops' => ?_)
      fun _ _ => hsame s hquiet)
    refine hlast queue (trans_of Drops hdrops hdrops') hadmin fun _ => ⟨hgroups, ?_⟩
    rw [MissesGroup] at hlisted ⊢
    rwa [← hquiet.directory]
  · refine hlast s.lldap hdrops hadmin fun hgrouped => ?_
    exact absurd ⟨hneeds hgrouped, not_not.mp hgroups⟩ hempty

theorem keepsRule_updateServiceAccount {accountId : ℤ} {displayName : Option String}
    {groups : Option (List String)} (hrule : GroupRule created w.identity.directory)
    (hkeeps : KeepsRule created w (.updateServiceAccount accountId displayName groups)) :
    EndsIn (fun _ w' => GroupRule created w'.identity.directory)
      (Api.updateServiceAccount accountId displayName groups) w := by
  have hsame : ∀ s, Quiet w.identity s → GroupRule created s.directory :=
    fun s h => h.directory ▸ hrule
  refine alone_bind (endsIn_requireAccount (fun user s hquiet hdrops hshows hknown hservice => ?_)
    fun e s hquiet => hsame s hquiet)
  have htype := userType_of_shows hshows
  have hrenamed : ∀ queue {next : Handler settings Response},
      (∀ w' : World settings, Known .serviceAccounts accountId user.username w'.identity →
        RolesAndGroups s.directory w'.identity.directory →
        Drops (withQueue queue s) w'.identity →
        EndsIn (fun _ w' => GroupRule created w'.identity.directory) next w') →
      EndsIn (fun _ w' => GroupRule created w'.identity.directory)
        (renameAccount accountId displayName >>= fun _ => next)
        ((w.withIdentity s).withFaults queue) := by
    intro queue next hnext
    refine alone_bind ((endsIn_rename (w := (w.withIdentity s).withFaults queue) hknown
      displayName).mono (fun _ _ h => h) ?_)
    rintro (e | _) w' ⟨hknown', hkept, hdrops'⟩
    · exact (hsame s hquiet).of_rolesKept hkept.roles
    · exact hnext w' hknown' hkept hdrops'
  cases groups with
  | none =>
      refine alone_bind (alone_pure ?_)
      refine hrenamed s.lldap fun w' _ hkept _ => ?_
      exact alone_bind (alone_pure (alone_pure ((hsame s hquiet).of_rolesKept hkept.roles)))
  | some wanted =>
      change EndsIn _ (checkAccountGroups user (some wanted) >>= _) _
      rw [checkAccountGroups]
      split_ifs with hadmin hempty
      · exact alone_bind (alone_raise (hsame s hquiet))
      · exact alone_bind (alone_raise (hsame s hquiet))
      · refine alone_bind (endsIn_listed (fun hlisted queue hdropped => ?_)
          fun _ _ => hsame s hquiet)
        refine hrenamed queue fun w' hknown' hkept hdrops' => ?_
        have hall : RolesAndGroups w.identity.directory w'.identity.directory := by
          rw [← hquiet.directory]
          exact hkept
        refine alone_bind ((keepsRule_regroup hrule (by rwa [htype]) ?_ hknown' hall
          (trans_of Drops (trans_of Drops hdrops hdropped) hdrops')).mono (fun _ _ h => h) ?_)
        · intro hcreated hgrouped
          have hmissing : ¬ MissesGroup wanted w := by
            rw [MissesGroup] at hlisted ⊢
            rwa [← hquiet.directory]
          have hcase := (hkeeps wanted rfl).resolve_left hmissing
          rcases hcase user.username hcreated hshows.id hgrouped with hno | ⟨hdata, hno⟩ | hsafe
          · exact absurd hservice hno
          · exact absurd ⟨htype ▸ hdata, hno⟩ hempty
          · exact hsafe
        · rintro (e | _) w'' h
          · exact h
          · exact alone_pure h

/-- A group is deleted once, however often the request is sent. -/
theorem hasTakGroup_deleteGroup {gid : ℤ} {dir : Directory} {username : String}
    (hbeside : HasTakGroupBeside gid dir username) :
    HasTakGroupBeside gid (Directory.deleteGroup gid dir).2 username := by
  obtain ⟨g, hg, hne, htak, hmember⟩ := hbeside
  refine ⟨g, ?_, hne, htak, hmember⟩
  unfold Directory.deleteGroup
  split_ifs
  · exact List.mem_filter.mpr ⟨hg, by simpa using hne⟩
  · exact hg

theorem HasTakGroupBeside.hasTakGroup {gid : ℤ} {dir : Directory} {username : String}
    (hbeside : HasTakGroupBeside gid dir username) : dir.HasTakGroup username := by
  obtain ⟨g, hg, -, htak, hmember⟩ := hbeside
  exact ⟨g.displayName, htak, g, hg, rfl, hmember⟩

/-- The types stay, and an account without a `tak_` group does not get one. -/
structure Shrinks (dir dir' : Directory) : Prop where
  userType : ∀ username, dir'.userTypeOf username = dir.userTypeOf username
  groups : ∀ username, dir'.HasTakGroup username → dir.HasTakGroup username

instance : IsPreorder Directory Shrinks where
  refl _ := ⟨fun _ => rfl, fun _ h => h⟩
  trans _ _ _ hfirst hsecond :=
    ⟨fun username => (hsecond.userType username).trans (hfirst.userType username),
      fun username h => hfirst.groups username (hsecond.groups username h)⟩

theorem shrinks_deleteGroup (gid : ℤ) (dir : Directory) :
    Shrinks dir (Directory.deleteGroup gid dir).2 where
  userType := fun username =>
    Directory.userTypeOf_congr (by rw [Directory.accounts_deleteGroup])
  groups := by
    rintro username ⟨group, htak, hmember⟩
    exact ⟨group, htak, Directory.isMember_of_deleteGroup hmember⟩

theorem keepsRule_deleteGroup {groupId : String}
    (hrule : GroupRule created w.identity.directory)
    (hkeeps : KeepsRule created w (.deleteGroup groupId)) :
    EndsIn (fun _ w' => GroupRule created w'.identity.directory) (Api.deleteGroup groupId) w := by
  have hquiet : Respects Quiet (fun _ => True)
      (Identity.getGroup .users groupId : IdProg settings _) := respects_getGroup .users groupId
  have hfound : Ends (fun _ s => Quiet w.identity s)
      (Identity.getGroup .users groupId) w.identity :=
    (hquiet.alone (fun _ _ => trans_of Quiet) (refl_of Quiet _)).mono
      (fun _ _ _ => trivial) fun _ _ h => h.2
  refine alone_bind (endsIn_identity (hfound.mono (fun _ _ h => h) ?_))
  rintro (e | found) s hquiet
  · exact (hquiet.directory ▸ hrule : GroupRule created s.directory)
  have hsame : GroupRule created s.directory := hquiet.directory ▸ hrule
  cases found with
  | none => exact alone_raise hsame
  | some group =>
      have hdeleted : Ends (fun _ s' => GroupRule created s'.directory)
          (Identity.deleteGroup groupId) s := by
        unfold Identity.deleteGroup
        cases hid : pyInt groupId with
        | none => exact alone_pure hsame
        | some gid =>
            have hbeside : ∀ username ∈ created, Grouped (s.directory.userTypeOf username) →
                HasTakGroupBeside gid s.directory username := by
              rw [hquiet.directory]
              exact hkeeps gid hid
            have hsent : Alone (AlongId Shrinks) (fun _ s' => ∀ username ∈ created,
                Grouped (s.directory.userTypeOf username) →
                  HasTakGroupBeside gid s'.directory username)
                (mutation (Directory.deleteGroup gid)) s :=
              alone_mutation _ (fun _ _ h => h) (fun s' h =>
                ⟨shrinks_deleteGroup gid s'.directory,
                  fun v hv hgrouped => hasTakGroup_deleteGroup (h v hv hgrouped)⟩) hbeside
            refine hsent.since.mono (fun _ _ _ => trivial) ?_
            rintro _ s' ⟨hbeside, hshrinks⟩ username
            refine ⟨fun hadmin htak => ?_, fun hcreated hgrouped => ?_⟩
            · exact (hsame username).admin (hshrinks.userType username ▸ hadmin)
                (hshrinks.groups username htak)
            · rw [hshrinks.userType] at hgrouped
              exact (hbeside username hcreated hgrouped).hasTakGroup
      refine alone_bind (endsIn_identity (hdeleted.mono (fun _ _ h => h) ?_))
      rintro (e | _) s' h
      · exact h
      · exact alone_pure h

end Handlers

/-! ## Runs -/

/-- The accounts that count as created after a request. -/
def Request.creates (request : Request) (result : Except Exn Response)
    (created : List String) : List String :=
  match result with
  | .ok _ => request.createdName.toList ++ created
  | .error _ => created

theorem RuleAfter.creates {created : List String} {username : String} {request : Request}
    {result : Except Exn Response} {dir : Directory}
    (hafter : RuleAfter created username result dir)
    (hname : request.createdName = some username) :
    GroupRule (request.creates result created) dir := by
  cases result with
  | error e => exact hafter.1
  | ok response =>
      change GroupRule (request.createdName.toList ++ created) dir
      rw [hname]
      exact hafter.2 response rfl

theorem creates_of_none {created : List String} {request : Request}
    {result : Except Exn Response} (hname : request.createdName = none) :
    request.creates result created = created := by
  cases result with
  | error e => rfl
  | ok response =>
      change request.createdName.toList ++ created = created
      rw [hname]
      rfl

/-- One request, whatever fails. -/
theorem groupRule_serve {created : List String} {w : World settings} {request : Request}
    (hrule : GroupRule created w.identity.directory) (hkeeps : KeepsRule created w request) :
    GroupRule (request.creates (request.handler.run w).1 created)
      (request.serve w).identity.directory := by
  cases request with
  | createUser body => exact (keepsRule_createUser hrule hkeeps).ends.creates rfl
  | createServiceAccount body =>
      exact (keepsRule_createServiceAccount hrule hkeeps).ends.creates rfl
  | setUserGroups userId groups =>
      rw [creates_of_none rfl]
      exact (keepsRule_setUserGroups hrule hkeeps).ends
  | updateServiceAccount accountId displayName groups =>
      rw [creates_of_none rfl]
      exact (keepsRule_updateServiceAccount hrule hkeeps).ends
  | deleteGroup groupId =>
      rw [creates_of_none rfl]
      exact (keepsRule_deleteGroup hrule hkeeps).ends
  | _ => cases hkeeps

/-- A request is served, or the surroundings change what is not the directory: the faults
ahead, the clock, the tokens, the certificates. -/
inductive CreationStep (admits : List String → World settings → Request → Prop) :
    World settings × List String → World settings × List String → Prop
  | serve {w : World settings} {created : List String} (request : Request)
      (hadmits : admits created w request) :
      CreationStep admits (w, created)
        (request.serve w, request.creates (request.handler.run w).1 created)
  | elsewhere {w w' : World settings} {created : List String}
      (hdirectory : w'.identity.directory = w.identity.directory) :
      CreationStep admits (w, created) (w', created)

/-- Requests one after another, with the accounts they have created. -/
abbrev CreationRun (admits : List String → World settings → Request → Prop) :
    World settings × List String → World settings × List String → Prop :=
  Relation.ReflTransGen (CreationStep admits)

/-- A service with one group and no accounts. -/
def groupWorld : World Settings.small where
  identity := .start (Directory.createGroup "tak_ops" .empty).2 0
  pki := .empty
  revocations := []

/-- The service after the creation of a user in this group. -/
def kimCreated : World Settings.small × List String :=
  let request : Request := .createUser ⟨"kim", "Kim", none, ["ops"]⟩
  (request.serve groupWorld, request.creates (request.handler.run groupWorld).1 [])

theorem groupRule_groupWorld : GroupRule [] groupWorld.identity.directory := by
  intro username
  have hnone : groupWorld.identity.directory.userTypeOf username = none := by
    rw [Directory.userTypeOf, Directory.attributesOf_eq_none (by rintro ⟨⟩)]
    rfl
  refine ⟨fun hadmin => ?_, fun hcreated => ?_⟩
  · rw [hnone] at hadmin
    cases hadmin
  · cases hcreated

end FastTAK.Api
