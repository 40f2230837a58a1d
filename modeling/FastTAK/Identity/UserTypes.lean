import FastTAK.Identity.Recreation

/-!
# Types and groups of accounts

An account has a type, and whether it may or must have `tak_` groups depends on it.
This file says what the operations of the client do to both: which of them touch
neither, and what `create_user` and `set_user_groups` leave of them when requests fail.
-/

namespace FastTAK.Identity

open FastTAK.Effect FastTAK.Effect.Prog FastTAK.Api

variable {settings : Settings} {α : Type}

/-! ## Roles -/

namespace Directory

/-- The type that is stored for an account. -/
def userTypeOf (dir : Directory) (username : String) : Option String :=
  (dir.attributesOf username).bind Attributes.userType

/-- The account is a member of a `tak_` group. -/
def HasTakGroup (dir : Directory) (username : String) : Prop :=
  ∃ group, isTakName group ∧ dir.IsMember username group

instance (dir : Directory) (username : String) : Decidable (dir.HasTakGroup username) :=
  decidable_of_iff (∃ g ∈ dir.groups, isTakName g.displayName ∧ username ∈ g.members) <| by
    constructor
    · rintro ⟨g, hg, htak, hmember⟩
      exact ⟨g.displayName, htak, g, hg, rfl, hmember⟩
    · rintro ⟨_, htak, g, hg, rfl, hmember⟩
      exact ⟨g, hg, htak, hmember⟩

end Directory

/-- The record shows the type that is stored. -/
theorem userType_of_shows {client : Client} {userId : ℤ} {dir : Directory} {user : UserRecord}
    (hshows : Shows settings client userId dir user) :
    dir.userTypeOf user.username = user.userType := by
  obtain ⟨u, huser, hrecord⟩ := hshows.view
  obtain ⟨account, haccount, rfl⟩ := Option.map_eq_some_iff.mp huser
  rw [Directory.userTypeOf, Directory.attributesOf, haccount, hrecord]
  rfl

/-- Only an account that exists is shown. -/
theorem mem_accounts_of_shows {client : Client} {userId : ℤ} {dir : Directory}
    {user : UserRecord} (hshows : Shows settings client userId dir user) :
    user.username ∈ dir.accounts := by
  obtain ⟨u, huser, -⟩ := hshows.view
  obtain ⟨account, haccount, -⟩ := Option.map_eq_some_iff.mp huser
  exact AList.lookup_isSome.mp (by rw [haccount]; rfl)

theorem isTakName_takName (name : String) : isTakName (takName name) := by
  unfold takName
  split_ifs with htak
  · exact htak
  · simp [isTakName]

/-- The account has the same type and the same groups. -/
structure SameRole (username : String) (dir dir' : Directory) : Prop where
  userType : dir'.userTypeOf username = dir.userTypeOf username
  groups : ∀ group, dir'.IsMember username group ↔ dir.IsMember username group

theorem SameRole.hasTakGroup_iff {username : String} {dir dir' : Directory}
    (hsame : SameRole username dir dir') :
    dir'.HasTakGroup username ↔ dir.HasTakGroup username :=
  exists_congr fun group => and_congr_right fun _ => hsame.groups group

instance (username : String) : IsPreorder Directory (SameRole username) where
  refl _ := ⟨rfl, fun _ => Iff.rfl⟩
  trans _ _ _ hfirst hsecond :=
    ⟨hsecond.userType.trans hfirst.userType,
      fun group => (hsecond.groups group).trans (hfirst.groups group)⟩

/-- The accounts with the property keep their roles. -/
def RolesKept (which : String → Prop) (dir dir' : Directory) : Prop :=
  ∀ username, which username → SameRole username dir dir'

instance (which : String → Prop) : IsPreorder Directory (RolesKept which) where
  refl dir username _ := refl_of (SameRole username) dir
  trans _ _ _ hfirst hsecond username h :=
    trans_of (SameRole username) (hfirst username h) (hsecond username h)

/-- The account gains groups, and nothing else happens to any role. -/
structure Gains (username : String) (dir dir' : Directory) : Prop where
  others : RolesKept (· ≠ username) dir dir'
  userType : dir'.userTypeOf username = dir.userTypeOf username
  grown : ∀ group, dir.IsMember username group → dir'.IsMember username group

instance (username : String) : IsPreorder Directory (Gains username) where
  refl dir := ⟨refl_of (RolesKept _) dir, rfl, fun _ h => h⟩
  trans _ _ _ hfirst hsecond := {
    others := trans_of (RolesKept _) hfirst.others hsecond.others
    userType := hsecond.userType.trans hfirst.userType
    grown := fun group h => hsecond.grown group (hfirst.grown group h) }

theorem Gains.hasTakGroup {username : String} {dir dir' : Directory}
    (hgains : Gains username dir dir') (htak : dir.HasTakGroup username) :
    dir'.HasTakGroup username := by
  obtain ⟨group, hname, hmember⟩ := htak
  exact ⟨group, hname, hgains.grown group hmember⟩

/-! ## Mutations -/

namespace Directory

theorem userTypeOf_congr {dir dir' : Directory} {username : String}
    (hlookup : dir'.accounts.lookup username = dir.accounts.lookup username) :
    dir'.userTypeOf username = dir.userTypeOf username := by
  rw [userTypeOf, userTypeOf, attributesOf, attributesOf, hlookup]

theorem userTypeOf_updateUser {username : String} {account : Account} {dir : Directory}
    {attrs : Attributes} (name : Option String)
    (haccount : dir.accounts.lookup username = some account)
    (haccepts : (buildCustomAttributes attrs).all acceptsValues) :
    (updateUser username name (buildCustomAttributes attrs) dir).2.userTypeOf username =
      attrs.userType.or (dir.userTypeOf username) := by
  rw [userTypeOf, attributesOf_updateUser haccount haccepts, parseAttributes_insert_build,
    userTypeOf, attributesOf, haccount]
  rfl

end Directory

theorem sameRole_of_lookup {username : String} {dir dir' : Directory}
    (hlookup : dir'.accounts.lookup username = dir.accounts.lookup username)
    (hgroups : ∀ group, dir'.IsMember username group ↔ dir.IsMember username group) :
    SameRole username dir dir' :=
  ⟨Directory.userTypeOf_congr hlookup, hgroups⟩

/-- Attributes without a type change no role. -/
theorem rolesKept_updateUser {attrs : Attributes} (htype : attrs.userType = none)
    (which : String → Prop) (v : String) (name : Option String) (dir : Directory) :
    RolesKept which dir (Directory.updateUser v name (buildCustomAttributes attrs) dir).2 := by
  intro username _
  have hgroups := Directory.isMember_congr
    (Directory.groups_updateUser v name (buildCustomAttributes attrs) dir) username
  rcases eq_or_ne username v with rfl | hne
  · refine ⟨?_, hgroups⟩
    cases haccount : dir.accounts.lookup username with
    | none => rw [Directory.updateUser_of_unknown name _ haccount]
    | some account =>
        by_cases haccepts : (buildCustomAttributes attrs).all Directory.acceptsValues
        · rw [Directory.userTypeOf_updateUser name haccount haccepts, htype, Option.none_or]
        · rw [Directory.updateUser_of_rejects haccepts]
  · exact sameRole_of_lookup (Directory.lookup_updateUser_of_ne hne name _ dir) hgroups

section Others

variable (username : String)

theorem rolesKept_createUser (name : String) (which : String → Prop) (dir : Directory) :
    RolesKept which dir (Directory.createUser username name dir).2 := by
  intro v _
  have hgroups := Directory.isMember_congr (Directory.groups_createUser username name dir) v
  rcases eq_or_ne v username with rfl | hne
  · refine ⟨?_, hgroups⟩
    unfold Directory.createUser
    split_ifs with hexists
    · rfl
    · rw [Directory.userTypeOf, Directory.userTypeOf, Directory.attributesOf_eq_none hexists,
        Directory.attributesOf]
      dsimp only
      rw [AList.lookup_insert]
      rfl
  · exact sameRole_of_lookup (Directory.lookup_createUser_of_ne hne name dir) hgroups

theorem rolesKept_updateUser_of_ne (name : Option String)
    (inserted : List (String × List String)) (dir : Directory) :
    RolesKept (· ≠ username) dir (Directory.updateUser username name inserted dir).2 :=
  fun v hne => sameRole_of_lookup (Directory.lookup_updateUser_of_ne hne name inserted dir)
    (Directory.isMember_congr (Directory.groups_updateUser username name inserted dir) v)

theorem rolesKept_addUserToGroup (gid : ℤ) (dir : Directory) :
    RolesKept (· ≠ username) dir (Directory.addUserToGroup username gid dir).2 :=
  fun v hne => sameRole_of_lookup (by rw [Directory.accounts_addUserToGroup])
    (Directory.isMember_addUserToGroup_of_ne hne gid dir)

theorem rolesKept_removeUserFromGroup (gid : ℤ) (dir : Directory) :
    RolesKept (· ≠ username) dir (Directory.removeUserFromGroup username gid dir).2 :=
  fun v hne => sameRole_of_lookup (by rw [Directory.accounts_removeUserFromGroup])
    (Directory.isMember_removeUserFromGroup_of_ne hne gid dir)

theorem gains_addUserToGroup (gid : ℤ) (dir : Directory) :
    Gains username dir (Directory.addUserToGroup username gid dir).2 where
  others := rolesKept_addUserToGroup username gid dir
  userType := Directory.userTypeOf_congr (by rw [Directory.accounts_addUserToGroup])
  grown := fun _ h => Directory.isMember_addUserToGroup_of_isMember username gid h

theorem gains_createGroup (name : String) (dir : Directory) :
    Gains username dir (Directory.createGroup name dir).2 := by
  have hsame : ∀ v, SameRole v dir (Directory.createGroup name dir).2 := fun v =>
    sameRole_of_lookup (by rw [Directory.accounts_createGroup])
      (Directory.isMember_createGroup_iff name dir v)
  exact ⟨fun v _ => hsame v, (hsame username).userType,
    fun group h => ((hsame username).groups group).mpr h⟩

end Others

/-! ## Requests that are answered -/

/-- Queues under which every request is answered, however many are still to come. -/
structure Answering (calm : List Verdict → Prop) : Prop where
  lossy : ∀ queue, calm queue → Lossy queue
  tail : ∀ queue, calm queue → calm queue.tail

/-- No request is lost. -/
def Faultless (queue : List Verdict) : Prop := ∀ verdict ∈ queue, verdict = .runs

theorem answering_lossy : Answering Lossy where
  lossy _ h := h
  tail queue h := by
    cases h with
    | nil => exact .nil
    | answered h => exact h
    | lost _ h => exact .answered h
    | lostTwice _ second h => exact .lost second h

theorem answering_faultless : Answering Faultless where
  lossy queue h := by
    induction queue with
    | nil => exact .nil
    | cons verdict queue ih =>
        rw [h verdict List.mem_cons_self]
        exact .answered (ih fun v hv => h v (List.mem_cons_of_mem _ hv))
  tail queue h := fun verdict hverdict => h verdict (List.mem_of_mem_tail hverdict)

section Answered

variable {guar : IdentityState settings → IdentityState settings → Prop} [Tolerant guar]
variable {post : Except Exn α → IdentityState settings → Prop}
variable {onEmpty : IdProg settings α} {request : Directory → Directory.Reply α × Directory}

omit [Tolerant guar] in
theorem alone_attempts_answered (attempts : ℕ) {s : IdentityState settings}
    (hverdict : nextVerdict s.lldap = .runs)
    (hguar : guar s (withDirectory (withQueue s.lldap.tail s) (request s.directory).2))
    (hsettle : Alone guar post (settle onEmpty (request s.directory).1)
      (withDirectory (withQueue s.lldap.tail s) (request s.directory).2)) :
    Alone guar post (graphqlAttempts onEmpty request (attempts + 1)) s := by
  have hattempt : graphqlAttempt request s = (.ok (some (request s.directory).1),
      withDirectory (withQueue s.lldap.tail s) (request s.directory).2) := by
    simp only [graphqlAttempt, hverdict]
    rfl
  refine alone_bind (alone_atomic ?_ ?_)
  · rw [hattempt]
    exact hguar
  · rw [hattempt]
    cases hreply : (request s.directory).1 with
    | data value =>
        rw [hreply] at hsettle
        exact hsettle
    | duplicate =>
        rw [hreply] at hsettle
        exact hsettle
    | errors =>
        rw [hreply] at hsettle
        exact hsettle

/-- A request that is lost may have been applied. -/
theorem alone_attempts_lost (attempts : ℕ) {applied : ℕ} {queue : List Verdict}
    {s : IdentityState settings} (hqueue : s.lldap = .fails applied :: queue)
    (keeps : IdentityState settings → Prop) (hs : keeps (withQueue queue s))
    (hstep : ∀ s, keeps s → guar s (withDirectory s (request s.directory).2) ∧
      keeps (withDirectory s (request s.directory).2))
    (hrest : ∀ s', keeps s' → s'.lldap = queue →
      Alone guar post (graphqlAttempts onEmpty request attempts) s') :
    Alone guar post (graphqlAttempts onEmpty request (attempts + 1)) s := by
  have hattempt : graphqlAttempt request s = (.ok none,
      if applied = 0 then withQueue queue s
      else withDirectory (withQueue queue s) (request s.directory).2) := by
    simp only [graphqlAttempt, hqueue, nextVerdict_cons, List.tail_cons]
    rfl
  refine alone_bind (alone_atomic ?_ ?_)
  · rw [hattempt]
    split_ifs
    · exact guar_withQueue queue s
    · exact trans_of guar (guar_withQueue queue s) (hstep _ hs).1
  · rw [hattempt]
    refine hrest _ ?_ ?_
    · dsimp only
      split_ifs
      · exact hs
      · exact (hstep _ hs).2
    · dsimp only
      split_ifs <;> rfl

/-- A request that is answered at the last attempt: `keeps` holds whenever it is sent. -/
theorem alone_graphql_answered {calm : List Verdict → Prop} (hcalm : Answering calm)
    (keeps : IdentityState settings → Prop)
    (hqueue : ∀ s queue, keeps s → keeps (withQueue queue s))
    (hstep : ∀ s, keeps s → guar s (withDirectory s (request s.directory).2) ∧
      keeps (withDirectory s (request s.directory).2))
    (hsettle : ∀ s, keeps s → calm s.lldap →
      Alone guar post (settle onEmpty (request s.directory).1)
        (withDirectory s (request s.directory).2))
    {s : IdentityState settings} (hs : keeps s) (hqueues : calm s.lldap) :
    Alone guar post (graphql onEmpty request) s := by
  have hanswered : ∀ (attempts : ℕ) (s : IdentityState settings), keeps s → calm s.lldap →
      nextVerdict s.lldap = .runs →
      Alone guar post (graphqlAttempts onEmpty request (attempts + 1)) s := by
    intro attempts s hs hqueues hverdict
    have hrest := hqueue s s.lldap.tail hs
    apply alone_attempts_answered attempts hverdict
    · exact trans_of guar (guar_withQueue _ s) (hstep _ hrest).1
    · exact hsettle _ hrest (hcalm.tail _ hqueues)
  -- An attempt that is lost leaves one attempt less, and a queue that is calm as well.
  have hlost : ∀ (attempts first : ℕ) (queue : List Verdict) (s : IdentityState settings),
      keeps s → calm s.lldap → s.lldap = .fails first :: queue →
      (∀ s', keeps s' → calm s'.lldap → s'.lldap = queue →
        Alone guar post (graphqlAttempts onEmpty request attempts) s') →
      Alone guar post (graphqlAttempts onEmpty request (attempts + 1)) s := by
    intro attempts first queue s hs hqueues hfirst hrest
    have htail := hcalm.tail _ hqueues
    rw [hfirst, List.tail_cons] at htail
    exact alone_attempts_lost attempts hfirst keeps (hqueue _ _ hs) hstep
      fun s' hs' hqueue' => hrest s' hs' (hqueue' ▸ htail) hqueue'
  have hkind := hcalm.lossy _ hqueues
  generalize hnow : s.lldap = queue at hkind
  cases hkind with
  | nil => exact hanswered 2 s hs hqueues (by rw [hnow]; rfl)
  | answered _ => exact hanswered 2 s hs hqueues (by rw [hnow]; rfl)
  | lost first _ =>
      refine hlost 2 first _ s hs hqueues hnow fun s' hs' hqueues' hnow' => ?_
      exact hanswered 1 s' hs' hqueues' (by rw [hnow']; rfl)
  | lostTwice first second _ =>
      refine hlost 2 first _ s hs hqueues hnow fun s₁ hs₁ hqueues₁ hnow₁ => ?_
      refine hlost 1 second _ s₁ hs₁ hqueues₁ hnow₁ fun s₂ hs₂ hqueues₂ hnow₂ => ?_
      exact hanswered 0 s₂ hs₂ hqueues₂ (by rw [hnow₂]; rfl)

end Answered

/-! ## Queues -/

/-- Verdicts were taken from the queue. -/
def Drops (s s' : IdentityState settings) : Prop := ∃ n, s'.lldap = s.lldap.drop n

instance : Passive (@Drops settings) where
  refl s := ⟨0, rfl⟩
  trans _ _ _ := by
    rintro ⟨n, hn⟩ ⟨m, hm⟩
    exact ⟨n + m, by rw [hm, hn, List.drop_drop]⟩
  sends s := ⟨1, by rw [List.drop_one]⟩
  asks s := ⟨0, rfl⟩
  notes _ _ s := ⟨0, rfl⟩

theorem Answering.drops {calm : List Verdict → Prop} (hcalm : Answering calm)
    {s s' : IdentityState settings} (hdrops : Drops s s') (hs : calm s.lldap) :
    calm s'.lldap := by
  obtain ⟨n, hn⟩ := hdrops
  rw [hn]
  clear hn
  generalize s.lldap = queue at hs
  induction n generalizing queue with
  | zero => exact hs
  | succ n ih =>
      rw [← List.drop_tail]
      exact ih _ (hcalm.tail _ hs)

theorem stepOf_drops {β : Type} (request : Directory → Directory.Reply β × Directory) :
    StepOf (@Drops settings) request := fun _ => ⟨0, rfl⟩

/-- How an operation of a client ends, and what it has left of the queue. -/
theorem alone_drops {guar : IdentityState settings → IdentityState settings → Prop}
    {post : Except Exn α → IdentityState settings → Prop} {P : α → Prop}
    {program : IdProg settings α} {s : IdentityState settings}
    (hprogram : Alone guar post program s) (hdrops : Respects Drops P program) :
    Alone guar (fun result s' => post result s' ∧ Drops s s') program s :=
  (hprogram.and (hdrops.alone (fun _ _ => trans_of Drops) (refl_of Drops s))).mono
    (fun _ _ h => h) fun _ _ h => ⟨h.1, h.2.2⟩

/-! ## Groups that an account gains -/

/-- The account is a member after an answer that is data, or that says it was one. -/
theorem Directory.isMember_of_reply {username name : String} {gid : ℤ} {dir : Directory}
    (hlisted : (gid, name) ∈ dir.groupNames)
    (hreply : (Directory.addUserToGroup username gid dir).1 ≠ .errors) :
    (Directory.addUserToGroup username gid dir).2.IsMember username name := by
  by_cases huser : username ∈ dir.accounts
  · exact (Directory.isMember_addUserToGroup_self huser hlisted).1
  · obtain ⟨g, hgroup, -, -⟩ := Directory.group_of_mem_groupNames hlisted
    simp [Directory.addUserToGroup, hgroup, huser] at hreply

section Gaining

variable {username : String} {s : IdentityState settings}

/-- An addition that returns has made the account a member. -/
theorem alone_addMember {name : String} {gid : ℤ}
    (hlisted : (gid, name) ∈ s.directory.groupNames) :
    Alone (AlongId (Gains username))
      (fun result s' => result = .ok () → s'.directory.IsMember username name)
      (mutation (Directory.addUserToGroup username gid)) s := by
  refine alone_graphql (fun s => (gid, name) ∈ s.directory.groupNames) (fun _ _ h => h)
    ?_ ?_ ?_ ?_ hlisted
  · intro s h
    refine ⟨gains_addUserToGroup username gid s.directory, ?_⟩
    change (gid, name) ∈ (Directory.addUserToGroup username gid s.directory).2.groupNames
    rw [Directory.groupNames_addUserToGroup]
    exact h
  · intro s value h hreply _
    exact Directory.isMember_of_reply h (by rw [hreply]; simp)
  · intro s h hreply
    exact alone_pure fun _ => Directory.isMember_of_reply h (by rw [hreply]; simp)
  · intro s e _ h
    cases h

theorem alone_settle {guar : IdentityState settings → IdentityState settings → Prop}
    {post : IdentityState settings → Prop} (hpost : post s) (reply : Directory.Reply Unit) :
    Alone guar (fun _ s' => post s') (settle (pure ()) reply) s := by
  cases reply with
  | data _ => exact hpost
  | duplicate =>
      unfold settle
      split_ifs
      · exact hpost
      · exact hpost
  | errors => exact hpost

/-- An addition that is answered has made the account a member, whatever it returns. -/
theorem alone_addMember_answered {calm : List Verdict → Prop} (hcalm : Answering calm)
    {name : String} {gid : ℤ} (hlisted : (gid, name) ∈ s.directory.groupNames)
    (huser : username ∈ s.directory.accounts) (hqueues : calm s.lldap) :
    Alone (AlongId (Gains username)) (fun _ s' => s'.directory.IsMember username name)
      (mutation (Directory.addUserToGroup username gid)) s := by
  refine alone_graphql_answered hcalm (fun s => (gid, name) ∈ s.directory.groupNames ∧
    username ∈ s.directory.accounts) (fun _ _ h => h) ?_ ?_ ⟨hlisted, huser⟩ hqueues
  · rintro s ⟨hlisted, huser⟩
    refine ⟨gains_addUserToGroup username gid s.directory, ?_, ?_⟩
    · change (gid, name) ∈ (Directory.addUserToGroup username gid s.directory).2.groupNames
      rw [Directory.groupNames_addUserToGroup]
      exact hlisted
    · change username ∈ (Directory.addUserToGroup username gid s.directory).2.accounts
      rw [Directory.accounts_addUserToGroup]
      exact huser
  · rintro s ⟨hlisted, huser⟩ -
    exact alone_settle (Directory.isMember_addUserToGroup_self huser hlisted).1 _

/-- A group that is ensured has the account as a member. -/
theorem alone_ensureMember (name : String) :
    Alone (AlongId (Gains username))
      (fun result s' => result = .ok () → s'.directory.IsMember username (takName name))
      (ensureMember username s.directory.groupNames name) s := by
  by_cases hname : takName name ∈ s.directory.groupNames.map Prod.snd
  · obtain ⟨gid, hgid, hlisted⟩ : ∃ gid, (ensureMember username s.directory.groupNames name :
      IdProg settings Unit) = mutation (Directory.addUserToGroup username gid) ∧
        (gid, takName name) ∈ s.directory.groupNames := ensureMember_of_mem hname
    rw [hgid]
    exact alone_addMember hlisted
  · rw [ensureMember, ensureGroup_of_notMem hname]
    apply alone_bind
    refine alone_graphql (fun _ => True) (fun _ _ _ => trivial)
      (fun s _ => ⟨gains_createGroup username (takName name) s.directory, trivial⟩)
      ?_ (fun s _ _ => alone_raise (by simp)) (fun s e _ => by simp) trivial
    intro s gid _ hreply
    apply alone_addMember
    change (gid, takName name) ∈
      (Directory.createGroup (takName name) s.directory).2.groupNames
    by_cases htaken : takName name ∈ s.directory.groups.map Group.displayName
    · simp [Directory.createGroup, htaken] at hreply
    · obtain ⟨hdata, hnames⟩ := Directory.groupNames_createGroup htaken
      obtain rfl := Directory.Reply.data.inj (hdata.symm.trans hreply)
      rw [hnames]
      exact List.mem_cons_self

/-- So it is if the requests are answered, where the group exists or none is lost. -/
theorem alone_ensureMember_answered {calm : List Verdict → Prop} (hcalm : Answering calm)
    {name : String} (hname : takName name ∈ s.directory.groupNames.map Prod.snd ∨
      ∀ queue, calm queue → Faultless queue)
    (huser : username ∈ s.directory.accounts) (hqueues : calm s.lldap) :
    Alone (AlongId (Gains username))
      (fun _ s' => s'.directory.IsMember username (takName name))
      (ensureMember username s.directory.groupNames name) s := by
  by_cases hexists : takName name ∈ s.directory.groupNames.map Prod.snd
  · obtain ⟨gid, hgid, hlisted⟩ : ∃ gid, (ensureMember username s.directory.groupNames name :
      IdProg settings Unit) = mutation (Directory.addUserToGroup username gid) ∧
        (gid, takName name) ∈ s.directory.groupNames := ensureMember_of_mem hexists
    rw [hgid]
    exact alone_addMember_answered hcalm hlisted huser hqueues
  · have hfaultless := (hname.resolve_left hexists) _ hqueues
    have hruns : nextVerdict s.lldap = .runs := by
      cases hqueue : s.lldap with
      | nil => rfl
      | cons verdict queue => exact hfaultless verdict (hqueue ▸ List.mem_cons_self)
    rw [Directory.groupNames_snd] at hexists
    obtain ⟨hdata, hnames⟩ := Directory.groupNames_createGroup hexists
    rw [ensureMember, ensureGroup_of_notMem (by rwa [Directory.groupNames_snd])]
    apply alone_bind
    refine alone_attempts_answered 2 hruns (gains_createGroup username _ s.directory) ?_
    rw [hdata]
    apply alone_pure
    apply alone_addMember_answered hcalm
    · change (s.directory.nextGroupId, takName name) ∈
        (Directory.createGroup (takName name) s.directory).2.groupNames
      rw [hnames]
      exact List.mem_cons_self
    · change username ∈ (Directory.createGroup (takName name) s.directory).2.accounts
      rw [Directory.accounts_createGroup]
      exact huser
    · exact hcalm.tail _ hqueues

/-! ## Creations -/

/-- What only gains groups does not lose the last one. -/
theorem alone_keepsTak {P : α → Prop} {program : IdProg settings α}
    (hprogram : Respects (AlongId (Gains username)) P program)
    (htak : s.directory.HasTakGroup username) :
    Alone (AlongId (Gains username)) (fun _ s' => s'.directory.HasTakGroup username)
      program s :=
  (hprogram.alone (fun _ _ h hgains => Gains.hasTakGroup hgains h) htak).mono
    (fun _ _ h => h) fun _ _ h => h.2

theorem gains_ensureMember (allGroups : List (ℤ × String)) (name : String) :
    Respects (AlongId (Gains username)) (fun _ => True)
      (ensureMember username allGroups name : IdProg settings Unit) :=
  respects_bind (respects_ensureGroup (stepOf_along (gains_createGroup username _)))
    fun gid _ => respects_mutation (stepOf_along (gains_addUserToGroup username gid))

/-- All groups that are asked for are ensured, or the first of them. -/
theorem alone_ensureUserGroups {groups : List String} (hgroups : groups ≠ []) :
    Alone (AlongId (Gains username))
      (fun result s' => result = .ok () → s'.directory.HasTakGroup username)
      (ensureUserGroups username groups) s := by
  obtain ⟨name, rest, rfl⟩ := List.exists_cons_of_ne_nil hgroups
  rw [ensureUserGroups_eq]
  refine alone_bind (alone_query (fun queue => ?_) fun queue e h => by cases h)
  refine alone_bind ((alone_ensureMember (s := withQueue queue s) name).mono
    (fun _ _ h => h) fun result s' hfirst => ?_)
  cases result with
  | error e => exact fun h => by cases h
  | ok _ =>
      have htak : s'.directory.HasTakGroup username :=
        ⟨takName name, isTakName_takName name, hfirst rfl⟩
      exact (alone_keepsTak (respects_forList rest fun name _ => gains_ensureMember _ name)
        htak).mono (fun _ _ h => h) fun _ _ h _ => h

theorem alone_query_answered {calm : List Verdict → Prop} (hcalm : Answering calm)
    {guar : IdentityState settings → IdentityState settings → Prop} [Tolerant guar]
    {post : Except Exn α → IdentityState settings → Prop} {f : Directory → α}
    (hqueues : calm s.lldap)
    (hdata : ∀ queue, calm queue → post (.ok (f s.directory)) (withQueue queue s)) :
    Alone guar post (query f) s := by
  refine alone_graphql_answered hcalm (fun s' => ∃ queue, s' = withQueue queue s) ?_ ?_ ?_
    ⟨s.lldap, rfl⟩ hqueues
  · rintro _ queue' ⟨queue, rfl⟩
    exact ⟨queue', rfl⟩
  · rintro _ ⟨queue, rfl⟩
    exact ⟨refl_of guar _, queue, rfl⟩
  · rintro _ ⟨queue, rfl⟩ hqueue
    exact alone_pure (hdata queue hqueue)

theorem alone_ensureUserGroups_answered {calm : List Verdict → Prop} (hcalm : Answering calm)
    {name : String} {rest : List String}
    (hname : takName name ∈ s.directory.groupNames.map Prod.snd ∨
      ∀ queue, calm queue → Faultless queue)
    (huser : username ∈ s.directory.accounts) (hqueues : calm s.lldap) :
    Alone (AlongId (Gains username)) (fun _ s' => s'.directory.HasTakGroup username)
      (ensureUserGroups username (name :: rest)) s := by
  rw [ensureUserGroups_eq]
  refine alone_bind (alone_query_answered hcalm hqueues fun queue hqueue => ?_)
  refine alone_bind ((alone_ensureMember_answered (s := withQueue queue s) hcalm hname huser
    hqueue).mono (fun _ _ h => h) fun result s' hmember => ?_)
  have htak : s'.directory.HasTakGroup username :=
    ⟨takName name, isTakName_takName name, hmember⟩
  cases result with
  | error e => exact htak
  | ok _ =>
      exact alone_keepsTak (respects_forList rest fun name _ => gains_ensureMember _ name) htak

end Gaining

/-- What a creation may have made of the role of the account there was. -/
structure Remade (username userType : String) (groups : List String)
    (start dir : Directory) : Prop where
  grown : ∀ group, start.IsMember username group → dir.IsMember username group
  role : SameRole username start dir ∨ dir.userTypeOf username = some userType
  same : groups = [] → ∀ group, dir.IsMember username group → start.IsMember username group

theorem remade_of_sameRole {username userType : String} {groups : List String}
    {start dir : Directory} (hsame : SameRole username start dir) :
    Remade username userType groups start dir where
  grown := fun group => (hsame.groups group).mpr
  role := Or.inl hsame
  same := fun _ group => (hsame.groups group).mp

/-- The type is the one that is sent, if the update is accepted. -/
theorem Directory.userTypeOf_updateUser_or {username userType : String} {attrs : Attributes}
    (htype : attrs.userType = some userType) (name : Option String) (dir : Directory) :
    let answer := Directory.updateUser username name (buildCustomAttributes attrs) dir
    answer.2.userTypeOf username = some userType ∨ answer = (.errors, dir) := by
  cases haccount : dir.accounts.lookup username with
  | none => exact Or.inr (Directory.updateUser_of_unknown name _ haccount)
  | some account =>
      by_cases haccepts : (buildCustomAttributes attrs).all Directory.acceptsValues
      · left
        rw [Directory.userTypeOf_updateUser name haccount haccepts, htype, Option.some_or]
      · exact Or.inr (Directory.updateUser_of_rejects haccepts)

section Creating

variable {client : Client} {username name : String} {ttlHours : Option ℤ}
variable {groups : List String} {userType : String} {s : IdentityState settings}

theorem remade_of_gains {start dir dir' : Directory}
    (hremade : Remade username userType groups start dir)
    (htype : dir.userTypeOf username = some userType) (hgroups : groups ≠ [])
    (hgains : Gains username dir dir') : Remade username userType groups start dir' where
  grown := fun group h => hgains.grown group (hremade.grown group h)
  role := Or.inr (hgains.userType.trans htype)
  same := fun hnone => absurd hnone hgroups

/-- The update of a creation changes the type or nothing. -/
theorem remade_updateUser {start dir : Directory} {attrs : Attributes}
    (htype : attrs.userType = some userType)
    (hremade : Remade username userType groups start dir) :
    Remade username userType groups start
      (Directory.updateUser username none (buildCustomAttributes attrs) dir).2 := by
  have hgroups := Directory.isMember_congr
    (Directory.groups_updateUser username none (buildCustomAttributes attrs) dir) username
  rcases Directory.userTypeOf_updateUser_or htype none dir with hsent | hsame
  · exact ⟨fun group h => (hgroups group).mpr (hremade.grown group h), Or.inr hsent,
      fun hnone group h => hremade.same hnone group ((hgroups group).mp h)⟩
  · rw [hsame]
    exact hremade

/-- What follows the update of a creation only gains groups. -/
theorem gains_fetchCreated (attrs : Attributes) :
    Respects (AlongId (Gains username)) (fun _ => True)
      (fetchCreated client username name attrs : IdProg settings UserRecord) :=
  (respects_fetchCreated client username name attrs).mono (fun _ _ h => h) fun _ _ => trivial

/-- Whatever fails, a creation changes only the role of its account: the type before the
groups, which it only gains.  If it returns, the account has the groups. -/
theorem alone_createUser_remade :
    Alone (AlongId (RolesKept (· ≠ username)))
      (fun result s' => Remade username userType groups s.directory s'.directory ∧
        ∀ user, result = .ok user → s'.directory.userTypeOf username = some userType ∧
          (groups ≠ [] → s'.directory.HasTakGroup username))
      (createUser client username name ttlHours groups userType) s := by
  have hfails : ∀ {s' : IdentityState settings},
      Remade username userType groups s.directory s'.directory → ∀ e : Exn,
      Remade username userType groups s.directory s'.directory ∧
        ∀ user : UserRecord, Except.error e = .ok user →
          s'.directory.userTypeOf username = some userType ∧
            (groups ≠ [] → s'.directory.HasTakGroup username) :=
    fun h e => ⟨h, fun user huser => by cases huser⟩
  refine alone_bind ((alone_mutation (fun s' => SameRole username s.directory s'.directory)
    (fun _ _ h => h) (fun s' h => ⟨?_, ?_⟩) (refl_of (SameRole username) _)).mono
      (fun _ _ h => h) fun result s₁ hsame => ?_)
  · exact rolesKept_createUser username name _ s'.directory
  · exact trans_of (SameRole username) h
      (rolesKept_createUser username name (fun _ => True) s'.directory username trivial)
  cases result with
  | error e => exact hfails (remade_of_sameRole hsame) e
  | ok _ =>
  suffices hrest : ∀ expires, Alone (AlongId (RolesKept (· ≠ username)))
      (fun result s' => Remade username userType groups s.directory s'.directory ∧
        ∀ user, result = .ok user → s'.directory.userTypeOf username = some userType ∧
          (groups ≠ [] → s'.directory.HasTakGroup username))
      (do
        mutation (Directory.updateUser username none
          (buildCustomAttributes (initialAttributes expires userType)))
        if groups ≠ [] then ensureUserGroups username groups
        fetchCreated client username name (initialAttributes expires userType)) s₁ from
    alone_bind (alone_expiryFor (fun expires _ => hrest expires)
      (fun _ n _ => hrest (some n)) fun _ => hfails (remade_of_sameRole hsame) _)
  intro expires
  have htype : (initialAttributes expires userType).userType = some userType := rfl
  have hupdated : Alone (AlongId (RolesKept (· ≠ username)))
      (fun result s' => Remade username userType groups s.directory s'.directory ∧
        (result = .ok () → s'.directory.userTypeOf username = some userType))
      (mutation (Directory.updateUser username none
        (buildCustomAttributes (initialAttributes expires userType)))) s₁ := by
    refine alone_graphql
      (fun s' => Remade username userType groups s.directory s'.directory)
      (fun _ _ h => h) (fun s' h => ⟨?_, remade_updateUser htype h⟩) ?_ ?_
      (fun s' e h => ⟨h, fun hok => by cases hok⟩) (remade_of_sameRole hsame)
    · exact rolesKept_updateUser_of_ne username none _ s'.directory
    · intro s' value h hreply
      refine ⟨remade_updateUser htype h, fun _ => ?_⟩
      rcases Directory.userTypeOf_updateUser_or htype none s'.directory with hsent | herrors
      · exact hsent
      · rw [herrors] at hreply
        cases hreply
    · intro s' h hreply
      rcases Directory.userTypeOf_updateUser_or htype none s'.directory with hsent | herrors
      · exact alone_pure ⟨remade_updateUser htype h, fun _ => hsent⟩
      · rw [herrors] at hreply
        cases hreply
  refine alone_bind (hupdated.mono (fun _ _ h => h) fun result s₂ hresult => ?_)
  obtain ⟨hremade, hsent⟩ := hresult
  cases result with
  | error e => exact hfails hremade e
  | ok _ =>
  dsimp only
  split_ifs with hgroups
  · have hothers : ∀ t t' : IdentityState settings, AlongId (Gains username) t t' →
        AlongId (RolesKept (· ≠ username)) t t' := fun _ _ h => h.others
    refine alone_bind ((alone_ensureUserGroups (s := s₂) hgroups).since.mono hothers ?_)
    rintro (e | _) s₃ ⟨htak, hgains⟩
    · exact hfails (remade_of_gains hremade (hsent rfl) hgroups hgains) e
    · refine ((alone_keepsTak (gains_fetchCreated _) (htak rfl)).since.mono hothers ?_)
      rintro result s₄ ⟨htak, hgains'⟩
      have hboth := trans_of (Gains username) hgains hgains'
      exact ⟨remade_of_gains hremade (hsent rfl) hgroups hboth,
        fun _ _ => ⟨hboth.userType.trans (hsent rfl), fun _ => htak⟩⟩
  · have hquiet : Respects Quiet (fun _ => True) (fetchCreated client username name
        (initialAttributes expires userType) : IdProg settings UserRecord) :=
      (respects_fetchCreated client username name _).mono (fun _ _ h => h) fun _ _ => trivial
    have hkeeps : ∀ t t' : IdentityState settings, t.directory = s₂.directory → Quiet t t' →
        t'.directory = s₂.directory := fun _ _ h hstep => hstep.directory.trans h
    refine (hquiet.alone hkeeps rfl).mono (fun t t' h => Tolerant.quiet t t' h) ?_
    rintro result s₃ ⟨-, hdirectory⟩
    rw [hdirectory]
    exact ⟨hremade, fun _ _ => ⟨hsent rfl, fun h => absurd h hgroups⟩⟩

/-- The update of a creation is stored, if LLDAP accepts it and answers. -/
theorem alone_sendInitial_of_accepts {calm : List Verdict → Prop} (hcalm : Answering calm)
    {attrs : Attributes} (haccepts : (buildCustomAttributes attrs).all Directory.acceptsValues)
    (huser : username ∈ s.directory.accounts) (hqueues : calm s.lldap) :
    Alone (AlongId (RolesKept (· ≠ username)))
      (fun result s' => result = .ok () ∧ (s'.directory.groupNames = s.directory.groupNames ∧
        username ∈ s'.directory.accounts) ∧ calm s'.lldap)
      (mutation (Directory.updateUser username none (buildCustomAttributes attrs))) s := by
  have hstep : ∀ dir : Directory, (dir.groupNames = s.directory.groupNames ∧
      username ∈ dir.accounts) →
      (Directory.updateUser username none (buildCustomAttributes attrs) dir).2.groupNames =
        s.directory.groupNames ∧
      username ∈ (Directory.updateUser username none (buildCustomAttributes attrs)
        dir).2.accounts := fun dir h =>
    ⟨(congrArg (List.map fun g : Group => (g.id, g.displayName))
      (Directory.groups_updateUser username none _ dir)).trans h.1,
      (Directory.mem_accounts_updateUser_iff _ _ _ _ _).mpr h.2⟩
  refine alone_graphql_answered hcalm (fun s' => s'.directory.groupNames =
    s.directory.groupNames ∧ username ∈ s'.directory.accounts) (fun _ _ h => h)
    (fun s' h => ⟨rolesKept_updateUser_of_ne username none _ s'.directory, hstep _ h⟩)
    (fun s' h hqueues => ?_) ⟨rfl, huser⟩ hqueues
  obtain ⟨account, haccount⟩ := Option.isSome_iff_exists.mp (AList.lookup_isSome.mpr h.2)
  have hreply : (Directory.updateUser username none (buildCustomAttributes attrs)
      s'.directory).1 = .data () := by
    rw [Directory.updateUser_of_accepts haccount haccepts]
  rw [hreply]
  exact alone_pure ⟨rfl, hstep _ h, hqueues⟩

theorem alone_sendInitial_of_rejects {attrs : Attributes}
    (hrejects : ¬ (buildCustomAttributes attrs).all Directory.acceptsValues) :
    Alone (AlongId (RolesKept (· ≠ username)))
      (fun result s' => (∀ a, result ≠ .ok a) ∧ s'.directory = s.directory)
      (mutation (Directory.updateUser username none (buildCustomAttributes attrs))) s := by
  have hanswer : ∀ dir : Directory, Directory.updateUser username none
      (buildCustomAttributes attrs) dir = (.errors, dir) :=
    fun _ => Directory.updateUser_of_rejects hrejects
  refine alone_graphql (fun s' => s'.directory = s.directory) (fun _ _ h => h)
    (fun s' h => ?_) (fun s' value h hreply => ?_) (fun s' h hreply => ?_)
    (fun s' e h => ⟨by simp, h⟩) rfl
  · rw [hanswer]
    exact ⟨refl_of (RolesKept _) _, h⟩
  · rw [hanswer] at hreply
    cases hreply
  · rw [hanswer] at hreply
    cases hreply

/-- If its requests are answered, a creation leaves the role as it was or gives the account
the first group, where the group exists or none of the requests is lost. -/
theorem alone_createUser_answered {calm : List Verdict → Prop} (hcalm : Answering calm)
    {first : String} {rest : List String}
    (hfirst : takName first ∈ s.directory.groupNames.map Prod.snd ∨
      ∀ queue, calm queue → Faultless queue) (hqueues : calm s.lldap) :
    Alone (AlongId (RolesKept (· ≠ username)))
      (fun _ s' => s'.directory.HasTakGroup username ∨
        SameRole username s.directory s'.directory)
      (createUser client username name ttlHours (first :: rest) userType) s := by
  have hnames : ∀ dir : Directory, (Directory.createUser username name dir).2.groupNames =
      dir.groupNames := fun dir => congrArg (List.map fun g : Group => (g.id, g.displayName))
    (Directory.groups_createUser username name dir)
  have hcreated : Alone (AlongId (RolesKept (· ≠ username)))
      (fun _ s' => (SameRole username s.directory s'.directory ∧
        s'.directory.groupNames = s.directory.groupNames) ∧
          username ∈ s'.directory.accounts ∧ calm s'.lldap)
      (mutation (Directory.createUser username name)) s := by
    have hstep : ∀ s' : IdentityState settings, (SameRole username s.directory s'.directory ∧
        s'.directory.groupNames = s.directory.groupNames) →
        SameRole username s.directory (Directory.createUser username name s'.directory).2 ∧
          (Directory.createUser username name s'.directory).2.groupNames =
            s.directory.groupNames := fun s' h =>
      ⟨trans_of (SameRole username) h.1 (rolesKept_createUser username name (fun _ => True) _
        username trivial), (hnames s'.directory).trans h.2⟩
    refine alone_graphql_answered hcalm (fun s' => SameRole username s.directory s'.directory ∧
      s'.directory.groupNames = s.directory.groupNames) (fun _ _ h => h)
      (fun s' h => ⟨rolesKept_createUser username name _ s'.directory, hstep s' h⟩)
      (fun s' h hqueues => ?_) ⟨refl_of (SameRole username) _, rfl⟩ hqueues
    refine alone_settle ⟨hstep s' h, ?_, hqueues⟩ _
    change username ∈ (Directory.createUser username name s'.directory).2.accounts
    unfold Directory.createUser
    split_ifs with hexists
    · exact hexists
    · exact (AList.mem_insert _).mpr (Or.inl rfl)
  refine alone_bind (hcreated.mono (fun _ _ h => h) fun result s₁ hresult => ?_)
  obtain ⟨⟨hsame, hnames₁⟩, huser, hqueues₁⟩ := hresult
  cases result with
  | error e => exact Or.inr hsame
  | ok _ =>
  suffices hrest : ∀ expires, Alone (AlongId (RolesKept (· ≠ username)))
      (fun _ s' => s'.directory.HasTakGroup username ∨
        SameRole username s.directory s'.directory)
      (do
        mutation (Directory.updateUser username none
          (buildCustomAttributes (initialAttributes expires userType)))
        if first :: rest ≠ [] then ensureUserGroups username (first :: rest)
        fetchCreated client username name (initialAttributes expires userType)) s₁ from
    alone_bind (alone_expiryFor (fun expires _ => hrest expires)
      (fun _ n _ => hrest (some n)) fun _ => Or.inr hsame)
  intro expires
  by_cases haccepts : (buildCustomAttributes (initialAttributes expires userType)).all
      Directory.acceptsValues
  · refine alone_bind ((alone_sendInitial_of_accepts hcalm haccepts huser hqueues₁).mono
      (fun _ _ h => h) ?_)
    rintro result s₂ ⟨rfl, ⟨hnames₂, huser₂⟩, hqueues₂⟩
    rw [hnames₁] at hnames₂
    have hothers : ∀ t t' : IdentityState settings, AlongId (Gains username) t t' →
        AlongId (RolesKept (· ≠ username)) t t' := fun _ _ h => h.others
    dsimp only
    rw [if_pos (List.cons_ne_nil _ _)]
    refine alone_bind ((alone_ensureUserGroups_answered (s := s₂) hcalm (hnames₂ ▸ hfirst)
      huser₂ hqueues₂).mono hothers fun result s₃ htak => ?_)
    cases result with
    | error e => exact Or.inl htak
    | ok _ =>
        exact (alone_keepsTak (gains_fetchCreated _) htak).mono hothers fun _ _ h => Or.inl h
  · refine alone_bind ((alone_sendInitial_of_rejects haccepts).mono (fun _ _ h => h) ?_)
    rintro (e | _) s₂ ⟨hraised, hdirectory⟩
    · right
      rw [hdirectory]
      exact hsame
    · exact absurd rfl (hraised ())

end Creating

/-! ## Changes of groups -/

namespace Directory

theorem groupNames_removeUserFromGroup (username : String) (gid : ℤ) (dir : Directory) :
    (removeUserFromGroup username gid dir).2.groupNames = dir.groupNames := by
  unfold removeUserFromGroup
  split
  · rfl
  · simp only [groupNames, changeMembers, List.map_map]
    refine List.map_congr_left fun g _ => ?_
    simp only [Function.comp]
    split_ifs <;> rfl

/-- Taking an account out of one group leaves it in the others. -/
theorem isMember_removeUserFromGroup_of_name_ne {username other group : String} {gid : ℤ}
    {dir : Directory} (hlisted : (gid, other) ∈ dir.groupNames) (hne : other ≠ group)
    {v : String} (hmember : dir.IsMember v group) :
    (removeUserFromGroup username gid dir).2.IsMember v group := by
  obtain ⟨g, hgroup, hg, rfl⟩ := group_of_mem_groupNames hlisted
  obtain ⟨g', hg', rfl, hv⟩ := hmember
  have hid : g.id = gid := by simpa using List.find?_some hgroup
  rw [removeUserFromGroup, hgroup]
  refine ⟨g', (mem_changeMembers_iff _ _ _ _).mpr ⟨g', hg', ?_⟩, rfl, hv⟩
  rw [if_neg]
  intro hid'
  exact hne (congrArg Group.displayName
    (List.inj_on_of_nodup_map dir.ids_nodup hg hg' (hid.trans hid'.symm)))

theorem groups_user {username : String} {u : UserView} {dir : Directory}
    (huser : dir.user username = some u) {entry : ℤ × String} :
    entry ∈ u.groups ↔ ∃ g ∈ dir.groups, username ∈ g.members ∧ (g.id, g.displayName) = entry := by
  obtain ⟨account, -, rfl⟩ := Option.map_eq_some_iff.mp huser
  simp only [view, List.mem_map, List.mem_filter, decide_eq_true_eq, and_assoc]

theorem mem_groupNames_of_mem_groups {username : String} {u : UserView} {dir : Directory}
    (huser : dir.user username = some u) {entry : ℤ × String} (hentry : entry ∈ u.groups) :
    entry ∈ dir.groupNames := by
  obtain ⟨g, hg, -, rfl⟩ := (groups_user huser).mp hentry
  exact List.mem_map.mpr ⟨g, hg, rfl⟩

theorem any_groups_iff {username : String} {u : UserView} {dir : Directory}
    (huser : dir.user username = some u) (name : String) :
    u.groups.any (·.2 == name) ↔ dir.IsMember username name := by
  rw [List.any_eq_true]
  constructor
  · rintro ⟨entry, hentry, hname⟩
    obtain ⟨g, hg, hmember, rfl⟩ := (groups_user huser).mp hentry
    exact ⟨g, hg, by simpa using hname, hmember⟩
  · rintro ⟨g, hg, rfl, hmember⟩
    exact ⟨_, (groups_user huser).mpr ⟨g, hg, hmember, rfl⟩, by simp⟩

end Directory

/-- The groups of one account change, and nothing else happens to any role. -/
structure Regroups (username : String) (dir dir' : Directory) : Prop where
  others : RolesKept (· ≠ username) dir dir'
  userType : dir'.userTypeOf username = dir.userTypeOf username

instance (username : String) : IsPreorder Directory (Regroups username) where
  refl dir := ⟨refl_of (RolesKept _) dir, rfl⟩
  trans _ _ _ hfirst hsecond :=
    ⟨trans_of (RolesKept _) hfirst.others hsecond.others,
      hsecond.userType.trans hfirst.userType⟩

theorem regroups_addUserToGroup (username : String) (gid : ℤ) (dir : Directory) :
    Regroups username dir (Directory.addUserToGroup username gid dir).2 :=
  ⟨rolesKept_addUserToGroup username gid dir,
    Directory.userTypeOf_congr (by rw [Directory.accounts_addUserToGroup])⟩

theorem regroups_removeUserFromGroup (username : String) (gid : ℤ) (dir : Directory) :
    Regroups username dir (Directory.removeUserFromGroup username gid dir).2 :=
  ⟨rolesKept_removeUserFromGroup username gid dir,
    Directory.userTypeOf_congr (by rw [Directory.accounts_removeUserFromGroup])⟩

/-- The round of `set_user_groups` for a group the account has. -/
def removeUndesired (username : String) (desired : List String) (g : ℤ × String) :
    IdProg settings Unit :=
  if isTakName g.2 && !desired.contains g.2 then
    mutation (Directory.removeUserFromGroup username g.1)
  else pure ()

/-- The round of `set_user_groups` for a group that is asked for. -/
def addDesired (username : String) (u : Directory.UserView) (allGroups : List (ℤ × String))
    (name : String) : IdProg settings Unit :=
  if u.groups.any (·.2 == name) then pure ()
  else
    match allGroups.find? (·.2 == name) with
    | some found => mutation (Directory.addUserToGroup username found.1)
    | none => pure ()

theorem assignGroups_eq (username : String) (groupNames : List String) :
    (assignGroups username groupNames : IdProg settings Unit) = (do
      let allGroups ← query Directory.groupNames
      match ← query (Directory.user · username) with
      | none => raise .attributeError
      | some u => do
          let desired := settings.setOrder (groupNames.map takName)
          forList (removeUndesired username desired) u.groups
          forList (addDesired username u allGroups) desired) := rfl

theorem mem_setOrder_iff {name : String} {groupNames : List String} :
    name ∈ settings.setOrder (groupNames.map takName) ↔ ∃ g ∈ groupNames, takName g = name := by
  rw [(settings.setOrder_perm _).mem_iff, List.mem_dedup, List.mem_map]

section Assigning

variable {username : String} {groups : List String} {s : IdentityState settings}

/-- The groups have these ids and names, and the account is in one of them. -/
structure Remains (username group : String) (names : List (ℤ × String))
    (s : IdentityState settings) : Prop where
  names : s.directory.groupNames = names
  member : s.directory.IsMember username group

theorem remains_removeUndesired {desired : List String} {group : String}
    {names : List (ℤ × String)} (hgroup : group ∈ desired) {g : ℤ × String} (hg : g ∈ names)
    (hremains : Remains username group names s) :
    Alone (AlongId (Regroups username)) (fun _ s' => Remains username group names s')
      (removeUndesired username desired g) s := by
  unfold removeUndesired
  split_ifs with hundesired
  · have hne : g.2 ≠ group := by
      rintro rfl
      simp [hgroup] at hundesired
    refine alone_mutation _ (fun _ _ h => ⟨h.names, h.member⟩) (fun t ht => ?_) hremains
    refine ⟨regroups_removeUserFromGroup username g.1 t.directory, ?_, ?_⟩
    · exact (Directory.groupNames_removeUserFromGroup username g.1 t.directory).trans ht.names
    · exact Directory.isMember_removeUserFromGroup_of_name_ne (ht.names ▸ hg) hne ht.member
  · exact alone_pure hremains

theorem remains_addDesired {group : String} {names : List (ℤ × String)}
    (u : Directory.UserView) (name : String) (hremains : Remains username group names s) :
    Alone (AlongId (Regroups username)) (fun _ s' => Remains username group names s')
      (addDesired username u names name) s := by
  unfold addDesired
  split_ifs
  · exact alone_pure hremains
  · cases names.find? (·.2 == name) with
    | none => exact alone_pure hremains
    | some found =>
        refine alone_mutation _ (fun _ _ h => ⟨h.names, h.member⟩) (fun t ht => ?_) hremains
        exact ⟨regroups_addUserToGroup username found.1 t.directory,
          (Directory.groupNames_addUserToGroup username found.1 t.directory).trans ht.names,
          Directory.isMember_addUserToGroup_of_isMember username found.1 ht.member⟩

/-- An account that is in one of the groups asked for stays in it, whatever fails. -/
theorem alone_assignGroups_of_isMember {name : String} (hname : name ∈ groups)
    (hmember : s.directory.IsMember username (takName name)) :
    Alone (AlongId (Regroups username))
      (fun _ s' => s'.directory.IsMember username (takName name))
      (assignGroups username groups) s := by
  rw [assignGroups_eq]
  refine alone_bind (alone_query (fun queue => ?_) fun _ _ => hmember)
  refine alone_bind (alone_query (fun queue' => ?_) fun _ _ => hmember)
  dsimp only
  split
  · exact alone_raise hmember
  · next u huser =>
    have hdesired : takName name ∈ settings.setOrder (groups.map takName) :=
      mem_setOrder_iff.mpr ⟨name, hname, rfl⟩
    have hremains : Remains username (takName name) s.directory.groupNames
        (withQueue queue' (withQueue queue s)) := ⟨rfl, hmember⟩
    have hremoved := alone_forList (fun g hg t ht => remains_removeUndesired hdesired
      (Directory.mem_groupNames_of_mem_groups huser hg) ht) hremains
    refine alone_bind (hremoved.mono (fun _ _ h => h) fun result s₁ h => ?_)
    cases result with
    | error e => exact h.member
    | ok _ =>
        exact Alone.mono (alone_forList (fun wanted _ t ht => remains_addDesired u wanted ht) h)
          (fun _ _ h => h) fun _ _ h => h.member

/-- LLDAP answers, the groups have these ids and names, and the account exists. -/
structure Ready (calm : List Verdict → Prop) (username : String) (names : List (ℤ × String))
    (s : IdentityState settings) : Prop where
  names : s.directory.groupNames = names
  account : username ∈ s.directory.accounts
  queue : calm s.lldap

variable {calm : List Verdict → Prop} {names : List (ℤ × String)}

theorem ready_removeUndesired (hcalm : Answering calm) (desired : List String)
    {g : ℤ × String} (hg : g ∈ names) (hready : Ready calm username names s) :
    Alone (AlongId (Regroups username))
      (fun result s' => result = .ok () ∧ Ready calm username names s')
      (removeUndesired username desired g) s := by
  unfold removeUndesired
  split_ifs
  · have hstep : ∀ t : IdentityState settings, (t.directory.groupNames = names ∧
        username ∈ t.directory.accounts) →
        (Directory.removeUserFromGroup username g.1 t.directory).2.groupNames = names ∧
          username ∈ (Directory.removeUserFromGroup username g.1 t.directory).2.accounts :=
      fun t ht => ⟨(Directory.groupNames_removeUserFromGroup username g.1 t.directory).trans ht.1,
        by rw [Directory.accounts_removeUserFromGroup]; exact ht.2⟩
    refine alone_graphql_answered hcalm (fun t => t.directory.groupNames = names ∧
      username ∈ t.directory.accounts) (fun _ _ h => h)
      (fun t ht => ⟨regroups_removeUserFromGroup username g.1 t.directory, hstep t ht⟩)
      (fun t ht hqueue => ?_) ⟨hready.names, hready.account⟩ hready.queue
    obtain ⟨found, hfound, -, -⟩ := Directory.group_of_mem_groupNames (ht.1 ▸ hg)
    have hreply : (Directory.removeUserFromGroup username g.1 t.directory).1 = .data () := by
      rw [Directory.removeUserFromGroup, hfound]
    rw [hreply]
    exact alone_pure ⟨rfl, (hstep t ht).1, (hstep t ht).2, hqueue⟩
  · exact alone_pure ⟨rfl, hready⟩

/-- A round gives the account a group, or it is not one for the group that is missing. -/
theorem ready_addDesired (hcalm : Answering calm) {u : Directory.UserView} {group : String}
    (hgroup : group ∈ names.map Prod.snd) (hmissing : ¬ u.groups.any (·.2 == group))
    {name : String} (htak : isTakName name) (hready : Ready calm username names s) :
    Alone (AlongId (Regroups username))
      (fun result s' => s'.directory.HasTakGroup username ∨
        (result = .ok () ∧ Ready calm username names s') ∧ name ≠ group)
      (addDesired username u names name) s := by
  unfold addDesired
  split_ifs with hthere
  · refine alone_pure (Or.inr ⟨⟨rfl, hready⟩, ?_⟩)
    rintro rfl
    exact hmissing hthere
  · cases hfind : names.find? (·.2 == name) with
    | none =>
        refine alone_pure (Or.inr ⟨⟨rfl, hready⟩, ?_⟩)
        rintro rfl
        rw [← find_isSome_iff, hfind] at hgroup
        cases hgroup
    | some found =>
        have hsnd : found.2 = name := by simpa using List.find?_some hfind
        have hlisted : (found.1, name) ∈ s.directory.groupNames := by
          rw [hready.names, ← hsnd]
          exact List.mem_of_find?_eq_some hfind
        have hgains : ∀ t t' : IdentityState settings, AlongId (Gains username) t t' →
            AlongId (Regroups username) t t' := fun _ _ h => ⟨h.others, h.userType⟩
        exact (alone_addMember_answered hcalm hlisted hready.account hready.queue).mono hgains
          fun _ _ hmember => Or.inl ⟨name, htak, hmember⟩

theorem gains_addDesired (u : Directory.UserView) (names : List (ℤ × String)) (name : String) :
    Respects (AlongId (Gains username)) (fun _ => True)
      (addDesired username u names name : IdProg settings Unit) := by
  unfold addDesired
  split_ifs
  · exact respects_pure trivial
  · cases names.find? (·.2 == name) with
    | none => exact respects_pure trivial
    | some found => exact respects_mutation (stepOf_along (gains_addUserToGroup username _))

/-- A loop of such rounds gives the account a group, or none of them is for the missing one. -/
theorem ready_addDesired_forList (hcalm : Answering calm) {u : Directory.UserView}
    {group : String} (hgroup : group ∈ names.map Prod.snd)
    (hmissing : ¬ u.groups.any (·.2 == group)) {wanted : List String}
    (htak : ∀ name ∈ wanted, isTakName name) (hready : Ready calm username names s) :
    Alone (AlongId (Regroups username))
      (fun _ s' => s'.directory.HasTakGroup username ∨ group ∉ wanted)
      (forList (addDesired username u names) wanted) s := by
  induction wanted generalizing s with
  | nil => exact alone_pure (Or.inr List.not_mem_nil)
  | cons name wanted ih =>
      refine alone_bind ((ready_addDesired hcalm hgroup hmissing (htak name (by simp))
        hready).mono (fun _ _ h => h) ?_)
      rintro result s₁ (hgained | ⟨⟨rfl, hready₁⟩, hne⟩)
      · cases result with
        | error e => exact Or.inl hgained
        | ok _ =>
            have hrest : Alone (AlongId (Gains username))
                (fun _ s' => s'.directory.HasTakGroup username)
                (forList (addDesired username u names) wanted) s₁ :=
              alone_keepsTak (respects_forList wanted fun name _ =>
                gains_addDesired u names name) hgained
            exact hrest.mono (fun _ _ h => ⟨h.others, h.userType⟩) fun _ _ h => Or.inl h
      · refine (ih (fun other h => htak other (by simp [h])) hready₁).mono (fun _ _ h => h)
          fun _ _ h => h.imp_right fun hnot => ?_
        simp [hnot, hne.symm]

/-- If the requests are answered, the account has a group in the end, where one of the groups
asked for exists. -/
theorem alone_assignGroups_answered (hcalm : Answering calm) {name : String}
    (hname : name ∈ groups) (hexists : takName name ∈ s.directory.groupNames.map Prod.snd)
    (huser : username ∈ s.directory.accounts) (hqueues : calm s.lldap) :
    Alone (AlongId (Regroups username)) (fun _ s' => s'.directory.HasTakGroup username)
      (assignGroups username groups) s := by
  by_cases hmember : s.directory.IsMember username (takName name)
  · exact (alone_assignGroups_of_isMember hname hmember).mono (fun _ _ h => h)
      fun _ _ h => ⟨takName name, isTakName_takName name, h⟩
  · rw [assignGroups_eq]
    refine alone_bind (alone_query_answered hcalm hqueues fun queue hqueues => ?_)
    refine alone_bind (alone_query_answered hcalm hqueues fun queue' hqueues => ?_)
    obtain ⟨account, haccount⟩ := Option.isSome_iff_exists.mp (AList.lookup_isSome.mpr huser)
    have hview : s.directory.user username = some (s.directory.view username account) := by
      rw [Directory.user, haccount]
      rfl
    change Alone _ _ (match s.directory.user username with
      | none => raise Exn.attributeError
      | some u => do
          forList (removeUndesired username (settings.setOrder (groups.map takName))) u.groups
          forList (addDesired username u s.directory.groupNames)
            (settings.setOrder (groups.map takName))) _
    rw [hview]
    have hready : Ready calm username s.directory.groupNames
        (withQueue queue' (withQueue queue s)) := ⟨rfl, huser, hqueues⟩
    refine alone_bind ((alone_forList_ok (fun g hg t ht => ready_removeUndesired hcalm _
      (Directory.mem_groupNames_of_mem_groups hview hg) ht) hready).mono (fun _ _ h => h) ?_)
    rintro result s₁ ⟨rfl, hready₁⟩
    have htak : ∀ wanted ∈ settings.setOrder (groups.map takName), isTakName wanted := by
      intro wanted hwanted
      obtain ⟨g, -, rfl⟩ := mem_setOrder_iff.mp hwanted
      exact isTakName_takName g
    refine (ready_addDesired_forList hcalm hexists ?_ htak hready₁).mono (fun _ _ h => h)
      fun _ _ h => h.resolve_right fun hnot => hnot (mem_setOrder_iff.mpr ⟨name, hname, rfl⟩)
    rw [Directory.any_groups_iff hview]
    exact hmember

end Assigning

end FastTAK.Identity
