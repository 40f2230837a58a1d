import FastTAK.Identity.Client

/-!
# What the identity client sends

For each operation of the client: which mutations of the directory and of the
token store its requests may amount to, whatever the directory answers and
whatever fails.  Everything else it does moves only queues and caches.
-/

namespace FastTAK.Identity

open FastTAK.Effect FastTAK.Effect.Prog FastTAK.Api FastTAK.Proxy

variable {settings : Settings} {α : Type}

/-- Only queues and the clients' caches moved. -/
structure Quiet (s s' : IdentityState settings) : Prop where
  directory : s'.directory = s.directory
  tokens : s'.tokens = s.tokens
  now : s'.now = s.now
  minted : s'.minted = s.minted

instance : IsPreorder (IdentityState settings) Quiet where
  refl _ := ⟨rfl, rfl, rfl, rfl⟩
  trans _ _ _ hfirst hsecond := {
    directory := hsecond.directory.trans hfirst.directory
    tokens := hsecond.tokens.trans hfirst.tokens
    now := hsecond.now.trans hfirst.now
    minted := hsecond.minted.trans hfirst.minted }

/-- A guarantee that does not speak about queues and caches. -/
class Tolerant (guar : IdentityState settings → IdentityState settings → Prop) : Prop
    extends IsPreorder (IdentityState settings) guar where
  quiet : ∀ s s', Quiet s s' → guar s s'

instance : Tolerant (@Quiet settings) where
  quiet _ _ h := h

/-- A guarantee that lets requests be taken from the queues and ids be noted. -/
class Passive (guar : IdentityState settings → IdentityState settings → Prop) : Prop
    extends IsPreorder (IdentityState settings) guar where
  sends : ∀ s, guar s { s with lldap := s.lldap.tail }
  asks : ∀ s, guar s { s with proxy := s.proxy.tail }
  notes : ∀ client username s, guar s (noteId client username s)

instance {guar : IdentityState settings → IdentityState settings → Prop} [Tolerant guar] :
    Passive guar where
  sends _ := Tolerant.quiet _ _ ⟨rfl, rfl, rfl, rfl⟩
  asks _ := Tolerant.quiet _ _ ⟨rfl, rfl, rfl, rfl⟩
  notes _ _ _ := Tolerant.quiet _ _ ⟨rfl, rfl, rfl, rfl⟩

/-- The mutation is a step of the guarantee in every state. -/
def StepOf (guar : IdentityState settings → IdentityState settings → Prop)
    (request : Directory → Directory.Reply α × Directory) : Prop :=
  ∀ s, guar s (withDirectory s (request s.directory).2)

section Operations

variable {guar : IdentityState settings → IdentityState settings → Prop} [Passive guar]
variable {returns : α → Prop}

/-! ## Requests -/

theorem guar_attempt {request : Directory → Directory.Reply α × Directory}
    (hstep : StepOf guar request) (s : IdentityState settings) :
    guar s (graphqlAttempt request s).2 := by
  have hrest : guar s { s with lldap := s.lldap.tail } := Passive.sends s
  have happlied := trans_of guar hrest (hstep { s with lldap := s.lldap.tail })
  unfold graphqlAttempt
  cases nextVerdict s.lldap with
  | runs => exact happlied
  | fails applied =>
      dsimp only
      split_ifs
      · exact hrest
      · exact happlied
  | raises applied =>
      dsimp only
      split_ifs
      · exact hrest
      · exact happlied

theorem attempt_returned {request : Directory → Directory.Reply α × Directory}
    {s s' : IdentityState settings} {reply : Directory.Reply α}
    (hrun : graphqlAttempt request s = (.ok (some reply), s')) :
    reply = (request s.directory).1 ∧
      s' = withDirectory { s with lldap := s.lldap.tail } (request s.directory).2 := by
  unfold graphqlAttempt at hrun
  cases hverdict : nextVerdict s.lldap with
  | runs =>
      simp only [hverdict, Prod.mk.injEq, Except.ok.injEq, Option.some.injEq] at hrun
      exact ⟨hrun.1.symm, hrun.2.symm⟩
  | fails applied => simp [hverdict] at hrun
  | raises applied => simp [hverdict] at hrun

theorem respects_graphql {onEmpty : IdProg settings α}
    {request : Directory → Directory.Reply α × Directory}
    (hempty : Respects guar returns onEmpty) (hstep : StepOf guar request)
    (hdata : ∀ dir value, (request dir).1 = .data value → returns value) :
    Respects guar returns (graphql onEmpty request) := by
  have hattempts : ∀ attempts,
      Respects guar returns (graphqlAttempts onEmpty request attempts) := by
    intro attempts
    induction attempts with
    | zero => exact respects_raise _
    | succ attempts ih =>
        have hattempt : Respects guar
            (fun reply => ∀ value, reply = some (.data value) → returns value)
            (atomic (graphqlAttempt request) : IdProg settings _) := by
          refine respects_atomic fun s => ⟨guar_attempt hstep s, ?_⟩
          rintro reply hreply value rfl
          have hrun : graphqlAttempt request s =
              (.ok (some (.data value)), (graphqlAttempt request s).2) :=
            Prod.ext hreply rfl
          exact hdata _ _ (attempt_returned hrun).1.symm
        refine respects_bind hattempt fun reply hreply => ?_
        match reply, hreply with
        | none, _ => exact ih
        | some (.data value), hreply => exact respects_pure (hreply value rfl)
        | some .duplicate, _ =>
            dsimp only
            split_ifs
            · exact hempty
            · exact respects_raise _
        | some .errors, _ => exact respects_raise _
  exact hattempts 3

theorem respects_mutation {request : Directory → Directory.Reply Unit × Directory}
    (hstep : StepOf guar request) :
    Respects guar (fun _ => True) (mutation request : IdProg settings _) :=
  respects_graphql (respects_pure trivial) hstep fun _ _ _ => trivial

theorem respects_query {f : Directory → α} (hreturns : ∀ dir, returns (f dir)) :
    Respects guar returns (query f : IdProg settings _) := by
  refine respects_graphql (respects_raise _) (fun s => refl_of guar s) ?_
  intro dir value h
  rw [← Directory.Reply.data.inj h]
  exact hreturns dir

theorem respects_read (f : IdentityState settings → α) :
    Respects guar (fun _ => True) (atomic (Call.read f) : IdProg settings α) :=
  respects_atomic fun s => ⟨refl_of guar s, fun _ _ => trivial⟩

/-! ## Ids -/

theorem guar_noteId (client : Client) (username : String) (s : IdentityState settings) :
    guar s (noteId client username s) := Passive.notes client username s

theorem respects_refreshUserIdMap (client : Client) :
    Respects guar (fun _ => True) (refreshUserIdMap client : IdProg settings _) := by
  refine respects_bind (P := fun _ => True)
    (respects_query fun _ => trivial) fun users _ => ?_
  refine respects_forList users fun u _ => respects_atomic fun s => ⟨?_, fun _ _ => trivial⟩
  unfold registerId
  dsimp only
  split
  · split_ifs
    · exact guar_noteId client u.id s
    · exact refl_of guar s
  · exact guar_noteId client u.id s

theorem respects_lookup (client : Client) (userId : ℤ) :
    Respects guar (fun found => ∀ username ∈ found, settings.numericId username = userId)
      (atomic (Call.read fun s => (s.ids client).lookup userId) :
        IdProg settings (Option String)) := by
  refine respects_atomic fun s => ⟨refl_of guar s, ?_⟩
  intro found hfound username husername
  obtain rfl := Except.ok.inj hfound
  exact (s.ids client).sound userId username husername

/-- An id is only ever resolved to a username with that numeric id. -/
theorem respects_resolveUsername (client : Client) (userId : ℤ) :
    Respects guar (fun found => ∀ username ∈ found, settings.numericId username = userId)
      (resolveUsername client userId) := by
  refine respects_bind (respects_lookup client userId) fun found hfound => ?_
  cases found with
  | some username => exact respects_pure hfound
  | none =>
      exact respects_bind (respects_refreshUserIdMap client)
        fun _ _ => respects_lookup client userId

theorem respects_requireUsername (client : Client) (userId : ℤ) :
    Respects guar (fun username => settings.numericId username = userId)
      (requireUsername client userId) := by
  refine respects_bind (respects_resolveUsername client userId) fun found hfound => ?_
  cases found with
  | some username => exact respects_pure (hfound username rfl)
  | none => exact respects_raise _

/-! ## Users -/

/-- A record carries the numeric id of its username. -/
def Proper (settings : Settings) (user : UserRecord) : Prop :=
  user.id = settings.numericId user.username

theorem respects_formatUser (client : Client) (u : Directory.UserView) :
    Respects guar (fun record => Proper settings record ∧ record = toRecord settings u)
      (formatUser client u) := by
  have hnote : Respects guar (fun _ => True)
      (atomic (Call.modify (noteId client u.id)) : IdProg settings Unit) :=
    respects_atomic fun s => ⟨guar_noteId client u.id s, fun _ _ => trivial⟩
  exact respects_bind hnote fun _ _ => respects_pure ⟨rfl, rfl⟩

theorem respects_listUsers (client : Client) (search : Option String) :
    Respects guar (fun users => ∀ user ∈ users, ¬ isHidden settings client user.username)
      (listUsers client search : IdProg settings _) := by
  refine respects_bind (P := fun _ => True)
    (respects_query fun _ => trivial) fun users _ => ?_
  refine respects_mapList _ fun u hu => ?_
  obtain ⟨hvisible, -⟩ := Bool.and_eq_true_iff.mp (List.mem_filter.mp hu).2
  refine (respects_formatUser client u).mono (fun _ _ h => h) ?_
  rintro record ⟨-, rfl⟩
  simpa [toRecord] using hvisible

theorem respects_getUser (client : Client) (userId : ℤ) :
    Respects guar (fun found => ∀ user ∈ found, (Proper settings user ∧
      settings.numericId user.username = userId) ∧ ¬ isHidden settings client user.username)
      (getUser client userId) := by
  refine respects_bind (respects_resolveUsername client userId) fun found hfound => ?_
  cases found with
  | none => exact respects_pure (by simp)
  | some username =>
      dsimp only
      split_ifs with hhidden
      · exact respects_pure (by simp)
      · have hquery : Respects guar (fun found : Option Directory.UserView =>
            ∀ u ∈ found, u.id = username)
            (query (Directory.user · username) : IdProg settings _) :=
          respects_query fun dir u hu => Directory.user_id hu
        refine respects_bind hquery fun view hview => ?_
        cases view with
        | none => exact respects_pure (by simp)
        | some u =>
            obtain rfl := hview u rfl
            dsimp only
            rw [if_neg hhidden]
            refine respects_bind (respects_formatUser client u) fun record hrecord => ?_
            obtain ⟨hproper, rfl⟩ := hrecord
            refine respects_pure ?_
            rintro user ⟨⟩
            exact ⟨⟨hproper, hfound u.id rfl⟩, hhidden⟩

theorem respects_expiryAfter (ttlHours : ℤ) :
    Respects guar (fun _ => True) (expiryAfter ttlHours : IdProg settings _) := by
  refine respects_bind (respects_read _) fun now _ => ?_
  split_ifs
  · exact respects_raise _
  · exact respects_pure trivial

theorem respects_existingAttributes (username : String) :
    Respects guar (fun _ => True)
      (existingAttributes username : IdProg settings _) := by
  refine respects_bind (P := fun _ => True)
    (respects_query fun _ => trivial) fun found _ => ?_
  cases found with
  | some u => exact respects_pure trivial
  | none => exact respects_raise _

theorem respects_expiryFor (ttlHours : Option ℤ) :
    Respects guar (fun _ => True) (expiryFor ttlHours : IdProg settings _) := by
  cases ttlHours with
  | none => exact respects_pure trivial
  | some ttlHours =>
      exact respects_bind (respects_expiryAfter ttlHours) fun _ _ => respects_pure trivial

theorem respects_ensureGroup {allGroups : List (ℤ × String)} {name : String}
    (hcreate : StepOf guar (Directory.createGroup name)) :
    Respects guar (fun _ => True) (ensureGroup allGroups name : IdProg settings _) := by
  unfold ensureGroup
  cases allGroups.find? (·.2 == name) with
  | some found => exact respects_pure trivial
  | none => exact respects_graphql (respects_raise _) hcreate fun _ _ _ => trivial

/-- The steps `_ensure_user_groups` may take. -/
theorem respects_ensureUserGroups {username : String} {groupNames : List String}
    (hcreate : ∀ name ∈ groupNames, StepOf guar (Directory.createGroup (takName name)))
    (hadd : ∀ gid, StepOf guar (Directory.addUserToGroup username gid)) :
    Respects guar (fun _ => True)
      (ensureUserGroups username groupNames : IdProg settings _) := by
  refine respects_bind (P := fun _ => True)
    (respects_query fun _ => trivial) fun allGroups _ => ?_
  refine respects_forList groupNames fun name hname => ?_
  exact respects_bind (respects_ensureGroup (hcreate name hname))
    fun gid _ => respects_mutation (hadd gid)

theorem respects_fetchCreated (client : Client) (username name : String)
    (attrs : Attributes) :
    Respects guar (fun user => Proper settings user ∧ user.username = username)
      (fetchCreated client username name attrs : IdProg settings _) := by
  refine respects_bind (P := fun _ => True)
    (respects_query fun _ => trivial) fun users _ => ?_
  split
  · next u hfind =>
      have hid : u.id = username := by simpa using List.find?_some hfind
      refine (respects_formatUser client u).mono (fun _ _ h => h) ?_
      rintro user ⟨hproper, rfl⟩
      exact ⟨hproper, hid⟩
  · refine (respects_formatUser client _).mono (fun _ _ h => h) ?_
    rintro user ⟨hproper, rfl⟩
    exact ⟨hproper, rfl⟩

/-- The steps `create_user` may take: the new account and its attributes, and those
of its groups. -/
theorem respects_createUser {client : Client} {username name : String}
    {ttlHours : Option ℤ} {groups : List String} {userType : String}
    (hcreate : StepOf guar (Directory.createUser username name))
    (hupdate : ∀ expires, StepOf guar (Directory.updateUser username none
      (buildCustomAttributes (initialAttributes expires userType))))
    (hgroups : Respects guar (fun _ => True)
      (ensureUserGroups username groups : IdProg settings _)) :
    Respects guar (fun user => Proper settings user ∧ user.username = username)
      (createUser client username name ttlHours groups userType : IdProg settings _) := by
  refine respects_bind (respects_mutation hcreate) fun _ _ => ?_
  refine respects_bind (respects_expiryFor ttlHours) fun expires _ => ?_
  refine respects_bind (respects_mutation (hupdate expires)) fun _ _ => ?_
  have hlast : Respects guar (fun user => Proper settings user ∧ user.username = username)
      (fetchCreated client username name (initialAttributes expires userType)) :=
    respects_fetchCreated client username name _
  dsimp only
  split_ifs
  · exact respects_bind hgroups fun _ _ => hlast
  · exact hlast

theorem respects_sendChanges {username : String} {changes : UserChanges}
    {expires : Option ℤ}
    (hname : changes.isActive = none → changes.ttlHours = none →
      StepOf guar (Directory.updateUser username changes.name []))
    (hmerge : ∀ existing : Attributes, ¬ (changes.isActive = none ∧ changes.ttlHours = none) →
      StepOf guar (Directory.updateUser username changes.name
        (buildCustomAttributes (existing.merge (attributesUpdate changes expires)) ++
          (attributesUpdate changes expires).cleared))) :
    Respects guar (fun _ => True)
      (sendChanges username changes expires : IdProg settings _) := by
  unfold sendChanges
  split_ifs with hnone
  · exact respects_pure trivial
  · exact respects_mutation (hname hnone.1 hnone.2)
  · refine respects_bind (respects_existingAttributes username) fun existing _ => ?_
    exact respects_mutation (hmerge existing hnone)

/-- The steps `update_user` may take. -/
theorem respects_updateUser {client : Client} {userId : ℤ} {changes : UserChanges}
    (hname : ∀ username, settings.numericId username = userId →
      changes.isActive = none → changes.ttlHours = none →
        StepOf guar (Directory.updateUser username changes.name []))
    (hmerge : ∀ username expires (existing : Attributes),
      settings.numericId username = userId →
      ¬ (changes.isActive = none ∧ changes.ttlHours = none) →
      StepOf guar (Directory.updateUser username changes.name
        (buildCustomAttributes (existing.merge (attributesUpdate changes expires)) ++
          (attributesUpdate changes expires).cleared))) :
    Respects guar (fun _ => True)
      (updateUser client userId changes : IdProg settings _) := by
  have hlast : Respects guar (fun _ => True)
      (getUser client userId : IdProg settings _) :=
    (respects_getUser client userId).mono (fun _ _ h => h) fun _ _ => trivial
  refine respects_bind (respects_requireUsername client userId) fun username husername => ?_
  refine respects_bind (respects_expiryFor _) fun expires _ => ?_
  refine respects_bind (respects_sendChanges ?_ ?_) fun _ _ => hlast
  · exact hname username husername
  · exact fun existing hsome => hmerge username expires existing husername hsome

theorem respects_deactivateUser {client : Client} {userId : ℤ}
    (hstep : ∀ username, settings.numericId username = userId →
      StepOf guar (Directory.updateUser username none
        (buildCustomAttributes { Attributes.none with isActive := some false }))) :
    Respects guar (fun _ => True) (deactivateUser client userId : IdProg settings _) :=
  respects_bind (respects_requireUsername client userId)
    fun username husername => respects_mutation (hstep username husername)

theorem respects_setPassword (client : Client) (userId : ℤ) :
    Respects guar (fun _ => True) (setPassword client userId : IdProg settings _) := by
  refine respects_bind (respects_requireUsername client userId) fun username _ => ?_
  refine respects_bind (P := fun _ => True) ?_ fun verdict _ => ?_
  · exact respects_atomic fun s => ⟨Passive.sends s, fun _ _ => trivial⟩
  · cases verdict with
    | runs => exact respects_pure trivial
    | fails _ => exact respects_raise _
    | raises _ => exact respects_raise _

theorem respects_markCertsRevoked {client : Client} {userId : ℤ}
    (hstep : ∀ username (existing : Attributes), settings.numericId username = userId →
      StepOf guar (Directory.updateUser username none
        (buildCustomAttributes { existing with certsRevoked := some true }))) :
    Respects guar (fun _ => True)
      (markCertsRevoked client userId : IdProg settings _) := by
  refine respects_bind (respects_requireUsername client userId) fun username husername => ?_
  exact respects_bind (respects_existingAttributes username)
    fun existing _ => respects_mutation (hstep username existing husername)

theorem respects_getUsersPendingExpiry (client : Client) :
    Respects guar (fun users => ∀ user ∈ users, Proper settings user)
      (getUsersPendingExpiry client : IdProg settings _) := by
  refine respects_bind (P := fun _ => True)
    (respects_query fun _ => trivial) fun users _ => ?_
  refine respects_bind (respects_read _) fun now _ => ?_
  refine respects_mapList _ fun u _ => ?_
  exact (respects_formatUser client u).mono (fun _ _ h => h) fun _ h => h.1

/-! ## Groups -/

theorem respects_listGroups :
    Respects guar (fun _ => True) (listGroups : IdProg settings _) :=
  respects_bind (P := fun _ => True) (respects_query fun _ => trivial)
    fun _ _ => respects_pure trivial

theorem respects_getGroup (client : Client) (groupId : String) :
    Respects guar (fun _ => True) (getGroup client groupId : IdProg settings _) := by
  unfold getGroup
  cases pyInt groupId with
  | none => exact respects_pure trivial
  | some gid =>
      refine respects_bind (P := fun _ => True)
        (respects_query fun _ => trivial) fun found _ => ?_
      cases found with
      | none => exact respects_pure trivial
      | some g =>
          dsimp only
          split_ifs
          · exact respects_pure trivial
          · exact respects_pure trivial

theorem respects_createGroup {name : String}
    (hstep : StepOf guar (Directory.createGroup (takName name))) :
    Respects guar (fun _ => True) (createGroup name : IdProg settings _) :=
  respects_bind (P := fun _ => True)
    (respects_graphql (respects_raise _) hstep fun _ _ _ => trivial)
    fun _ _ => respects_pure trivial

theorem respects_deleteGroup {groupId : String}
    (hstep : ∀ gid, StepOf guar (Directory.deleteGroup gid)) :
    Respects guar (fun _ => True) (deleteGroup groupId : IdProg settings _) := by
  unfold deleteGroup
  cases pyInt groupId with
  | none => exact respects_pure trivial
  | some gid => exact respects_mutation (hstep gid)

/-- The steps `set_user_groups` may take, whichever groups it finds. -/
theorem respects_assignGroups {username : String} {groupNames : List String}
    (hremove : ∀ gid, StepOf guar (Directory.removeUserFromGroup username gid))
    (hadd : ∀ gid, StepOf guar (Directory.addUserToGroup username gid)) :
    Respects guar (fun _ => True) (assignGroups username groupNames : IdProg settings _) := by
  refine respects_bind (P := fun _ => True)
    (respects_query fun _ => trivial) fun allGroups _ => ?_
  refine respects_bind (P := fun _ => True)
    (respects_query fun _ => trivial) fun found _ => ?_
  cases found with
  | none => exact respects_raise _
  | some u =>
      refine respects_bind (P := fun _ => True)
        (respects_forList u.groups fun g _ => ?_) fun _ _ => ?_
      · split_ifs
        · exact respects_mutation (hremove g.1)
        · exact respects_pure trivial
      · refine respects_forList _ fun name _ => ?_
        split_ifs
        · exact respects_pure trivial
        · cases allGroups.find? (·.2 == name) with
          | some found => exact respects_mutation (hadd found.1)
          | none => exact respects_pure trivial

theorem respects_setUserGroups {client : Client} {userId : ℤ} {groupNames : List String}
    (hremove : ∀ username gid, StepOf guar (Directory.removeUserFromGroup username gid))
    (hadd : ∀ username gid, StepOf guar (Directory.addUserToGroup username gid)) :
    Respects guar (fun _ => True)
      (setUserGroups client userId groupNames : IdProg settings _) :=
  respects_bind (respects_requireUsername client userId)
    fun username _ => respects_assignGroups (hremove username) (hadd username)

/-! ## Enrollment tokens -/

theorem respects_proxyRequest
    {request : IdentityState settings → Option α × IdentityState settings}
    (hstep : ∀ s, guar s (request s).2) (hreturns : ∀ s a, (request s).1 = some a → returns a) :
    Respects guar returns (proxyRequest request) := by
  have hattempt : Respects guar (fun answer => ∀ a ∈ answer, returns a)
      (atomic (proxyAttempt request)) := by
    refine respects_atomic fun s => ?_
    have hrest : guar s { s with proxy := s.proxy.tail } := Passive.asks s
    have happlied := trans_of guar hrest (hstep { s with proxy := s.proxy.tail })
    unfold proxyAttempt
    cases nextVerdict s.proxy with
    | runs =>
        dsimp only
        rcases hrequest : request { s with proxy := s.proxy.tail } with ⟨_ | a, s'⟩
        · rw [hrequest] at happlied
          exact ⟨happlied, by simp⟩
        · rw [hrequest] at happlied
          refine ⟨happlied, ?_⟩
          rintro answer ⟨⟩ b ⟨⟩
          exact hreturns _ _ (congrArg Prod.fst hrequest)
    | fails applied =>
        dsimp only
        refine ⟨?_, ?_⟩
        · split_ifs
          · exact hrest
          · exact happlied
        · rintro answer ⟨⟩ b ⟨⟩
    | raises applied =>
        dsimp only
        refine ⟨?_, by simp⟩
        split_ifs
        · exact hrest
        · exact happlied
  have hattempts : ∀ attempts, Respects guar returns (proxyAttempts request attempts) := by
    intro attempts
    induction attempts with
    | zero => exact respects_raise _
    | succ attempts ih =>
        refine respects_bind hattempt fun answer hanswer => ?_
        cases answer with
        | none => exact ih
        | some a => exact respects_pure (hanswer a rfl)
  exact hattempts 3

theorem respects_proxyPathRequest {username : String}
    {request : IdentityState settings → Option α × IdentityState settings}
    (hstep : ∀ s, guar s (request s).2) (hreturns : ∀ s a, (request s).1 = some a → returns a) :
    Respects guar returns (proxyPathRequest username request) := by
  unfold proxyPathRequest
  split_ifs
  · exact respects_raise _
  · exact respects_proxyRequest hstep hreturns

theorem respects_getOrCreateEnrollmentToken {client : Client} {userId ttlMinutes : ℤ}
    {oneTime : Bool}
    (hstep : ∀ username, settings.numericId username = userId →
      ∀ s, guar s (createToken username ttlMinutes oneTime s).2) :
    Respects guar (fun _ => True)
      (getOrCreateEnrollmentToken client userId ttlMinutes
        oneTime : IdProg settings _) := by
  refine respects_bind (respects_requireUsername client userId) fun username husername => ?_
  refine respects_bind (P := fun _ => True)
    (respects_proxyPathRequest (fun s => refl_of guar s) fun _ _ _ => trivial)
    fun rows _ => ?_
  cases rows with
  | nil => exact respects_proxyRequest (hstep username husername) fun _ _ _ => trivial
  | cons row rows => exact respects_pure trivial

theorem respects_deleteEnrollmentTokens {client : Client} {userId : ℤ}
    (hstep : ∀ username, settings.numericId username = userId →
      ∀ s, guar s (deleteTokens username s).2) :
    Respects guar (fun _ => True)
      (deleteEnrollmentTokens client userId : IdProg settings _) := by
  refine respects_bind (respects_resolveUsername client userId) fun found hfound => ?_
  cases found with
  | none => exact respects_pure trivial
  | some username =>
      exact respects_proxyPathRequest (hstep username (hfound username rfl))
        fun _ _ _ => trivial

end Operations

end FastTAK.Identity
