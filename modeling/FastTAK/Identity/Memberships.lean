import FastTAK.Identity.UserTypes

/-!
# The groups of a user, set anew

`set_user_groups` may end at any of its requests.  This file shows that no request of it touches
anything but the groups it is to change, and that calling it again leads where it would have led
at once.
-/

namespace FastTAK.Identity

open FastTAK.Effect FastTAK.Effect.Prog FastTAK.Api

variable {settings : Settings}

/-! ## Moves of the directory -/

/-- The account lost only `tak_` groups that are not desired, it gained only desired groups, and
nothing else moved. -/
structure Within (username : String) (desired : List String) (dir dir' : Directory) : Prop where
  accounts : dir'.accounts = dir.accounts
  names : dir'.groupNames = dir.groupNames
  others : ∀ v, v ≠ username → ∀ group, dir'.IsMember v group ↔ dir.IsMember v group
  lost : ∀ group, dir.IsMember username group → ¬ dir'.IsMember username group →
    isTakName group ∧ group ∉ desired
  gained : ∀ group, dir'.IsMember username group → ¬ dir.IsMember username group →
    group ∈ desired

instance (username : String) (desired : List String) :
    IsPreorder Directory (Within username desired) where
  refl _ := ⟨rfl, rfl, fun _ _ _ => Iff.rfl, fun _ h hnot => absurd h hnot,
    fun _ h hnot => absurd h hnot⟩
  trans dir dir₁ dir₂ hfirst hsecond := {
    accounts := hsecond.accounts.trans hfirst.accounts
    names := hsecond.names.trans hfirst.names
    others := fun v hv group => (hsecond.others v hv group).trans (hfirst.others v hv group)
    lost := by
      intro group hmember hnot
      by_cases hmiddle : dir₁.IsMember username group
      · exact hsecond.lost group hmiddle hnot
      · exact hfirst.lost group hmember hmiddle
    gained := by
      intro group hmember hnot
      by_cases hmiddle : dir₁.IsMember username group
      · exact hfirst.gained group hmiddle hnot
      · exact hsecond.gained group hmember hmiddle }

/-- The group of a listed id and name is the only one of either. -/
theorem Directory.name_of_id {dir : Directory} {gid : ℤ} {name : String} {g : Group}
    (hlisted : (gid, name) ∈ dir.groupNames) (hg : g ∈ dir.groups) (hid : g.id = gid) :
    g.displayName = name := by
  obtain ⟨listed, hlistedMem, hpair⟩ := List.mem_map.mp hlisted
  obtain ⟨rfl, rfl⟩ := Prod.mk.inj hpair
  rw [List.inj_on_of_nodup_map dir.ids_nodup hg hlistedMem hid]

/-- An account that was taken out of a group is not in it. -/
theorem Directory.not_isMember_removeUserFromGroup {username name : String} {gid : ℤ}
    {dir : Directory} (hlisted : (gid, name) ∈ dir.groupNames) :
    ¬ (removeUserFromGroup username gid dir).2.IsMember username name := by
  obtain ⟨g, hgroup, hg, rfl⟩ := group_of_mem_groupNames hlisted
  have hid : g.id = gid := by simpa using List.find?_some hgroup
  rw [removeUserFromGroup, hgroup]
  rintro ⟨changed, hchanged, hname, hmember⟩
  obtain ⟨g', hg', rfl⟩ := (mem_changeMembers_iff _ _ _ _).mp hchanged
  split_ifs at hname hmember with hsame
  · simp at hmember
  · have hgroups : g' = g := List.inj_on_of_nodup_map dir.names_nodup hg' hg hname
    exact hsame (hgroups ▸ hid)

section Moves

variable {username name : String} {desired : List String} {gid : ℤ} {dir : Directory}

theorem within_removeUserFromGroup (hlisted : (gid, name) ∈ dir.groupNames)
    (htak : isTakName name) (hname : name ∉ desired) :
    Within username desired dir (Directory.removeUserFromGroup username gid dir).2 where
  accounts := Directory.accounts_removeUserFromGroup username gid dir
  names := Directory.groupNames_removeUserFromGroup username gid dir
  others := fun _ hv => Directory.isMember_removeUserFromGroup_of_ne hv gid dir
  lost := by
    intro group hmember hnot
    have hsame : name = group := by
      by_contra hne
      exact hnot (Directory.isMember_removeUserFromGroup_of_name_ne hlisted hne hmember)
    exact hsame ▸ ⟨htak, hname⟩
  gained := by
    intro group hmember hnot
    exact absurd (Directory.isMember_of_removeUserFromGroup hmember) hnot

theorem within_addUserToGroup (hlisted : (gid, name) ∈ dir.groupNames)
    (hname : name ∈ desired) :
    Within username desired dir (Directory.addUserToGroup username gid dir).2 where
  accounts := Directory.accounts_addUserToGroup username gid dir
  names := Directory.groupNames_addUserToGroup username gid dir
  others := fun _ hv => Directory.isMember_addUserToGroup_of_ne hv gid dir
  lost := by
    intro group hmember hnot
    exact absurd (Directory.isMember_addUserToGroup_of_isMember username gid hmember) hnot
  gained := by
    intro group hmember hnot
    rcases Directory.isMember_of_addUserToGroup hmember with hbefore | ⟨-, g, hg, hid, rfl⟩
    · exact absurd hbefore hnot
    · exact Directory.name_of_id hlisted hg hid ▸ hname

end Moves

/-! ## The two loops -/

section Loops

variable {username : String} {desired : List String} {names : List (ℤ × String)}
  {s : IdentityState settings}

/-- A round takes the account out of a group that is not desired. -/
theorem within_removeUndesired {g : ℤ × String} (hg : g ∈ names)
    (hnames : s.directory.groupNames = names) :
    Alone (AlongId (Within username desired)) (fun result s' => result = .ok () →
      isTakName g.2 → g.2 ∉ desired → ¬ s'.directory.IsMember username g.2)
      (removeUndesired username desired g) s := by
  unfold removeUndesired
  split_ifs with hundesired
  · simp only [Bool.and_eq_true, Bool.not_eq_true', List.contains_eq_mem,
      decide_eq_false_iff_not] at hundesired
    obtain ⟨htak, hname⟩ := hundesired
    refine alone_graphql (fun t => t.directory.groupNames = names) (fun _ _ h => h) ?_ ?_ ?_ ?_
      hnames
    · intro t ht
      exact ⟨within_removeUserFromGroup (ht ▸ hg) htak hname,
        (Directory.groupNames_removeUserFromGroup username g.1 t.directory).trans ht⟩
    · intro t value ht _ _ _ _
      exact Directory.not_isMember_removeUserFromGroup (ht ▸ hg)
    · intro t ht _
      exact alone_pure fun _ _ _ => Directory.not_isMember_removeUserFromGroup (ht ▸ hg)
    · intro t e _ h
      cases h
  · refine alone_pure fun _ htak hname => ?_
    exact absurd (by simpa using hname) (by simpa [htak] using hundesired)

/-- A round puts the account into a desired group that exists. -/
theorem within_addDesired {u : Directory.UserView} {name : String} (hname : name ∈ desired)
    (hnames : s.directory.groupNames = names)
    (hthere : u.groups.any (·.2 == name) → s.directory.IsMember username name) :
    Alone (AlongId (Within username desired)) (fun result s' => result = .ok () →
      name ∈ names.map Prod.snd → s'.directory.IsMember username name)
      (addDesired username u names name) s := by
  unfold addDesired
  split_ifs with hgroup
  · exact alone_pure fun _ _ => hthere hgroup
  · cases hfind : names.find? (·.2 == name) with
    | none =>
        refine alone_pure fun _ hlisted => ?_
        rw [← find_isSome_iff, hfind] at hlisted
        cases hlisted
    | some found =>
        have hsnd : found.2 = name := by simpa using List.find?_some hfind
        have hlisted : (found.1, name) ∈ names := hsnd ▸ List.mem_of_find?_eq_some hfind
        have hmoves : Alone (AlongId (Within username desired))
            (fun _ t => t.directory.groupNames = names)
            (mutation (Directory.addUserToGroup username found.1)) s := by
          refine alone_mutation _ (fun _ _ h => h) (fun t ht => ?_) hnames
          exact ⟨within_addUserToGroup (ht ▸ hlisted) hname,
            (Directory.groupNames_addUserToGroup username found.1 t.directory).trans ht⟩
        exact (hmoves.and (alone_addMember (hnames ▸ hlisted))).mono (fun _ _ h => h)
          fun _ _ h hok _ => h.2 hok

end Loops

/-! ## What the groups become -/

/-- The groups that `set_user_groups` is to leave the account with. -/
def Wanted (username : String) (groupNames : List String) (dir : Directory) (group : String) :
    Prop :=
  if isTakName group then
    (∃ name ∈ groupNames, takName name = group) ∧ group ∈ dir.groupNames.map Prod.snd
  else dir.IsMember username group

/-- `desired_tak_names`, in the order in which Python goes through them. -/
abbrev desiredNames (settings : Settings) (groupNames : List String) : List String :=
  settings.setOrder (groupNames.map takName)

section Assigning

variable {username : String} {groupNames : List String} {dir dir' : Directory}

theorem isTakName_of_desired {name : String} (hname : name ∈ desiredNames settings groupNames) :
    isTakName name := by
  obtain ⟨g, -, rfl⟩ := mem_setOrder_iff.mp hname
  exact isTakName_takName g

/-- The other groups of the account stay as they are. -/
theorem Within.plain (hwithin : Within username (desiredNames settings groupNames) dir dir')
    {group : String} (hplain : ¬ isTakName group) :
    dir'.IsMember username group ↔ dir.IsMember username group := by
  constructor
  · intro hmember
    by_contra hnot
    exact hplain (isTakName_of_desired (hwithin.gained group hmember hnot))
  · intro hmember
    by_contra hnot
    exact hplain (hwithin.lost group hmember hnot).1

/-- Moves of this kind do not change what is wanted. -/
theorem Within.wanted_iff (hwithin : Within username (desiredNames settings groupNames) dir dir')
    (group : String) :
    Wanted username groupNames dir' group ↔ Wanted username groupNames dir group := by
  unfold Wanted
  split_ifs with htak
  · rw [hwithin.names]
  · exact hwithin.plain htak

/-- Once both loops are through, the groups are those wanted. -/
theorem Within.isMember_iff (hwithin : Within username (desiredNames settings groupNames) dir dir')
    (hremoved : ∀ group, dir.IsMember username group → isTakName group →
      group ∉ desiredNames settings groupNames → ¬ dir'.IsMember username group)
    (hadded : ∀ group ∈ desiredNames settings groupNames,
      group ∈ dir.groupNames.map Prod.snd → dir'.IsMember username group) (group : String) :
    dir'.IsMember username group ↔ Wanted username groupNames dir group := by
  unfold Wanted
  split_ifs with htak
  · have hdesired : group ∈ desiredNames settings groupNames ↔
        ∃ name ∈ groupNames, takName name = group := mem_setOrder_iff
    rw [← hdesired]
    constructor
    · intro hmember
      have hexists : group ∈ dir.groupNames.map Prod.snd :=
        hwithin.names ▸ Directory.mem_names_of_isMember hmember
      refine ⟨?_, hexists⟩
      by_contra hname
      have hbefore : dir.IsMember username group := by
        by_contra hnot
        exact hname (hwithin.gained group hmember hnot)
      exact hremoved group hbefore htak hname hmember
    · rintro ⟨hname, hexists⟩
      exact hadded group hname hexists
  · exact hwithin.plain htak

/-- The two loops, from the groups they read on. -/
theorem within_loops {u : Directory.UserView} {s : IdentityState settings}
    (huser : s.directory.user username = some u) :
    Alone (AlongId (Within username (desiredNames settings groupNames)))
      (fun result s' => result = .ok () → ∀ group, s'.directory.IsMember username group ↔
        Wanted username groupNames s.directory group)
      (forList (removeUndesired username (desiredNames settings groupNames)) u.groups >>=
        fun _ => forList (addDesired username u s.directory.groupNames)
          (desiredNames settings groupNames)) s := by
  have hremove : Alone (AlongId (Within username (desiredNames settings groupNames)))
      (fun result t => AlongId (Within username (desiredNames settings groupNames)) s t ∧
        (result = .ok () → ∀ g ∈ u.groups, isTakName g.2 →
          g.2 ∉ desiredNames settings groupNames → ¬ t.directory.IsMember username g.2))
      (forList (removeUndesired username (desiredNames settings groupNames)) u.groups) s := by
    refine alone_forList_each (fun g hg t ht => ?_) ?_ (refl_of (AlongId _) s)
    · have hlisted := Directory.mem_groupNames_of_mem_groups huser hg
      exact (within_removeUndesired hlisted ht.names).since.mono (fun _ _ h => h)
        fun _ _ h => ⟨h.2, h.1⟩
    · intro g t t' hmoved hout htak hname hmember
      by_cases hbefore : t.directory.IsMember username g.2
      · exact hout htak hname hbefore
      · exact hname (hmoved.gained g.2 hmember hbefore)
  refine alone_bind (hremove.mono (fun _ _ h => h) ?_)
  rintro (e | _) s₁ ⟨hmoved, hremoved⟩
  · intro h
    cases h
  have hadd : Alone (AlongId (Within username (desiredNames settings groupNames)))
      (fun result t => AlongId (Within username (desiredNames settings groupNames)) s₁ t ∧
        (result = .ok () → ∀ name ∈ desiredNames settings groupNames,
          name ∈ desiredNames settings groupNames ∧
            (name ∈ s.directory.groupNames.map Prod.snd → t.directory.IsMember username name)))
      (forList (addDesired username u s.directory.groupNames)
        (desiredNames settings groupNames)) s₁ := by
    apply alone_forList_each ?_ ?_ hmoved
    · intro name hname t ht
      have hthere : u.groups.any (·.2 == name) → t.directory.IsMember username name := by
        intro hgroup
        by_contra hnot
        exact (ht.lost name ((Directory.any_groups_iff huser name).mp hgroup) hnot).2 hname
      exact (within_addDesired hname ht.names hthere).since.mono (fun _ _ h => h)
        fun _ _ h => ⟨h.2, fun hok => ⟨hname, h.1 hok⟩⟩
    · rintro name t t' hmoved ⟨hname, hin⟩
      refine ⟨hname, fun hexists => ?_⟩
      by_contra hnot
      exact (hmoved.lost name (hin hexists) hnot).2 hname
  refine hadd.mono (fun _ _ h => h) fun result s₂ h hok => ?_
  have hall : Within username (desiredNames settings groupNames) s.directory s₂.directory :=
    trans_of (Within _ _) hmoved h.1
  apply hall.isMember_iff
  · intro group hmember htak hname hin
    obtain ⟨g, hg, rfl⟩ : ∃ g ∈ u.groups, g.2 = group := by
      have hany := (Directory.any_groups_iff huser group).mpr hmember
      simpa using hany
    have hout := hremoved rfl g hg htak hname
    exact hname (h.1.gained g.2 hin hout)
  · intro group hname hexists
    exact (h.2 hok group hname).2 hexists

theorem within_assignGroups (s : IdentityState settings) :
    Alone (AlongId (Within username (desiredNames settings groupNames)))
      (fun result s' => result = .ok () → ∀ group, s'.directory.IsMember username group ↔
        Wanted username groupNames s.directory group)
      (assignGroups username groupNames) s := by
  rw [assignGroups_eq]
  refine alone_bind (alone_query (fun queue => ?_) fun _ _ h => by cases h)
  refine alone_bind (alone_query (fun queue' => ?_) fun _ _ h => by cases h)
  dsimp only
  split
  · exact alone_raise fun h => by cases h
  · next u huser =>
      have hread : (withQueue queue' (withQueue queue s)).directory.user username = some u := huser
      exact within_loops hread

end Assigning

/-! ## Without faults -/

theorem answering_nil : Answering fun queue => queue = [] where
  lossy queue h := by
    rw [h]
    exact .nil
  tail queue h := by
    rw [h]
    rfl

section Faultless

variable {username : String} {names : List (ℤ × String)} {s : IdentityState settings}

/-- An account that is not in a group is put into it. -/
theorem ready_addFresh {u : Directory.UserView} {name : String}
    (hfresh : ¬ u.groups.any (·.2 == name) → ¬ s.directory.IsMember username name)
    (hready : Ready (· = []) username names s) :
    Alone (AlongId (Regroups username))
      (fun result s' => result = .ok () ∧ Ready (· = []) username names s' ∧
        ∀ other, other ≠ name → s'.directory.IsMember username other →
          s.directory.IsMember username other)
      (addDesired username u names name) s := by
  unfold addDesired
  split_ifs with hthere
  · exact alone_pure ⟨rfl, hready, fun _ _ h => h⟩
  · cases hfind : names.find? (·.2 == name) with
    | none => exact alone_pure ⟨rfl, hready, fun _ _ h => h⟩
    | some found =>
        have hsnd : found.2 = name := by simpa using List.find?_some hfind
        have hlisted : (found.1, name) ∈ s.directory.groupNames := by
          rw [hready.names, ← hsnd]
          exact List.mem_of_find?_eq_some hfind
        have hreply : (Directory.addUserToGroup username found.1 s.directory).1 = .data () := by
          obtain ⟨g, hgroup, hg, hname⟩ := Directory.group_of_mem_groupNames hlisted
          have hnot : username ∉ g.members := fun hmember =>
            hfresh hthere ⟨g, hg, hname, hmember⟩
          simp only [Directory.addUserToGroup, hgroup, hready.account, hnot, if_true, if_false]
        refine alone_attempts_answered 2 (by rw [hready.queue]; rfl)
          (regroups_addUserToGroup username found.1 s.directory) ?_
        rw [hreply]
        refine alone_pure ⟨rfl, ⟨?_, ?_, ?_⟩, ?_⟩
        · exact (Directory.groupNames_addUserToGroup username found.1 _).trans hready.names
        · exact (Directory.accounts_addUserToGroup username found.1 _).symm ▸ hready.account
        · change s.lldap.tail = []
          rw [hready.queue]
          rfl
        · intro other hne hmember
          rcases Directory.isMember_of_addUserToGroup hmember with h | ⟨-, g, hg, hid, rfl⟩
          · exact h
          · exact absurd (Directory.name_of_id hlisted hg hid) hne

/-- A round that removes gives the account no group. -/
theorem removeUndesired_shrinks (desired : List String) (g : ℤ × String) {P : String → Prop}
    (hs : ∀ group, s.directory.IsMember username group → P group) :
    Alone (AlongId (Regroups username))
      (fun _ s' => ∀ group, s'.directory.IsMember username group → P group)
      (removeUndesired username desired g) s := by
  unfold removeUndesired
  split_ifs
  · refine alone_mutation _ (fun _ _ h => h) (fun t ht => ?_) hs
    exact ⟨regroups_removeUserFromGroup username g.1 t.directory, fun group hmember =>
      ht group (Directory.isMember_of_removeUserFromGroup hmember)⟩
  · exact alone_pure hs

theorem ready_addFresh_forList {u : Directory.UserView} {wanted : List String}
    (hnodup : wanted.Nodup)
    (hfresh : ∀ name ∈ wanted, ¬ u.groups.any (·.2 == name) →
      ¬ s.directory.IsMember username name)
    (hready : Ready (· = []) username names s) :
    Alone (AlongId (Regroups username)) (fun result _ => result = .ok ())
      (forList (addDesired username u names) wanted) s := by
  induction wanted generalizing s with
  | nil => exact alone_pure rfl
  | cons name wanted ih =>
      obtain ⟨hnot, hrest⟩ := List.nodup_cons.mp hnodup
      refine alone_bind ((ready_addFresh (hfresh name List.mem_cons_self) hready).mono
        (fun _ _ h => h) ?_)
      rintro result s₁ ⟨rfl, hready₁, hkept⟩
      refine ih hrest (fun other hother hgroup hmember => ?_) hready₁
      apply hfresh other (List.mem_cons_of_mem _ hother) hgroup
      apply hkept other _ hmember
      rintro rfl
      exact hnot hother

/-- While LLDAP answers, the groups of an account are set. -/
theorem ready_assignGroups {groupNames : List String} (huser : username ∈ s.directory.accounts)
    (hqueue : s.lldap = []) :
    Alone (AlongId (Regroups username)) (fun result _ => result = .ok ())
      (assignGroups username groupNames) s := by
  obtain ⟨account, haccount⟩ := Option.isSome_iff_exists.mp (AList.lookup_isSome.mpr huser)
  have hview : s.directory.user username = some (s.directory.view username account) := by
    rw [Directory.user, haccount]
    rfl
  rw [assignGroups_eq]
  refine alone_bind (alone_query_answered answering_nil hqueue fun queue hqueue => ?_)
  refine alone_bind (alone_query_answered answering_nil hqueue fun queue' hqueue => ?_)
  have hread : (withQueue queue s).directory.user username =
      some (s.directory.view username account) := hview
  rw [hread]
  have hready : Ready (· = []) username s.directory.groupNames
      (withQueue queue' (withQueue queue s)) := ⟨rfl, huser, hqueue⟩
  have hremove := alone_forList_ok (fun g hg t ht => ready_removeUndesired answering_nil
    (desiredNames settings groupNames) (Directory.mem_groupNames_of_mem_groups hview hg) ht) hready
  have hshrink : Alone (AlongId (Regroups username)) (fun _ t => ∀ group,
      t.directory.IsMember username group → s.directory.IsMember username group)
      (forList (removeUndesired username (desiredNames settings groupNames))
        (s.directory.view username account).groups) (withQueue queue' (withQueue queue s)) :=
    alone_forList (fun g _ t ht => removeUndesired_shrinks _ g ht) fun _ h => h
  refine alone_bind ((hremove.and hshrink).mono (fun _ _ h => h) ?_)
  rintro result s₁ ⟨⟨rfl, hready₁⟩, hsubset⟩
  apply ready_addFresh_forList _ _ hready₁
  · exact (settings.setOrder_perm _).nodup_iff.mpr (List.nodup_dedup _)
  · intro name _ hgroup hmember
    exact hgroup ((Directory.any_groups_iff hview name).mpr (hsubset name hmember))

end Faultless

/-! ## The id of the account -/

/-- The id stands for the username: the client knows it, or finds it when it looks. -/
def Resolves (client : Client) (userId : ℤ) (username : String) (s : IdentityState settings) :
    Prop :=
  ((resolveUsername client userId).run (withQueue [] s)).1 = .ok (some username)

section Resolving

variable {client : Client} {userId : ℤ} {username : String} {s : IdentityState settings}

theorem resolves_of_known (hknown : Known client userId username s) :
    Resolves client userId username s := by
  have hahead : Known client userId username (withQueue [] s) := hknown
  rw [Resolves, run_resolveUsername_of_known hahead]

/-- The loop of `_refresh_user_id_map`. -/
abbrev registerIds (client : Client) (users : List Directory.UserView) : IdProg settings Unit :=
  forList (fun u : Directory.UserView => atomic (registerId client u.id)) users

/-- Noting the ids of users does not depend on what is ahead. -/
theorem run_registerIds (users : List Directory.UserView) (queue : List Verdict)
    (s : IdentityState settings) :
    (registerIds client users).run (withQueue queue s) =
      (((registerIds client users).run s).1,
        withQueue queue ((registerIds client users).run s).2) := by
  induction users generalizing s with
  | nil => rfl
  | cons u users ih =>
      have hone : registerId client u.id (withQueue queue s) =
          ((registerId client u.id s).1, withQueue queue (registerId client u.id s).2) := by
        simp only [registerId, withQueue, noteId]
        split
        · split_ifs <;> rfl
        · rfl
      have hcons : (registerIds client (u :: users) : IdProg settings Unit).run =
          registerId client u.id >>= fun _ => (registerIds client users).run := run_bind _ _
      rw [hcons, Call.bind_apply, Call.bind_apply, hone]
      rcases registerId client u.id s with ⟨e | _, s₁⟩
      · rfl
      · exact ih s₁

/-- Whatever fails, the id still stands for the username, which is all a look leads to. -/
theorem alone_resolve (hresolves : Resolves client userId username s) :
    Alone Quiet (fun result s' => Quiet s s' ∧ Resolves client userId username s' ∧
      ∀ found, result = .ok found → found = some username ∧ Known client userId username s')
      (resolveUsername client userId) s := by
  have hquiet : Respects Quiet (fun _ => True)
      (resolveUsername client userId : IdProg settings _) :=
    (respects_resolveUsername client userId).mono (fun _ _ h => h) fun _ _ => trivial
  have hends : Alone (fun _ _ => True) (fun result s' => Resolves client userId username s' ∧
      ∀ found, result = .ok found → found = some username ∧ Known client userId username s')
      (resolveUsername client userId) s := by
    refine alone_bind (alone_lookup ?_)
    dsimp only
    cases hfound : (s.ids client).lookup userId with
    | some other =>
        have hsame : other = username := by
          have hother : Resolves client userId other s := resolves_of_known hfound
          rw [Resolves] at hother hresolves
          exact Option.some.inj (Except.ok.inj (hother.symm.trans hresolves))
        refine alone_pure ⟨hresolves, ?_⟩
        rintro found ⟨⟩
        rw [hsame] at hfound ⊢
        exact ⟨rfl, hfound⟩
    | none =>
        have hread : (atomic (Call.read fun s => (s.ids client).lookup userId) :
            IdProg settings (Option String)).run (withQueue [] s) =
              (.ok none, withQueue [] s) := by
          rw [run_atomic, Call.read_apply]
          exact congrArg (fun found => (Except.ok found, withQueue [] s)) hfound
        have hrefresh : (refreshUserIdMap client).run (withQueue [] s) =
            (((registerIds client s.directory.users).run s).1,
              withQueue [] ((registerIds client s.directory.users).run s).2) := by
          rw [refreshUserIdMap, run_bind, Call.bind_of_ok (run_query _ s)]
          exact run_registerIds s.directory.users [] s
        have hlooked := hresolves
        rw [Resolves, resolveUsername, run_bind, Call.bind_of_ok hread] at hlooked
        dsimp only at hlooked
        rw [run_bind, Call.bind_apply, hrefresh] at hlooked
        rcases hregister : (registerIds client s.directory.users).run s with ⟨e | _, s₁⟩
        · rw [hregister] at hlooked
          cases hlooked
        · rw [hregister] at hlooked
          have hknown : ∀ queue, Known client userId username (withQueue queue s₁) :=
            fun queue => Except.ok.inj hlooked
          refine alone_bind (alone_bind (alone_query (fun queue => ?_) fun queue e => ?_))
          · apply alone_of_run
            rw [run_registerIds, hregister]
            refine alone_lookup ⟨resolves_of_known (hknown queue), ?_⟩
            rintro found ⟨⟩
            exact ⟨hknown queue, hknown queue⟩
          · exact ⟨hresolves, fun found h => by cases h⟩
  exact ((hquiet.alone (fun _ _ => trans_of Quiet) (refl_of Quiet s)).and hends).mono
    (fun _ _ h => h) fun _ _ h => ⟨h.1.2, h.2⟩

/-- While LLDAP answers, the client finds the username and knows it from then on. -/
theorem run_resolveUsername (hresolves : Resolves client userId username s) :
    ∃ s', (resolveUsername client userId).run (withQueue [] s) = (.ok (some username), s') ∧
      Quiet s s' ∧ s'.lldap = [] ∧ Known client userId username s' := by
  have hresolved : Resolves client userId username (withQueue [] s) := hresolves
  have hends := (alone_drops (alone_resolve hresolved) ((respects_resolveUsername client
    userId).mono (fun _ _ h => h) fun _ h => h)).ends
  obtain ⟨⟨hquiet, -, hfound⟩, n, hdrops⟩ := hends
  rcases hrun : (resolveUsername client userId).run (withQueue [] s) with ⟨result, s'⟩
  rw [hrun] at hquiet hdrops hfound
  have hok : result = .ok (some username) := by
    rw [Resolves, hrun] at hresolves
    exact hresolves
  refine ⟨s', by rw [hok], ?_, hdrops.trans List.drop_nil, (hfound _ hok).2⟩
  exact ⟨hquiet.directory, hquiet.tokens, hquiet.now, hquiet.minted⟩

theorem run_requireUsername (hresolves : Resolves client userId username s) :
    ∃ s', (requireUsername client userId).run (withQueue [] s) = (.ok username, s') ∧
      Quiet s s' ∧ s'.lldap = [] ∧ Known client userId username s' := by
  obtain ⟨s', hrun, hrest⟩ := run_resolveUsername hresolves
  refine ⟨s', ?_, hrest⟩
  rw [requireUsername, run_bind, Call.bind_of_ok hrun]
  rfl

end Resolving

/-! ## One attempt after another -/

section Attempts

variable {client : Client} {userId : ℤ} {username : String} {groupNames : List String}
  {s : IdentityState settings}

/-- Of the memberships, only those of the account have changed in which it has and is to have
are not the same, and none in other groups. -/
structure Framed (username : String) (groupNames : List String) (dir dir' : Directory) : Prop where
  others : ∀ v, v ≠ username → ∀ group, dir'.IsMember v group ↔ dir.IsMember v group
  plain : ∀ group, ¬ isTakName group →
    (dir'.IsMember username group ↔ dir.IsMember username group)
  between : ∀ group, ¬ (dir'.IsMember username group ↔ dir.IsMember username group) →
    ¬ (dir.IsMember username group ↔ Wanted username groupNames dir group)

theorem Within.framed {dir dir' : Directory}
    (hwithin : Within username (desiredNames settings groupNames) dir dir') :
    Framed username groupNames dir dir' where
  others := hwithin.others
  plain := fun _ hplain => hwithin.plain hplain
  between := by
    intro group hmoved hsame
    by_cases hmember : dir.IsMember username group
    · have hnot : ¬ dir'.IsMember username group := fun h =>
        hmoved (iff_of_true h hmember)
      obtain ⟨htak, hname⟩ := hwithin.lost group hmember hnot
      have hwanted := hsame.mp hmember
      rw [Wanted, if_pos htak] at hwanted
      exact hname (mem_setOrder_iff.mpr hwanted.1)
    · have hgained : dir'.IsMember username group := by
        by_contra hnot
        exact hmoved (iff_of_false hnot hmember)
      have hname := hwithin.gained group hgained hmember
      apply hmember
      rw [hsame, Wanted, if_pos (isTakName_of_desired hname), ← hwithin.names]
      exact ⟨mem_setOrder_iff.mp hname, Directory.mem_names_of_isMember hgained⟩

theorem known_mutation {known : String} (hknown : Known client userId known s)
    (request : Directory → Directory.Reply Unit × Directory) :
    Alone (fun _ _ => True) (fun _ s' => Known client userId known s') (mutation request) s :=
  alone_mutation _ (fun _ _ h => h) (fun _ h => ⟨trivial, h⟩) hknown

theorem known_assignGroups {known : String} (hknown : Known client userId known s) :
    Alone (fun _ _ => True) (fun _ s' => Known client userId known s')
      (assignGroups username groupNames) s := by
  have hremove : ∀ (g : ℤ × String) (t : IdentityState settings), Known client userId known t →
      Alone (fun _ _ => True) (fun _ s' => Known client userId known s')
        (removeUndesired username (desiredNames settings groupNames) g) t := by
    intro g t ht
    unfold removeUndesired
    split_ifs
    · exact known_mutation ht _
    · exact alone_pure ht
  have hadd : ∀ u (names : List (ℤ × String)) name (t : IdentityState settings),
      Known client userId known t →
      Alone (fun _ _ => True) (fun _ s' => Known client userId known s')
        (addDesired username u names name) t := by
    intro u names name t ht
    unfold addDesired
    split_ifs
    · exact alone_pure ht
    · cases names.find? (·.2 == name) with
      | none => exact alone_pure ht
      | some found => exact known_mutation ht _
  rw [assignGroups_eq]
  refine alone_bind (alone_query (fun queue => ?_) fun _ _ => hknown)
  refine alone_bind (alone_query (fun queue' => ?_) fun _ _ => hknown)
  dsimp only
  split
  · exact alone_raise hknown
  · next u huser =>
      have hremoved : Alone (fun _ _ => True) (fun _ s' => Known client userId known s')
          (forList (removeUndesired username (desiredNames settings groupNames)) u.groups)
          (withQueue queue' (withQueue queue s)) :=
        alone_forList (fun g _ t ht => hremove g t ht) hknown
      refine alone_bind (hremoved.mono (fun _ _ h => h) ?_)
      rintro (e | _) s₁ hknown₁
      · exact hknown₁
      · exact alone_forList (fun name _ t ht => hadd u _ name t ht) hknown₁

/-- An attempt moves the groups of the account the id stands for, as far as it comes. -/
theorem within_setUserGroups (hresolves : Resolves client userId username s) :
    Alone (AlongId (Within username (desiredNames settings groupNames)))
      (fun result s' => Resolves client userId username s' ∧ (result = .ok () →
        ∀ group, s'.directory.IsMember username group ↔
          Wanted username groupNames s.directory group))
      (setUserGroups client userId groupNames) s := by
  have hresolve : Alone (AlongId (Within username (desiredNames settings groupNames))) _
      (resolveUsername client userId) s :=
    (alone_resolve hresolves).mono (fun t t' h => Tolerant.quiet t t' h) fun _ _ h => h
  refine alone_bind (alone_bind (hresolve.mono (fun _ _ h => h) ?_))
  rintro (e | found) s₁ ⟨hquiet, hresolves₁, hfound⟩
  · refine ⟨hresolves₁, fun h => ?_⟩
    cases h
  · obtain ⟨rfl, hknown⟩ := hfound found rfl
    refine alone_pure (((within_assignGroups s₁).and (known_assignGroups hknown)).mono
      (fun _ _ h => h) fun result s₂ h => ⟨resolves_of_known h.2, ?_⟩)
    rw [← hquiet.directory]
    exact h.1

theorem within_withQueue (groupNames : List String) (queue : List Verdict)
    (hresolves : Resolves client userId username s) :
    Alone (AlongId (Within username (desiredNames settings groupNames)))
      (fun result s' => Resolves client userId username s' ∧ (result = .ok () →
        ∀ group, s'.directory.IsMember username group ↔
          Wanted username groupNames s.directory group))
      (setUserGroups client userId groupNames) (withQueue queue s) := by
  have hahead : Resolves client userId username (withQueue queue s) := hresolves
  exact within_setUserGroups hahead

/-- While LLDAP answers, an attempt returns. -/
theorem run_setUserGroups (hresolves : Resolves client userId username s)
    (huser : username ∈ s.directory.accounts) :
    ((setUserGroups client userId groupNames).run (withQueue [] s)).1 = .ok () := by
  obtain ⟨s₁, hrequire, hquiet, hqueue, -⟩ := run_requireUsername hresolves
  rw [setUserGroups, run_bind, Call.bind_of_ok hrequire]
  apply (ready_assignGroups _ _).ends
  · rw [hquiet.directory]
    exact huser
  · exact hqueue

/-- A call with the list, whatever fails. -/
def Attempt (client : Client) (userId : ℤ) (groupNames : List String)
    (s s' : IdentityState settings) : Prop :=
  ∃ queue, s' = ((setUserGroups client userId groupNames).run (withQueue queue s)).2

/-- Attempts leave the id and the account as they are. -/
theorem within_attempts {s₁ : IdentityState settings}
    (hresolves : Resolves client userId username s)
    (hattempts : Relation.ReflTransGen (Attempt client userId groupNames) s s₁) :
    Resolves client userId username s₁ ∧
      Within username (desiredNames settings groupNames) s.directory s₁.directory := by
  induction hattempts with
  | refl => exact ⟨hresolves, refl_of (Within _ _) _⟩
  | tail _ hattempt ih =>
      obtain ⟨hresolves₁, hwithin⟩ := ih
      obtain ⟨queue, rfl⟩ := hattempt
      have hlast := within_withQueue groupNames queue hresolves₁
      exact ⟨hlast.ends.1, trans_of (Within _ _) hwithin hlast.whole⟩

/-- What an attempt that returns leaves, however many there were before. -/
theorem wanted_of_attempts {s₁ s₂ : IdentityState settings} {queue : List Verdict}
    (hresolves : Resolves client userId username s)
    (hattempts : Relation.ReflTransGen (Attempt client userId groupNames) s s₁)
    (hrun : (setUserGroups client userId groupNames).run (withQueue queue s₁) = (.ok (), s₂)) :
    Within username (desiredNames settings groupNames) s.directory s₂.directory ∧
      ∀ group, s₂.directory.IsMember username group ↔
        Wanted username groupNames s.directory group := by
  obtain ⟨hresolves₁, hwithin⟩ := within_attempts hresolves hattempts
  have hlast := within_withQueue groupNames queue hresolves₁
  have hends := hlast.ends
  have hmoved := hlast.whole
  rw [hrun] at hends hmoved
  refine ⟨trans_of (Within _ _) hwithin hmoved, fun group => ?_⟩
  exact (hends.2 rfl group).trans (hwithin.wanted_iff group)

end Attempts

/-- However often the call with a list fails and wherever, it changes nothing but the memberships
it is to change.  The first call that returns leaves the memberships that a single call would
have left: the groups asked for that exist, and the groups outside `tak_` as they were. -/
theorem setUserGroups_restartable {client : Client} {userId : ℤ} {username : String}
    {groupNames : List String} {s : IdentityState settings}
    (hresolves : Resolves client userId username s) (huser : username ∈ s.directory.accounts) :
    ∃ whole, (setUserGroups client userId groupNames).run (withQueue [] s) = (.ok (), whole) ∧
      (∀ group, whole.directory.IsMember username group ↔
        Wanted username groupNames s.directory group) ∧
      ∀ s₁, Relation.ReflTransGen (Attempt client userId groupNames) s s₁ →
        ((setUserGroups client userId groupNames).run (withQueue [] s₁)).1 = .ok () ∧
        ∀ queue,
          (∀ t ∈ (setUserGroups client userId groupNames).visited (withQueue queue s₁),
            Framed username groupNames s.directory t.directory) ∧
          ∀ s₂, (setUserGroups client userId groupNames).run (withQueue queue s₁) =
              (.ok (), s₂) →
            ∀ v group, s₂.directory.IsMember v group ↔ whole.directory.IsMember v group := by
  have hok : ((setUserGroups client userId groupNames).run (withQueue [] s)).1 = .ok () :=
    run_setUserGroups hresolves huser
  rcases hwhole : (setUserGroups client userId groupNames).run (withQueue [] s) with
    ⟨result, whole⟩
  rw [hwhole] at hok
  obtain rfl : result = .ok () := hok
  obtain ⟨hwithin, hgroups⟩ := wanted_of_attempts hresolves .refl hwhole
  refine ⟨whole, rfl, hgroups, fun s₁ hattempts => ?_⟩
  obtain ⟨hresolves₁, hwithin₁⟩ := within_attempts hresolves hattempts
  refine ⟨?_, fun queue => ⟨fun t ht => ?_, fun s₂ hrun v group => ?_⟩⟩
  · apply run_setUserGroups hresolves₁
    rw [hwithin₁.accounts]
    exact huser
  · have hreached := (within_withQueue groupNames queue hresolves₁).reaches t ht
    have hall : Within username (desiredNames settings groupNames) s.directory t.directory :=
      trans_of (Within _ _) hwithin₁ hreached
    exact hall.framed
  · obtain ⟨hwithin₂, hgroups₂⟩ := wanted_of_attempts hresolves hattempts hrun
    by_cases hsame : v = username
    · rw [hsame]
      exact (hgroups₂ group).trans (hgroups group).symm
    · exact (hwithin₂.others v hsame group).trans (hwithin.others v hsame group).symm

/-! ## A removal that is lost -/

/-- "kim" is in "tak_ops" and in "staff"; there is a group "tak_eng" as well. -/
def staffDirectory : Directory :=
  let grouped := ["tak_ops", "staff", "tak_eng"].foldl
    (fun dir name => (Directory.createGroup name dir).2) Directory.empty
  let dir := (Directory.createUser "kim" "Kim" grouped).2
  (Directory.addUserToGroup "kim" 2 (Directory.addUserToGroup "kim" 1 dir).2).2

def staffState (queue : List Verdict) : IdentityState Settings.small :=
  withQueue queue (.start staffDirectory 0)

/-- The call that is to leave "kim" in "tak_eng", and loses every answer after the removal from
"tak_ops", leads there when it is made again. -/
theorem setUserGroups_restartable_kim :
    ∃ again,
      (setUserGroups .users (Settings.small.numericId "kim") ["eng", "tak_eng", "ghost"]).run
        (withQueue [] ((setUserGroups .users (Settings.small.numericId "kim")
          ["eng", "tak_eng", "ghost"]).run (staffState [.runs, .runs, .runs, .runs, .fails 0,
            .fails 1, .fails 0])).2) = (.ok (), again) ∧
      again.directory.IsMember "kim" "tak_eng" ∧ again.directory.IsMember "kim" "staff" ∧
      ¬ again.directory.IsMember "kim" "tak_ops" := by
  have hresolves : Resolves .users (Settings.small.numericId "kim") "kim" (staffState []) := by
    unfold Resolves
    decide +kernel
  obtain ⟨whole, -, hgroups, hattempts⟩ := setUserGroups_restartable hresolves (by decide +kernel)
  obtain ⟨hok, hlast⟩ := hattempts _ (.single ⟨_, rfl⟩)
  refine ⟨_, Prod.ext hok rfl, ?_⟩
  have hsame := fun group => ((hlast []).2 _ (Prod.ext hok rfl) "kim" group).trans (hgroups group)
  refine ⟨(hsame _).mpr ?_, (hsame _).mpr ?_, (hsame _).not.mpr ?_⟩
  · rw [Wanted, if_pos (by decide)]
    exact ⟨⟨"eng", by decide, by decide⟩, by decide⟩
  · rw [Wanted, if_neg (by decide)]
    decide
  · rw [Wanted, if_pos (by decide)]
    decide

end FastTAK.Identity
