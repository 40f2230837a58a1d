import FastTAK.Identity.UserTypes

/-!
# Who gets into a group

Only an addition to a group makes somebody a member of it.  This file says for which
group names the operations of the client leave a given group to those who may be in it.
-/

namespace FastTAK.Identity

open FastTAK.Effect FastTAK.Effect.Prog FastTAK.Api

variable {settings : Settings} {α : Type}

/-! ## Who is in a group -/

/-- Nobody else is in the group. -/
def Directory.Within (group : String) (members : Set String) (dir : Directory) : Prop :=
  ∀ v, dir.IsMember v group → v ∈ members

/-- Nobody else gets into the group. -/
def StaysWithin (group : String) (members : Set String) (dir dir' : Directory) : Prop :=
  dir.Within group members → dir'.Within group members

instance (group : String) (members : Set String) :
    IsPreorder Directory (StaysWithin group members) where
  refl _ h := h
  trans _ _ _ hfirst hsecond h := hsecond (hfirst h)

section Members

variable {group : String} {members : Set String}

theorem staysWithin_of_shrinks {dir dir' : Directory}
    (hshrinks : ∀ v, dir'.IsMember v group → dir.IsMember v group) :
    StaysWithin group members dir dir' :=
  fun hwithin v h => hwithin v (hshrinks v h)

theorem staysWithin_createUser (username name : String) (dir : Directory) :
    StaysWithin group members dir (Directory.createUser username name dir).2 :=
  staysWithin_of_shrinks fun v =>
    (Directory.isMember_congr (Directory.groups_createUser username name dir) v group).mp

theorem staysWithin_updateUser (username : String) (name : Option String)
    (inserted : List (String × List String)) (dir : Directory) :
    StaysWithin group members dir (Directory.updateUser username name inserted dir).2 :=
  staysWithin_of_shrinks fun v => (Directory.isMember_congr
    (Directory.groups_updateUser username name inserted dir) v group).mp

theorem staysWithin_createGroup (name : String) (dir : Directory) :
    StaysWithin group members dir (Directory.createGroup name dir).2 :=
  staysWithin_of_shrinks fun v => (Directory.isMember_createGroup_iff name dir v group).mp

theorem staysWithin_deleteGroup (gid : ℤ) (dir : Directory) :
    StaysWithin group members dir (Directory.deleteGroup gid dir).2 :=
  staysWithin_of_shrinks fun _ => Directory.isMember_of_deleteGroup

theorem staysWithin_removeUserFromGroup (username : String) (gid : ℤ) (dir : Directory) :
    StaysWithin group members dir (Directory.removeUserFromGroup username gid dir).2 :=
  staysWithin_of_shrinks fun _ => Directory.isMember_of_removeUserFromGroup

/-- Somebody who may be in the group may be added to any. -/
theorem staysWithin_addUserToGroup_of_mem {username : String} (hmember : username ∈ members)
    (gid : ℤ) (dir : Directory) :
    StaysWithin group members dir (Directory.addUserToGroup username gid dir).2 := by
  intro hwithin v h
  rcases eq_or_ne v username with rfl | hne
  · exact hmember
  · exact hwithin v ((Directory.isMember_addUserToGroup_of_ne hne gid dir group).mp h)

/-- Adding to one group adds to no other. -/
theorem Directory.isMember_of_addUserToGroup_of_name_ne {username name v : String} {gid : ℤ}
    {dir : Directory} (hlisted : (gid, name) ∈ dir.groupNames) (hne : name ≠ group)
    (hmember : (addUserToGroup username gid dir).2.IsMember v group) :
    dir.IsMember v group := by
  obtain ⟨g, hgroup, hg, rfl⟩ := group_of_mem_groupNames hlisted
  have hid : g.id = gid := by simpa using List.find?_some hgroup
  rcases isMember_of_addUserToGroup hmember with hbefore | ⟨-, g', hg', hid', rfl⟩
  · exact hbefore
  · have hsame : g = g' := List.inj_on_of_nodup_map dir.ids_nodup hg hg' (hid.trans hid'.symm)
    exact absurd (congrArg Group.displayName hsame) hne

theorem staysWithin_addUserToGroup_of_listed {username name : String} {gid : ℤ}
    {dir : Directory} (hlisted : (gid, name) ∈ dir.groupNames) (hne : name ≠ group) :
    StaysWithin group members dir (Directory.addUserToGroup username gid dir).2 :=
  staysWithin_of_shrinks fun _ => Directory.isMember_of_addUserToGroup_of_name_ne hlisted hne

end Members

/-! ## Groups by name -/

/-- The name that is shown, with its `tak_`. -/
theorem tak_bodyName {name : String} (hname : isTakName name) :
    "tak_" ++ bodyName name = name := by
  obtain ⟨rest, hrest⟩ : "tak_".toList <+: name.toList := by simpa [isTakName] using hname
  have hbody : (bodyName name).toList = name.toList.drop 4 := String.toList_ofList
  apply String.toList_injective
  rw [String.toList_append, hbody, ← hrest]
  rfl

namespace Directory

theorem groupNames_subset_createGroup (name : String) (dir : Directory) :
    dir.groupNames ⊆ (createGroup name dir).2.groupNames := by
  by_cases htaken : name ∈ dir.groups.map Group.displayName
  · rw [createGroup, dif_pos htaken]
    exact List.Subset.refl _
  · rw [(groupNames_createGroup htaken).2]
    exact List.subset_cons_self _ _

theorem mem_groupNames_of_created {name : String} {gid : ℤ} {dir : Directory}
    (hreply : (createGroup name dir).1 = .data gid) :
    (gid, name) ∈ (createGroup name dir).2.groupNames := by
  by_cases htaken : name ∈ dir.groups.map Group.displayName
  · simp [createGroup, htaken] at hreply
  · obtain ⟨hdata, hnames⟩ := groupNames_createGroup htaken
    obtain rfl := Reply.data.inj (hdata.symm.trans hreply)
    rw [hnames]
    exact List.mem_cons_self

end Directory

section Granting

variable {group : String} {members : Set String} {username : String}
variable {s : IdentityState settings} {listed : List (ℤ × String)}

/-- An addition to a group that is listed under another name. -/
theorem alone_addMember_within {name : String} {gid : ℤ} (hgid : (gid, name) ∈ listed)
    (hne : name ≠ group) (hlisted : listed ⊆ s.directory.groupNames) :
    Alone (AlongId (StaysWithin group members))
      (fun _ s' => listed ⊆ s'.directory.groupNames)
      (mutation (Directory.addUserToGroup username gid)) s := by
  apply alone_mutation (fun s' => listed ⊆ s'.directory.groupNames) (fun _ _ h => h) _ hlisted
  intro s' h
  refine ⟨staysWithin_addUserToGroup_of_listed (h hgid) hne, ?_⟩
  change listed ⊆ (Directory.addUserToGroup username gid s'.directory).2.groupNames
  rw [Directory.groupNames_addUserToGroup]
  exact h

theorem alone_ensureMember_within {name : String} (hne : takName name ≠ group)
    (hlisted : listed ⊆ s.directory.groupNames) :
    Alone (AlongId (StaysWithin group members))
      (fun _ s' => listed ⊆ s'.directory.groupNames) (ensureMember username listed name) s := by
  by_cases hname : takName name ∈ listed.map Prod.snd
  · obtain ⟨gid, hgid, hpair⟩ : ∃ gid, (ensureMember username listed name :
      IdProg settings Unit) = mutation (Directory.addUserToGroup username gid) ∧
        (gid, takName name) ∈ listed := ensureMember_of_mem hname
    rw [hgid]
    exact alone_addMember_within hpair hne hlisted
  · rw [ensureMember, ensureGroup_of_notMem hname]
    apply alone_bind
    refine alone_graphql (fun s' => listed ⊆ s'.directory.groupNames) (fun _ _ h => h)
      (fun s' h => ⟨staysWithin_createGroup (takName name) s'.directory, ?_⟩) ?_
      (fun s' h _ => alone_raise ?_) (fun _ _ h => h) hlisted
    · exact List.Subset.trans h (Directory.groupNames_subset_createGroup _ _)
    · intro s' gid h hreply
      have hboth : (gid, takName name) :: listed ⊆
          (Directory.createGroup (takName name) s'.directory).2.groupNames :=
        List.cons_subset.mpr ⟨Directory.mem_groupNames_of_created hreply,
          List.Subset.trans h (Directory.groupNames_subset_createGroup _ _)⟩
      exact (alone_addMember_within List.mem_cons_self hne hboth).mono (fun _ _ h => h)
        fun _ _ h => (List.cons_subset.mp h).2
    · exact List.Subset.trans h (Directory.groupNames_subset_createGroup _ _)

/-- Groups under other names are ensured, or for somebody who may be in the group. -/
theorem alone_ensureUserGroups_within {groups : List String}
    (hgroups : username ∈ members ∨ ∀ g ∈ groups, takName g ≠ group) :
    Alone (AlongId (StaysWithin group members)) (fun _ _ => True)
      (ensureUserGroups username groups) s := by
  rcases hgroups with hmember | hne
  · have hall : Respects (AlongId (StaysWithin group members)) (fun _ => True)
        (ensureUserGroups username groups : IdProg settings Unit) :=
      respects_ensureUserGroups (fun name _ => stepOf_along (staysWithin_createGroup _))
        fun gid => stepOf_along (staysWithin_addUserToGroup_of_mem hmember gid)
    exact (hall.alone (fun _ _ _ _ => trivial) trivial).mono (fun _ _ h => h)
      fun _ _ _ => trivial
  · rw [ensureUserGroups_eq]
    refine alone_bind (alone_query (fun queue => ?_) fun _ _ => trivial)
    have hloop : Alone (AlongId (StaysWithin group members))
        (fun _ s' => s.directory.groupNames ⊆ s'.directory.groupNames)
        (forList (ensureMember username s.directory.groupNames) groups) (withQueue queue s) :=
      alone_forList (fun name hname s' h => alone_ensureMember_within (hne name hname) h)
        (List.Subset.refl _)
    exact hloop.mono (fun _ _ h => h) fun _ _ _ => trivial

theorem alone_assignGroups_within {groups : List String}
    (hgroups : username ∈ members ∨ ∀ g ∈ groups, takName g ≠ group) :
    Alone (AlongId (StaysWithin group members)) (fun _ _ => True)
      (assignGroups username groups) s := by
  rcases hgroups with hmember | hne
  · have hall : Respects (AlongId (StaysWithin group members)) (fun _ => True)
        (assignGroups username groups : IdProg settings Unit) :=
      respects_assignGroups
        (fun gid => stepOf_along (staysWithin_removeUserFromGroup username gid))
        fun gid => stepOf_along (staysWithin_addUserToGroup_of_mem hmember gid)
    exact (hall.alone (fun _ _ _ _ => trivial) trivial).mono (fun _ _ h => h)
      fun _ _ _ => trivial
  · rw [assignGroups_eq]
    refine alone_bind (alone_query (fun queue => ?_) fun _ _ => trivial)
    refine alone_bind (alone_query (fun queue' => ?_) fun _ _ => trivial)
    dsimp only
    split
    · exact alone_raise trivial
    · next u huser =>
      have hkeeps : ∀ (g : ℤ × String) (s' : IdentityState settings),
          s.directory.groupNames ⊆ s'.directory.groupNames →
          Alone (AlongId (StaysWithin group members))
            (fun _ s' => s.directory.groupNames ⊆ s'.directory.groupNames)
            (removeUndesired username (settings.setOrder (groups.map takName)) g) s' := by
        intro g s' hs'
        unfold removeUndesired
        split_ifs
        · refine alone_mutation _ (fun _ _ h => h) (fun s'' h => ?_) hs'
          refine ⟨staysWithin_removeUserFromGroup username g.1 s''.directory, ?_⟩
          exact (Directory.groupNames_removeUserFromGroup username g.1 s''.directory).symm ▸ h
        · exact alone_pure hs'
      have hstart : s.directory.groupNames ⊆
          (withQueue queue' (withQueue queue s)).directory.groupNames := List.Subset.refl _
      refine alone_bind ((alone_forList (fun g _ s' h => hkeeps g s' h) hstart).mono
        (fun _ _ h => h) ?_)
      rintro (e | _) s₁ hlisted
      · trivial
      · have hadded : Alone (AlongId (StaysWithin group members))
            (fun _ s' => s.directory.groupNames ⊆ s'.directory.groupNames)
            (forList (addDesired username u s.directory.groupNames)
              (settings.setOrder (groups.map takName))) s₁ := by
          refine alone_forList (fun name hname s' h => ?_) hlisted
          obtain ⟨g, hg, rfl⟩ := mem_setOrder_iff.mp hname
          unfold addDesired
          split_ifs
          · exact alone_pure h
          · cases hfind : s.directory.groupNames.find? (·.2 == takName g) with
            | none => exact alone_pure h
            | some found =>
                have hsnd : found.2 = takName g := by simpa using List.find?_some hfind
                exact alone_addMember_within (List.mem_of_find?_eq_some hfind)
                  (hsnd ▸ hne g hg) h
        exact hadded.mono (fun _ _ h => h) fun _ _ _ => trivial

/-- A creation that ensures such groups. -/
theorem alone_createUser_within {client : Client} {name : String} {ttlHours : Option ℤ}
    {groups : List String} {userType : String}
    (hgroups : username ∈ members ∨ ∀ g ∈ groups, takName g ≠ group) :
    Alone (AlongId (StaysWithin group members)) (fun _ _ => True)
      (createUser client username name ttlHours groups userType) s := by
  have hend : ∀ {β : Type} {program : IdProg settings β} {P : β → Prop},
      Respects (AlongId (StaysWithin group members)) P program →
      ∀ s, Alone (AlongId (StaysWithin group members)) (fun _ _ => True) program s :=
    fun hprogram s => (hprogram.alone (fun _ _ _ _ => trivial) trivial).mono
      (fun _ _ h => h) fun _ _ _ => trivial
  have hfetch : ∀ attrs s, Alone (AlongId (StaysWithin group members)) (fun _ _ => True)
      (fetchCreated client username name attrs : IdProg settings UserRecord) s :=
    fun attrs => hend (respects_fetchCreated client username name attrs)
  refine alone_bind ((hend (respects_mutation (stepOf_along
    (staysWithin_createUser username name))) s).mono (fun _ _ h => h) ?_)
  rintro (e | _) s₁ -
  · trivial
  refine alone_bind ((hend (respects_expiryFor ttlHours) s₁).mono (fun _ _ h => h) ?_)
  rintro (e | expires) s₂ -
  · trivial
  refine alone_bind ((hend (respects_mutation (stepOf_along
    (staysWithin_updateUser username none _))) s₂).mono (fun _ _ h => h) ?_)
  rintro (e | _) s₃ -
  · trivial
  dsimp only
  split_ifs
  · refine alone_bind ((alone_ensureUserGroups_within hgroups).mono (fun _ _ h => h) ?_)
    rintro (e | _) s₄ -
    · trivial
    · exact hfetch _ s₄
  · exact hfetch _ s₃

end Granting

end FastTAK.Identity
