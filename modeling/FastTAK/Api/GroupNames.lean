import FastTAK.Api.AdminRole
import FastTAK.Api.GroupRule

/-!
# Names of groups

The groups of a user are shown without their `tak_` and asked for with or without it.  A group
that is asked for by a name without `tak_` is the one that is shown by that name.
-/

namespace FastTAK.Api

open FastTAK.Effect FastTAK.Effect.Prog FastTAK.Identity

variable {settings : Settings}

/-! ## One assignment -/

/-- The directory on the way from the groups of an account to those that are desired. -/
structure Assigning (username : String) (desired : List String) (dir dir' : Directory) : Prop where
  names : dir'.groupNames = dir.groupNames
  others : ∀ v group, v ≠ username → (dir'.IsMember v group ↔ dir.IsMember v group)
  gained : ∀ group, dir'.IsMember username group → dir.IsMember username group ∨ group ∈ desired
  kept : ∀ group, dir.IsMember username group → (isTakName group → group ∈ desired) →
    dir'.IsMember username group

instance (username : String) (desired : List String) :
    IsPreorder Directory (Assigning username desired) where
  refl _ := ⟨rfl, fun _ _ _ => Iff.rfl, fun _ h => Or.inl h, fun _ h _ => h⟩
  trans _ _ _ hfirst hsecond :=
    { names := hsecond.names.trans hfirst.names
      others := fun v group hv => (hsecond.others v group hv).trans (hfirst.others v group hv)
      gained := fun group h => (hsecond.gained group h).elim (hfirst.gained group) Or.inr
      kept := fun group h hdesired =>
        hsecond.kept group (hfirst.kept group h hdesired) hdesired }

/-- The caches are as they were, too. -/
structure AssigningState (username : String) (desired : List String)
    (s s' : IdentityState settings) : Prop where
  directory : Assigning username desired s.directory s'.directory
  ids : s'.ids = s.ids

instance (username : String) (desired : List String) :
    IsPreorder (IdentityState settings) (AssigningState username desired) where
  refl s := ⟨refl_of (Assigning _ _) s.directory, rfl⟩
  trans _ _ _ hfirst hsecond :=
    ⟨trans_of (Assigning _ _) hfirst.directory hsecond.directory, hsecond.ids.trans hfirst.ids⟩

section Steps

variable {username name : String} {desired : List String} {gid : ℤ} {dir : Directory}

theorem assigning_remove (hlisted : (gid, name) ∈ dir.groupNames) (htak : isTakName name)
    (hnot : name ∉ desired) :
    Assigning username desired dir (Directory.removeUserFromGroup username gid dir).2 where
  names := Directory.groupNames_removeUserFromGroup username gid dir
  others v group hv := Directory.isMember_removeUserFromGroup_of_ne hv gid dir group
  gained group h := Or.inl (Directory.isMember_of_removeUserFromGroup h)
  kept group h hdesired := by
    apply Directory.isMember_removeUserFromGroup_of_name_ne hlisted _ h
    rintro rfl
    exact hnot (hdesired htak)

theorem assigning_add (hlisted : (gid, name) ∈ dir.groupNames) (hname : name ∈ desired) :
    Assigning username desired dir (Directory.addUserToGroup username gid dir).2 where
  names := Directory.groupNames_addUserToGroup username gid dir
  others v group hv := Directory.isMember_addUserToGroup_of_ne hv gid dir group
  gained group h := by
    by_cases hgroup : name = group
    · exact Or.inr (hgroup ▸ hname)
    · exact Or.inl (Directory.isMember_of_addUserToGroup_of_name_ne hlisted hgroup h)
  kept group h _ := Directory.isMember_addUserToGroup_of_isMember username gid h

/-- Whoever is taken out of a group is not in it. -/
theorem not_isMember_removeUserFromGroup_self (hlisted : (gid, name) ∈ dir.groupNames) :
    ¬ (Directory.removeUserFromGroup username gid dir).2.IsMember username name := by
  obtain ⟨g, hgroup, hg, rfl⟩ := Directory.group_of_mem_groupNames hlisted
  have hid : g.id = gid := by simpa using List.find?_some hgroup
  rw [Directory.removeUserFromGroup, hgroup]
  intro hmember
  obtain ⟨g', hg', hname, hin⟩ := hmember
  obtain ⟨old, hold, rfl⟩ := (Directory.mem_changeMembers_iff _ _ _ _).mp hg'
  split_ifs at hname hin with hsame
  · have hfilter := (List.mem_filter.mp hin).2
    simp at hfilter
  · have heq : old = g := List.inj_on_of_nodup_map dir.names_nodup hold hg hname
    rw [heq] at hsame
    exact hsame hid

variable {s₀ s : IdentityState settings}

/-- A round of the loop that removes. -/
theorem alone_removeUndesired {g : ℤ × String} (hg : g ∈ s₀.directory.groupNames)
    (hs : AssigningState username desired s₀ s) :
    Alone (AlongId (Regroups username)) (fun result s' =>
      AssigningState username desired s s' ∧ (result = .ok () → isTakName g.2 → g.2 ∉ desired →
        ¬ s'.directory.IsMember username g.2)) (removeUndesired username desired g) s := by
  rw [removeUndesired]
  split_ifs with hundesired
  · obtain ⟨htak, hnot⟩ : isTakName g.2 ∧ g.2 ∉ desired := by simpa using hundesired
    have hlisted : ∀ t, AssigningState username desired s t → g ∈ t.directory.groupNames :=
      fun t h => by
        rw [h.directory.names, hs.directory.names]
        exact hg
    have hstep : ∀ t, AssigningState username desired s t → AssigningState username desired s
        (withDirectory t (Directory.removeUserFromGroup username g.1 t.directory).2) :=
      fun t h => ⟨trans_of (Assigning username desired) h.directory
        (assigning_remove (hlisted t h) htak hnot), h.ids⟩
    apply alone_graphql (AssigningState username desired s) (fun _ _ h => ⟨h.directory, h.ids⟩)
      (fun t h => ⟨regroups_removeUserFromGroup username g.1 t.directory, hstep t h⟩)
    · intro t _ h _
      exact ⟨hstep t h, fun _ _ _ => not_isMember_removeUserFromGroup_self (hlisted t h)⟩
    · intro t h _
      exact alone_pure
        ⟨hstep t h, fun _ _ _ => not_isMember_removeUserFromGroup_self (hlisted t h)⟩
    · intro t e h
      exact ⟨h, fun hok => absurd hok (by simp)⟩
    · exact refl_of (AssigningState username desired) s
  · apply alone_pure
    use refl_of (AssigningState username desired) s
    intro _ htak hnot
    exact absurd (by simp [htak, hnot]) hundesired

/-- A round of the loop that adds. -/
theorem alone_addDesired {u : Directory.UserView} (hu : ∀ name, u.groups.any (·.2 == name) →
      s₀.directory.IsMember username name) (hname : name ∈ desired)
    (hs : AssigningState username desired s₀ s) :
    Alone (AlongId (Regroups username)) (fun result s' =>
      AssigningState username desired s s' ∧ (result = .ok () → name ∈ desired →
        name ∈ s₀.directory.groupNames.map Prod.snd → s'.directory.IsMember username name))
      (addDesired username u s₀.directory.groupNames name) s := by
  have hself := refl_of (AssigningState username desired) s
  rw [addDesired]
  split_ifs with hhas
  · apply alone_pure
    use hself
    exact fun _ _ _ => hs.directory.kept name (hu name hhas) fun _ => hname
  · cases hfind : s₀.directory.groupNames.find? (·.2 == name) with
    | none =>
        apply alone_pure
        use hself
        intro _ _ hlisted
        obtain ⟨entry, hentry, rfl⟩ := List.mem_map.mp hlisted
        exact absurd (beq_self_eq_true entry.2) (List.find?_eq_none.mp hfind entry hentry)
    | some found =>
        have hsnd : found.2 = name := by simpa using List.find?_some hfind
        have hlisted : ∀ t, AssigningState username desired s t →
            (found.1, name) ∈ t.directory.groupNames := fun t h => by
          rw [h.directory.names, hs.directory.names, ← hsnd]
          exact List.mem_of_find?_eq_some hfind
        have hstep : ∀ t, AssigningState username desired s t → AssigningState username desired s
            (withDirectory t (Directory.addUserToGroup username found.1 t.directory).2) :=
          fun t h => ⟨trans_of (Assigning username desired) h.directory
            (assigning_add (hlisted t h) hname), h.ids⟩
        apply alone_graphql (AssigningState username desired s)
          (fun _ _ h => ⟨h.directory, h.ids⟩)
          (fun t h => ⟨regroups_addUserToGroup username found.1 t.directory, hstep t h⟩)
        · intro t value h hreply
          exact ⟨hstep t h, fun _ _ _ =>
            Directory.isMember_of_reply (hlisted t h) (by rw [hreply]; simp)⟩
        · intro t h hreply
          exact alone_pure ⟨hstep t h, fun _ _ _ =>
            Directory.isMember_of_reply (hlisted t h) (by rw [hreply]; simp)⟩
        · intro t e h
          exact ⟨h, fun hok => absurd hok (by simp)⟩
        · exact hself

end Steps

section Whole

variable {username : String} {groups : List String} {s : IdentityState settings}

/-- The groups that `set_user_groups` leaves an account in. -/
def Assigned (username : String) (groups : List String) (dir dir' : Directory) : Prop :=
  ∀ group, isTakName group → (dir'.IsMember username group ↔
    (∃ g ∈ groups, takName g = group) ∧ group ∈ dir.groupNames.map Prod.snd)

theorem mem_groupNames_of_isMember {dir : Directory} {v group : String}
    (hmember : dir.IsMember v group) : group ∈ dir.groupNames.map Prod.snd := by
  obtain ⟨g, hg, rfl, -⟩ := hmember
  exact List.mem_map.mpr ⟨(g.id, g.displayName), List.mem_map.mpr ⟨g, hg, rfl⟩, rfl⟩

theorem assigned_of_rounds {desired : List String} {dir dir' : Directory}
    (hdesired : ∀ group, group ∈ desired ↔ ∃ g ∈ groups, takName g = group)
    (hassigning : Assigning username desired dir dir')
    (hremoved : ∀ group, dir.IsMember username group → isTakName group → group ∉ desired →
      ¬ dir'.IsMember username group)
    (hadded : ∀ group ∈ desired, group ∈ dir.groupNames.map Prod.snd →
      dir'.IsMember username group) : Assigned username groups dir dir' := by
  intro group htak
  rw [← hdesired]
  constructor
  · intro hmember
    have hname := mem_groupNames_of_isMember hmember
    rw [hassigning.names] at hname
    refine ⟨?_, hname⟩
    by_contra hnot
    have hbefore := (hassigning.gained group hmember).resolve_right hnot
    exact hremoved group hbefore htak hnot hmember
  · rintro ⟨hgroup, hlisted⟩
    exact hadded group hgroup hlisted

/-- An assignment that returns. -/
theorem alone_assignGroups_assigned :
    Alone (AlongId (Regroups username)) (fun result s' =>
      AssigningState username (settings.setOrder (groups.map takName)) s s' ∧
        (result = .ok () → Assigned username groups s.directory s'.directory))
      (assignGroups username groups) s := by
  have hdesired : ∀ group, group ∈ settings.setOrder (groups.map takName) ↔
      ∃ g ∈ groups, takName g = group := fun group => mem_setOrder_iff
  generalize hlist : settings.setOrder (groups.map takName) = desired at hdesired
  rw [assignGroups_eq, hlist]
  have hfail : ∀ queue (e : Exn), AssigningState username desired s (withQueue queue s) ∧
      ((Except.error e : Except Exn Unit) = .ok () →
        Assigned username groups s.directory (withQueue queue s).directory) := fun queue e =>
    ⟨⟨refl_of (Assigning _ _) s.directory, rfl⟩, fun h => absurd h (by simp)⟩
  refine alone_bind (alone_query (fun queue => ?_) fun queue e => hfail queue e)
  refine alone_bind (alone_query (fun queue' => ?_) fun queue' e => hfail queue' e)
  dsimp only
  cases huser : (withQueue queue s).directory.user username with
  | none => exact alone_raise (hfail queue' _)
  | some u =>
      have huser' : s.directory.user username = some u := huser
      have hstart : AssigningState username desired s (withQueue queue' (withQueue queue s)) :=
        ⟨refl_of (Assigning _ _) s.directory, rfl⟩
      have hremove : Alone (AlongId (Regroups username)) (fun result s' =>
          AssigningState username desired (withQueue queue' (withQueue queue s)) s' ∧
            (result = .ok () → ∀ g ∈ u.groups, isTakName g.2 → g.2 ∉ desired →
              ¬ s'.directory.IsMember username g.2))
          (forList (removeUndesired username desired) u.groups)
          (withQueue queue' (withQueue queue s)) :=
        alone_forList_each
          (fun g hg t ht => alone_removeUndesired
            (Directory.mem_groupNames_of_mem_groups huser' hg) ht)
          (fun g t t' hmoved hdone htak hnot hmember => hdone htak hnot
            ((hmoved.directory.gained _ hmember).resolve_right hnot)) hstart
      refine alone_bind (hremove.mono (fun _ _ h => h) fun result t h => ?_)
      obtain ⟨hmoved, hremoved⟩ := h
      have hmoved' := trans_of (AssigningState username desired) hstart hmoved
      cases result with
      | error e => exact ⟨hmoved', fun h => absurd h (by simp)⟩
      | ok _ =>
          have hadd : Alone (AlongId (Regroups username)) (fun result s' =>
              AssigningState username desired t s' ∧ (result = .ok () → ∀ name ∈ desired,
                name ∈ desired → name ∈ s.directory.groupNames.map Prod.snd →
                  s'.directory.IsMember username name))
              (forList (addDesired username u s.directory.groupNames) desired) t :=
            alone_forList_each
              (fun name hname t ht => alone_addDesired
                (fun name h => (Directory.any_groups_iff huser' name).mp h) hname ht)
              (fun name t t' hmoved hdone hname hlisted =>
                hmoved.directory.kept name (hdone hname hlisted) fun _ => hname) hmoved'
          refine hadd.mono (fun _ _ h => h) fun result s' h => ?_
          have hall := trans_of (AssigningState username desired) hmoved' h.1
          use hall
          intro hok
          apply assigned_of_rounds hdesired hall.directory
          · intro group hbefore htak hnot hafter
            obtain ⟨g, hg, hname⟩ := List.any_eq_true.mp
              ((Directory.any_groups_iff huser' group).mpr hbefore)
            obtain rfl : g.2 = group := by simpa using hname
            exact hremoved rfl g hg htak hnot
              ((h.1.directory.gained _ hafter).resolve_right hnot)
          · exact fun group hgroup hlisted => h.2 hok group hgroup hgroup hlisted

end Whole

/-! ## Names that are shown -/

section Names

variable {dir : Directory}

theorem toList_tak_append (name : String) :
    ("tak_" ++ name).toList = "tak_".toList ++ name.toList :=
  String.toList_append

theorem isTakName_append (name : String) : isTakName ("tak_" ++ name) := by
  have hleads : "tak_".toList <+: ("tak_" ++ name).toList := by
    rw [toList_tak_append]
    exact List.prefix_append _ _
  exact decide_eq_true hleads

theorem bodyName_append (name : String) : bodyName ("tak_" ++ name) = name := by
  apply String.toList_injective
  rw [bodyName, String.toList_ofList, toList_tak_append]
  exact List.drop_left' rfl

theorem takName_of_plain {name : String} (hplain : ¬ isTakName name) :
    takName name = "tak_" ++ name := if_neg hplain

/-- A record shows a group by its name without `tak_`. -/
theorem mem_groups_iff {client : Client} {userId : ℤ} {record : UserRecord}
    (hshows : Shows settings client userId dir record) (name : String) :
    name ∈ record.groups ↔ dir.IsMember record.username ("tak_" ++ name) := by
  obtain ⟨u, huser, hrecord⟩ := hshows.view
  have hgroups : record.groups = (u.groups.filter (isTakName ·.2)).map (bodyName ·.2) := by
    rw [hrecord]
    rfl
  rw [hgroups, ← Directory.any_groups_iff huser, List.any_eq_true, List.mem_map]
  constructor
  · rintro ⟨g, hg, rfl⟩
    obtain ⟨hmem, htak⟩ := List.mem_filter.mp hg
    exact ⟨g, hmem, by rw [tak_bodyName htak, beq_self_eq_true]⟩
  · rintro ⟨g, hg, hname⟩
    rw [beq_iff_eq] at hname
    use g
    rw [hname, bodyName_append]
    refine ⟨List.mem_filter.mpr ⟨hg, ?_⟩, rfl⟩
    rw [hname]
    exact isTakName_append name

theorem mem_listedGroups_iff {name : String} {gid : ℤ} :
    (gid, name) ∈ listedGroups dir ↔
      (gid, "tak_" ++ name) ∈ dir.groupNames ∧ "tak_" ++ name ≠ "tak_ROLE_ADMIN" := by
  rw [listedGroups, List.mem_map]
  constructor
  · rintro ⟨g, hg, hpair⟩
    obtain ⟨rfl, rfl⟩ := Prod.mk.inj hpair
    obtain ⟨hmem, hshown⟩ := List.mem_filter.mp hg
    obtain ⟨htak, hne⟩ := Bool.and_eq_true_iff.mp hshown
    rw [tak_bodyName htak]
    exact ⟨hmem, by simpa using hne⟩
  · rintro ⟨hmem, hne⟩
    refine ⟨(gid, "tak_" ++ name), List.mem_filter.mpr ⟨hmem, ?_⟩, ?_⟩
    · simp [isTakName_append, hne]
    · rw [bodyName_append]

end Names

/-! ## Requests -/

section Requests

variable {w : World settings}

/-- What a request that sets the groups of a user has done when it succeeds. -/
structure GroupsSet (userId : ℤ) (groups : List String) (username : String)
    (w w' : World settings) : Prop where
  known : Known .users userId username w'.identity
  others : ∀ v group, v ≠ username ∨ ¬ isTakName group →
    (w'.identity.directory.IsMember v group ↔ w.identity.directory.IsMember v group)
  listed : ∀ g ∈ groups, g ∈ (listedGroups w.identity.directory).map Prod.snd
  assigned : Assigned username groups w.identity.directory w'.identity.directory
  names : w'.identity.directory.groupNames = w.identity.directory.groupNames

theorem groupsSet_of_assigning {userId : ℤ} {groups : List String} {username : String}
    {s s' : IdentityState settings} {w' : World settings}
    (hdirectory : s.directory = w.identity.directory) (hknown : Known .users userId username s)
    (hlisted : ∀ g ∈ groups, g ∈ (listedGroups w.identity.directory).map Prod.snd)
    (hassigning : AssigningState username (settings.setOrder (groups.map takName)) s s')
    (hassigned : Assigned username groups s.directory s'.directory) (hw' : w'.identity = s') :
    GroupsSet userId groups username w w' := by
  subst hw'
  rw [hdirectory] at hassigned
  have hmoved := hassigning.directory
  rw [hdirectory] at hmoved
  have hknown' : Known .users userId username w'.identity := by
    rw [Known, hassigning.ids]
    exact hknown
  refine ⟨hknown', ?_, hlisted, hassigned, hmoved.names⟩
  rintro v group (hother | hplain)
  · exact hmoved.others v group hother
  · by_cases hv : v = username
    · subst hv
      constructor
      · intro hafter
        refine (hmoved.gained group hafter).resolve_right fun hdesired => hplain ?_
        obtain ⟨g, -, rfl⟩ := mem_setOrder_iff.mp hdesired
        exact isTakName_takName g
      · exact fun hbefore => hmoved.kept group hbefore fun htak => absurd htak hplain
    · exact hmoved.others v group hv

theorem endsIn_setUserGroups (userId : ℤ) (groups : List String) :
    EndsIn (fun result w' => ∀ response, result = .ok response →
      ∃ username, GroupsSet userId groups username w w') (Api.setUserGroups userId groups) w := by
  have hfail : ∀ (e : Exn) (w' : World settings) (response : Response),
      (Except.error e : Except Exn Response) = .ok response →
        ∃ username, GroupsSet userId groups username w w' := fun e w' response h =>
    absurd h (by simp)
  refine alone_bind (endsIn_requireUser (fun user s hquiet _ hshows hknown => ?_)
    fun e s _ => hfail e _)
  have hlast : ∀ queue, (∀ g ∈ groups, g ∈ (listedGroups w.identity.directory).map Prod.snd) →
      EndsIn (fun result w' => ∀ response, result = .ok response →
        ∃ username, GroupsSet userId groups username w w') (do
          identity (Identity.setUserGroups .users userId groups)
          return Response.success) ((w.withIdentity s).withFaults queue) := by
    intro queue hlisted
    have hknown' : Known .users userId user.username (withQueue queue s) := hknown
    have hrun : Alone (AlongId (Regroups user.username)) (fun result s' =>
        AssigningState user.username (settings.setOrder (groups.map takName))
          (withQueue queue s) s' ∧ (result = .ok () →
            Assigned user.username groups (withQueue queue s).directory s'.directory))
        (Identity.setUserGroups .users userId groups) (withQueue queue s) :=
      alone_requireUsername_bind hknown' alone_assignGroups_assigned
    refine alone_bind (endsIn_identity (hrun.mono (fun _ _ _ => trivial) ?_))
    rintro (e | _) s' ⟨hassigning, hassigned⟩
    · exact hfail e _
    · apply alone_pure
      intro response _
      use user.username
      have hdirectory : (withQueue queue s).directory = w.identity.directory := hquiet.directory
      exact groupsSet_of_assigning hdirectory hknown' hlisted hassigning (hassigned rfl) rfl
  dsimp only
  split_ifs with hadmin hempty hgroups
  · exact alone_raise (hfail _ _)
  · exact alone_raise (hfail _ _)
  · refine alone_bind (endsIn_listed (fun hlisted queue _ => hlast queue ?_) fun _ _ => hfail _ _)
    intro g hg
    rw [← hquiet.directory]
    by_contra hnot
    exact hlisted ⟨g, hg, hnot⟩
  · refine hlast s.lldap fun g hg => ?_
    rw [not_not.mp hgroups] at hg
    cases hg

/-- A group that was created is there under the name asked for. -/
theorem endsIn_createGroup (name : String) :
    EndsIn (fun result w' => ∀ response, result = .ok response →
      ∃ gid, response = .group gid (bodyName (takName name)) [] ∧
        (gid, takName name) ∈ w'.identity.directory.groupNames) (Api.createGroup name) w := by
  have hcreate : Alone Anyhow (fun result s' => ∀ gid shown, result = .ok (gid, shown) →
      shown = bodyName (takName name) ∧ (gid, takName name) ∈ s'.directory.groupNames)
      (Identity.createGroup name) w.identity := by
    apply alone_bind
    refine alone_graphql (fun _ => True) (fun _ _ _ => trivial)
      (fun _ _ => ⟨trivial, trivial⟩) ?_ ?_ ?_ trivial
    · intro s gid _ hreply
      apply alone_pure
      intro gid' shown hsame
      obtain ⟨rfl, rfl⟩ := Prod.mk.inj (Except.ok.inj hsame)
      exact ⟨rfl, Directory.mem_groupNames_of_created hreply⟩
    · intro s _ _
      apply alone_raise
      intro gid shown h
      cases h
    · intro s e _ gid shown h
      cases h
  refine alone_bind (endsIn_identity (hcreate.mono (fun _ _ _ => trivial) ?_))
  rintro (e | ⟨gid, shown⟩) s' h
  · intro response herror
    cases herror
  · obtain ⟨rfl, hlisted⟩ := h gid shown rfl
    apply alone_pure
    intro response hsame
    exact ⟨gid, (Except.ok.inj hsame).symm, hlisted⟩

/-- `get_user` reports the record. -/
def Reports (w : World settings) (userId : ℤ) (record : UserRecord) : Prop :=
  ((Identity.getUser .users userId).run w.identity).1 = .ok (some record)

theorem Reports.shows {userId : ℤ} {record : UserRecord} (h : Reports w userId record) :
    Shows settings .users userId w.identity.directory record :=
  ((alone_getUser .users userId w.identity).ends.2 record h).1

theorem Reports.username {userId : ℤ} {record : UserRecord} {username : String}
    (h : Reports w userId record) (hknown : Known .users userId username w.identity) :
    record.username = username := by
  have hshown := ((alone_getUser .users userId w.identity).ends.2 record h).2
  have hstill := (alone_getUser_of_known hknown).ends
  exact Option.some.inj (hshown.symm.trans hstill)

/-- The groups of a user are those that were asked for by names without `tak_`. -/
theorem GroupsSet.reported {userId : ℤ} {groups : List String} {username : String}
    {w' : World settings} (hset : GroupsSet userId groups username w w') {record : UserRecord}
    (hreports : Reports w' userId record) (hplain : ∀ g ∈ groups, ¬ isTakName g) (name : String) :
    name ∈ record.groups ↔ name ∈ groups := by
  have htak : (∃ g ∈ groups, takName g = "tak_" ++ name) ↔ name ∈ groups := by
    constructor
    · rintro ⟨g, hg, hname⟩
      rw [takName_of_plain (hplain g hg)] at hname
      rw [← bodyName_append name, ← hname, bodyName_append]
      exact hg
    · exact fun hname => ⟨name, hname, takName_of_plain (hplain name hname)⟩
  rw [mem_groups_iff hreports.shows, hreports.username hset.known,
    hset.assigned _ (isTakName_append name), htak, and_iff_left_iff_imp]
  intro hname
  obtain ⟨entry, hentry, rfl⟩ := List.mem_map.mp (hset.listed name hname)
  exact List.mem_map.mpr ⟨_, (mem_listedGroups_iff.mp hentry).1, rfl⟩

/-- **Names of groups.**  A successful request to set the groups of a user leaves everything
else alone, and the groups reported afterwards are those asked for, if these were asked for
without `tak_`.  The group that a successful request creates is listed by the name returned
unless it is the administrators' one, and assigned by it unless it begins with `tak_`. -/
theorem group_names_round_trip (w w' : World settings) :
    (∀ userId groups response, (Api.setUserGroups userId groups).run w = (.ok response, w') →
      ∃ username,
        (∀ v group, v ≠ username ∨ ¬ isTakName group →
          (w'.identity.directory.IsMember v group ↔ w.identity.directory.IsMember v group)) ∧
        ∀ record, Reports w' userId record → record.username = username ∧
          ((∀ g ∈ groups, ¬ isTakName g) → ∀ name, name ∈ record.groups ↔ name ∈ groups)) ∧
    ∀ name response, (Api.createGroup name).run w = (.ok response, w') →
      ∃ gid, response = .group gid (bodyName (takName name)) [] ∧
        (bodyName (takName name) ≠ "ROLE_ADMIN" →
          (gid, bodyName (takName name)) ∈ listedGroups w'.identity.directory) ∧
        (¬ isTakName (bodyName (takName name)) →
          ∀ userId groups response' w'', bodyName (takName name) ∈ groups →
            (Api.setUserGroups userId groups).run w' = (.ok response', w'') →
            ∃ username, (∀ record, Reports w'' userId record → record.username = username) ∧
              ∃ g ∈ w''.identity.directory.groups, g.id = gid ∧ username ∈ g.members) := by
  constructor
  · intro userId groups response hrun
    have hends := (endsIn_setUserGroups userId groups : EndsIn _ _ w).ends
    rw [hrun] at hends
    obtain ⟨username, hset⟩ := hends response rfl
    use username, hset.others
    intro record hreports
    exact ⟨hreports.username hset.known, fun hplain name => hset.reported hreports hplain name⟩
  · intro name response hrun
    have hends := (endsIn_createGroup name : EndsIn _ _ w).ends
    rw [hrun] at hends
    obtain ⟨gid, hresponse, hnamed⟩ := hends response rfl
    have htak := tak_bodyName (isTakName_takName name)
    use gid, hresponse
    constructor
    · intro hne
      rw [mem_listedGroups_iff, htak]
      use hnamed
      intro hadmin
      apply hne
      rw [hadmin]
      exact bodyName_append "ROLE_ADMIN"
    · intro hplain userId groups response' w'' hasked hrun'
      have hends' := (endsIn_setUserGroups userId groups : EndsIn _ _ w').ends
      rw [hrun'] at hends'
      obtain ⟨username, hset⟩ := hends' response' rfl
      use username, fun record hreports => hreports.username hset.known
      have hsame : takName (bodyName (takName name)) = takName name := by
        rw [takName_of_plain hplain, htak]
      have hmember : w''.identity.directory.IsMember username (takName name) := by
        apply (hset.assigned _ (isTakName_takName name)).mpr
        exact ⟨⟨_, hasked, hsame⟩, List.mem_map.mpr ⟨_, hnamed, rfl⟩⟩
      have hnamed' : (gid, takName name) ∈ w''.identity.directory.groupNames := by
        rw [hset.names]
        exact hnamed
      obtain ⟨g, hgroup, hg, hname⟩ := Directory.group_of_mem_groupNames hnamed'
      refine ⟨g, hg, by simpa using List.find?_some hgroup, ?_⟩
      exact Directory.mem_members_of_isMember hg (hname ▸ hmember)

theorem run_of_toBool {handler : Handler settings Response} (hok : (handler.run w).1.toBool) :
    ∃ response, handler.run w = (.ok response, (handler.run w).2) := by
  rcases hrun : handler.run w with ⟨e | response, w'⟩
  · rw [hrun] at hok
    cases hok
  · exact ⟨response, rfl⟩

end Requests

def kimsId : ℤ := Settings.small.numericId "kim"

/-- A user who is in no group, and a group. -/
def plainWorld : World Settings.small where
  identity := .start (Directory.createUser "kim" "Kim"
    (Directory.createGroup "tak_ops" .empty).2).2 0
  pki := .empty
  revocations := []

theorem group_names_round_trip_ops :
    (∀ record, Reports ((Api.setUserGroups kimsId ["ops"]).run plainWorld).2 kimsId record →
      ∀ name, name ∈ record.groups ↔ name ∈ ["ops"]) ∧
    ∃ gid, (gid, "air") ∈
      listedGroups ((Api.createGroup "tak_air").run plainWorld).2.identity.directory := by
  have hset : ((Api.setUserGroups kimsId ["ops"]).run plainWorld).1.toBool := by decide +kernel
  have hcreated : ((Api.createGroup "tak_air").run plainWorld).1.toBool := by decide +kernel
  have hair : bodyName (takName "tak_air") = "air" := by decide +kernel
  obtain ⟨response, hrun⟩ := run_of_toBool hset
  obtain ⟨response', hrun'⟩ := run_of_toBool hcreated
  constructor
  · obtain ⟨username, -, hreported⟩ := (group_names_round_trip _ _).1 _ _ _ hrun
    exact fun record hreports => (hreported record hreports).2 (by decide +kernel)
  · obtain ⟨gid, -, hlisted, -⟩ := (group_names_round_trip _ _).2 _ _ hrun'
    rw [hair] at hlisted
    exact ⟨gid, hlisted (by decide)⟩

/-! ## Names with `tak_` -/

/-- What `get_user` reports of the groups. -/
def reportedGroups (w : World settings) (userId : ℤ) : Option (List String) :=
  match ((Identity.getUser .users userId).run w.identity).1 with
  | .ok (some record) => some record.groups
  | _ => none

/-- A user in the group `tak_tak_ops`, which is listed as `tak_ops`. -/
def doubledWorld : World Settings.small where
  identity := .start (Directory.addUserToGroup "kim" 1 (Directory.createUser "kim" "Kim"
    (Directory.createGroup "tak_tak_ops" .empty).2).2).2 0
  pki := .empty
  revocations := []

/-- Who is given the group that is listed as `tak_ops` is in no group afterwards; and the
administrators' group, created under its own name, is not listed. -/
theorem doubled_name_lost :
    let assigned := (Api.setUserGroups kimsId ["tak_ops"]).run doubledWorld
    let created := (Api.createGroup "ROLE_ADMIN").run doubledWorld
    ("tak_ops" ∈ (listedGroups doubledWorld.identity.directory).map Prod.snd ∧
      assigned.1.toBool ∧ reportedGroups assigned.2 kimsId = some []) ∧
    created.1.toBool ∧
      "ROLE_ADMIN" ∉ (listedGroups created.2.identity.directory).map Prod.snd := by
  decide +kernel

end FastTAK.Api
