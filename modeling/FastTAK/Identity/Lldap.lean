import FastTAK.Identity.Attributes

/-!
# The directory

What the monitor relies on of LLDAP: accounts with attributes, groups with
members, and the GraphQL queries and mutations the monitor sends.  Names are
unique, and the id of a group is never given to another group.
-/

namespace FastTAK.Identity

structure Account where
  displayName : String
  attributes : Stored

structure Group where
  id : ℤ
  displayName : String
  members : List String
  deriving DecidableEq, Repr

structure Directory where
  accounts : AList fun _ : String => Account
  groups : List Group
  nextGroupId : ℤ
  names_nodup : (groups.map Group.displayName).Nodup
  ids_nodup : (groups.map Group.id).Nodup
  ids_lt : ∀ g ∈ groups, g.id < nextGroupId

namespace Directory

/-- A directory without accounts and groups. -/
def empty : Directory where
  accounts := ∅
  groups := []
  nextGroupId := 1
  names_nodup := List.nodup_nil
  ids_nodup := List.nodup_nil
  ids_lt := fun _ h => absurd h List.not_mem_nil

/-- The account is a member of the group of that name. -/
def IsMember (dir : Directory) (username group : String) : Prop :=
  ∃ g ∈ dir.groups, g.displayName = group ∧ username ∈ g.members

instance (dir : Directory) (username group : String) :
    Decidable (dir.IsMember username group) :=
  inferInstanceAs (Decidable (∃ g ∈ dir.groups, g.displayName = group ∧ username ∈ g.members))

/-- The attributes of an account, if it exists. -/
def attributesOf (dir : Directory) (username : String) : Option Attributes :=
  (dir.accounts.lookup username).map fun account => parseAttributes account.attributes

theorem attributesOf_eq_none {dir : Directory} {username : String}
    (hnew : username ∉ dir.accounts) : dir.attributesOf username = none := by
  rw [attributesOf, AList.lookup_eq_none.mpr hnew]
  rfl

/-! ## Queries -/

/-- A user as the GraphQL queries return it; `groups` pairs ids with names. -/
structure UserView where
  id : String
  displayName : String
  attributes : Stored
  groups : List (ℤ × String)

def view (dir : Directory) (id : String) (account : Account) : UserView where
  id := id
  displayName := account.displayName
  attributes := account.attributes
  groups := (dir.groups.filter (id ∈ ·.members)).map fun g => (g.id, g.displayName)

/-- `user(userId: $id)`. -/
def user (dir : Directory) (id : String) : Option UserView :=
  (dir.accounts.lookup id).map (dir.view id)

/-- `users`. -/
def users (dir : Directory) : List UserView :=
  dir.accounts.entries.map fun entry => dir.view entry.1 entry.2

/-- `groups { id displayName }`. -/
def groupNames (dir : Directory) : List (ℤ × String) :=
  dir.groups.map fun g => (g.id, g.displayName)

/-- `group(groupId: $id)`. -/
def group (dir : Directory) (id : ℤ) : Option Group :=
  dir.groups.find? (·.id == id)

theorem mem_users_iff (dir : Directory) (u : UserView) :
    u ∈ dir.users ↔ dir.user u.id = some u := by
  simp only [users, user, List.mem_map, Option.map_eq_some_iff]
  constructor
  · rintro ⟨⟨id, account⟩, hentry, rfl⟩
    exact ⟨account, AList.mem_lookup_iff.mpr hentry, rfl⟩
  · rintro ⟨account, hlookup, hview⟩
    exact ⟨⟨u.id, account⟩, AList.mem_lookup_iff.mp hlookup, hview⟩

theorem user_id {dir : Directory} {id : String} {u : UserView}
    (huser : dir.user id = some u) : u.id = id := by
  obtain ⟨account, -, rfl⟩ := Option.map_eq_some_iff.mp huser
  rfl

/-- The usernames of a directory, each once. -/
theorem nodup_ids (dir : Directory) : (dir.users.map UserView.id).Nodup := by
  have hkeys : dir.users.map UserView.id = dir.accounts.keys := by
    rw [users, List.map_map]
    rfl
  rw [hkeys]
  exact dir.accounts.nodupKeys

theorem mem_accounts_of_mem_users {dir : Directory} {u : UserView}
    (hu : u ∈ dir.users) : u.id ∈ dir.accounts := by
  have huser := (mem_users_iff dir u).mp hu
  obtain ⟨account, hlookup, -⟩ := Option.map_eq_some_iff.mp huser
  rw [← AList.lookup_isSome, hlookup]
  rfl

theorem exists_user_of_mem_accounts {dir : Directory} {username : String}
    (husername : username ∈ dir.accounts) : ∃ u ∈ dir.users, u.id = username := by
  obtain ⟨account, haccount⟩ := Option.isSome_iff_exists.mp (AList.lookup_isSome.mpr husername)
  refine ⟨dir.view username account, ?_, rfl⟩
  apply (mem_users_iff dir _).mpr
  exact Option.map_eq_some_iff.mpr ⟨account, haccount, rfl⟩

/-! ## Mutations -/

/-- The answer to a mutation: data, the error of a unique name that is taken, or
another error. -/
inductive Reply (α : Type) where
  | data (value : α)
  | duplicate
  | errors
  deriving DecidableEq, Repr

/-- The schema of the attribute accepts the values: `fastak_expires` is an
`INTEGER`, the others are `STRING`s. -/
def acceptsValues (entry : String × List String) : Bool :=
  entry.1 != "fastak_expires" || entry.2.all fun text =>
    match pyInt text with
    | some n => -2 ^ 63 ≤ n && n < 2 ^ 63
    | none => false

/-- `createUser(user: {id, displayName, email})`. -/
def createUser (id displayName : String) (dir : Directory) : Reply Unit × Directory :=
  if id ∈ dir.accounts then (.duplicate, dir)
  else (.data (), { dir with accounts := dir.accounts.insert id ⟨displayName, ∅⟩ })

/-- `updateUser(user: {id, displayName, insertAttributes})`. -/
def updateUser (id : String) (displayName : Option String)
    (inserted : List (String × List String)) (dir : Directory) :
    Reply Unit × Directory :=
  match dir.accounts.lookup id with
  | none => (.errors, dir)
  | some account =>
      if inserted.all acceptsValues then
        let account' : Account :=
          { displayName := displayName.getD account.displayName
            attributes := insertAttributes account.attributes inserted }
        (.data (), { dir with accounts := dir.accounts.insert id account' })
      else (.errors, dir)

/-- `createGroup(name: $name)`. -/
def createGroup (name : String) (dir : Directory) : Reply ℤ × Directory :=
  if hname : name ∈ dir.groups.map Group.displayName then (.duplicate, dir)
  else
    (.data dir.nextGroupId,
      { dir with
        groups := ⟨dir.nextGroupId, name, []⟩ :: dir.groups
        nextGroupId := dir.nextGroupId + 1
        names_nodup := List.nodup_cons.mpr ⟨hname, dir.names_nodup⟩
        ids_nodup := by
          refine List.nodup_cons.mpr ⟨fun h => ?_, dir.ids_nodup⟩
          obtain ⟨g, hg, hid⟩ := List.mem_map.mp h
          exact absurd (dir.ids_lt g hg) (by rw [hid]; exact lt_irrefl _)
        ids_lt := by
          rintro g (_ | ⟨_, hg⟩)
          · exact lt_add_one _
          · exact (dir.ids_lt g hg).trans (lt_add_one _) })

/-- `deleteGroup(groupId: $id)`. -/
def deleteGroup (id : ℤ) (dir : Directory) : Reply Unit × Directory :=
  if dir.groups.any (·.id == id) then
    (.data (),
      { dir with
        groups := dir.groups.filter (·.id != id)
        names_nodup := (List.filter_sublist.map _).nodup dir.names_nodup
        ids_nodup := (List.filter_sublist.map _).nodup dir.ids_nodup
        ids_lt := fun g hg => dir.ids_lt g (List.mem_of_mem_filter hg) })
  else (.errors, dir)

/-- Change the members of one group. -/
def changeMembers (dir : Directory) (id : ℤ) (change : List String → List String) :
    Directory :=
  let changed (g : Group) : Group :=
    if g.id = id then { g with members := change g.members } else g
  have hname : Group.displayName ∘ changed = Group.displayName := by
    funext g
    simp only [Function.comp, changed]
    split_ifs <;> rfl
  have hid : Group.id ∘ changed = Group.id := by
    funext g
    simp only [Function.comp, changed]
    split_ifs <;> rfl
  { dir with
    groups := dir.groups.map changed
    names_nodup := by rw [List.map_map, hname]; exact dir.names_nodup
    ids_nodup := by rw [List.map_map, hid]; exact dir.ids_nodup
    ids_lt := by
      intro g hg
      obtain ⟨g', hg', rfl⟩ := List.mem_map.mp hg
      rw [← Function.comp_apply (f := Group.id), hid]
      exact dir.ids_lt g' hg' }

/-- `addUserToGroup(userId: $userId, groupId: $groupId)`. -/
def addUserToGroup (username : String) (id : ℤ) (dir : Directory) :
    Reply Unit × Directory :=
  match dir.group id with
  | none => (.errors, dir)
  | some g =>
      if username ∈ dir.accounts then
        if username ∈ g.members then (.duplicate, dir)
        else (.data (), dir.changeMembers id (username :: ·))
      else (.errors, dir)

/-- `removeUserFromGroup(userId: $userId, groupId: $groupId)`. -/
def removeUserFromGroup (username : String) (id : ℤ) (dir : Directory) :
    Reply Unit × Directory :=
  match dir.group id with
  | none => (.errors, dir)
  | some _ => (.data (), dir.changeMembers id (·.filter (· != username)))

theorem mem_changeMembers_iff (dir : Directory) (id : ℤ)
    (change : List String → List String) (g' : Group) :
    g' ∈ (dir.changeMembers id change).groups ↔ ∃ g ∈ dir.groups,
      g' = if g.id = id then { g with members := change g.members } else g := by
  simp only [changeMembers, List.mem_map, eq_comm]

/-- The group of the id after its members changed. -/
theorem group_changeMembers {dir : Directory} {id : ℤ} {g : Group}
    (hgroup : dir.group id = some g) (change : List String → List String) :
    (dir.changeMembers id change).group id = some { g with members := change g.members } := by
  have hid : g.id = id := by simpa using List.find?_some hgroup
  unfold group changeMembers at *
  rw [List.find?_map]
  have hcomp : ((fun g : Group => g.id == id) ∘ fun g : Group =>
      if g.id = id then { g with members := change g.members } else g) =
      fun g : Group => g.id == id := by
    funext g'
    simp only [Function.comp]
    split_ifs <;> rfl
  rw [hcomp, hgroup, Option.map_some, if_pos hid]

theorem groups_createUser (username name : String) (dir : Directory) :
    (createUser username name dir).2.groups = dir.groups := by
  unfold createUser
  split_ifs <;> rfl

theorem groups_updateUser (username : String) (name : Option String)
    (inserted : List (String × List String)) (dir : Directory) :
    (updateUser username name inserted dir).2.groups = dir.groups := by
  unfold updateUser
  split
  · rfl
  · split_ifs <;> rfl

/-- A change of the members that does not concern an account. -/
theorem isMember_changeMembers_iff {dir : Directory} {id : ℤ}
    {change : List String → List String} {v : String}
    (hchange : ∀ members, v ∈ change members ↔ v ∈ members) (group : String) :
    (dir.changeMembers id change).IsMember v group ↔ dir.IsMember v group := by
  constructor
  · rintro ⟨g', hg', hname, hv⟩
    obtain ⟨g, hg, rfl⟩ := (mem_changeMembers_iff _ _ _ _).mp hg'
    split_ifs at hname hv with hid
    · exact ⟨g, hg, hname, (hchange _).mp hv⟩
    · exact ⟨g, hg, hname, hv⟩
  · rintro ⟨g, hg, hname, hv⟩
    refine ⟨_, (mem_changeMembers_iff _ _ _ _).mpr ⟨g, hg, rfl⟩, ?_, ?_⟩
    · split_ifs <;> exact hname
    · split_ifs
      · exact (hchange _).mpr hv
      · exact hv

theorem isMember_addUserToGroup_of_ne {username v : String} (hne : v ≠ username) (id : ℤ)
    (dir : Directory) (group : String) :
    (addUserToGroup username id dir).2.IsMember v group ↔ dir.IsMember v group := by
  unfold addUserToGroup
  split
  · rfl
  · split_ifs
    · rfl
    · exact isMember_changeMembers_iff (fun members => by simp [hne]) group
    · rfl

theorem isMember_removeUserFromGroup_of_ne {username v : String} (hne : v ≠ username)
    (id : ℤ) (dir : Directory) (group : String) :
    (removeUserFromGroup username id dir).2.IsMember v group ↔ dir.IsMember v group := by
  unfold removeUserFromGroup
  split
  · rfl
  · exact isMember_changeMembers_iff (fun members => by simp [hne]) group

theorem isMember_createGroup_iff (name : String) (dir : Directory) (v group : String) :
    (createGroup name dir).2.IsMember v group ↔ dir.IsMember v group := by
  unfold createGroup
  split_ifs
  · rfl
  · constructor
    · rintro ⟨g, _ | ⟨_, hg⟩, hname, hv⟩
      · cases hv
      · exact ⟨g, hg, hname, hv⟩
    · rintro ⟨g, hg, hname, hv⟩
      exact ⟨g, List.mem_cons_of_mem _ hg, hname, hv⟩

theorem accounts_addUserToGroup (username : String) (id : ℤ) (dir : Directory) :
    (addUserToGroup username id dir).2.accounts = dir.accounts := by
  unfold addUserToGroup
  split
  · rfl
  · split_ifs <;> rfl

theorem accounts_removeUserFromGroup (username : String) (id : ℤ) (dir : Directory) :
    (removeUserFromGroup username id dir).2.accounts = dir.accounts := by
  unfold removeUserFromGroup
  split <;> rfl

theorem accounts_createGroup (name : String) (dir : Directory) :
    (createGroup name dir).2.accounts = dir.accounts := by
  unfold createGroup
  split_ifs <;> rfl

theorem accounts_deleteGroup (id : ℤ) (dir : Directory) :
    (deleteGroup id dir).2.accounts = dir.accounts := by
  unfold deleteGroup
  split_ifs <;> rfl

theorem lookup_createUser_of_ne {username v : String} (hne : v ≠ username) (name : String)
    (dir : Directory) :
    (createUser username name dir).2.accounts.lookup v = dir.accounts.lookup v := by
  unfold createUser
  split_ifs
  · rfl
  · exact AList.lookup_insert_ne hne

theorem lookup_updateUser_of_ne {username v : String} (hne : v ≠ username)
    (name : Option String) (inserted : List (String × List String)) (dir : Directory) :
    (updateUser username name inserted dir).2.accounts.lookup v = dir.accounts.lookup v := by
  unfold updateUser
  split
  · rfl
  · split_ifs
    · exact AList.lookup_insert_ne hne
    · rfl

/-! ## What a mutation does to one account -/

/-- The state of an existing account after its attributes were sent. -/
theorem updateUser_of_accepts {username : String} {name : Option String}
    {inserted : List (String × List String)} {dir : Directory} {account : Account}
    (haccount : dir.accounts.lookup username = some account)
    (haccepts : inserted.all acceptsValues) :
    updateUser username name inserted dir = (.data (), { dir with
      accounts := dir.accounts.insert username
        { displayName := name.getD account.displayName
          attributes := insertAttributes account.attributes inserted } }) := by
  simp only [updateUser, haccount, haccepts, if_true]

theorem updateUser_of_rejects {username : String} {name : Option String}
    {inserted : List (String × List String)} {dir : Directory}
    (hrejects : ¬ inserted.all acceptsValues) :
    updateUser username name inserted dir = (.errors, dir) := by
  unfold updateUser
  split
  · rfl
  · rw [if_neg hrejects]

theorem updateUser_of_unknown {username : String} (name : Option String)
    (inserted : List (String × List String)) {dir : Directory}
    (hunknown : dir.accounts.lookup username = none) :
    updateUser username name inserted dir = (.errors, dir) := by
  simp only [updateUser, hunknown]

theorem attributesOf_updateUser {username : String} {name : Option String}
    {inserted : List (String × List String)} {dir : Directory} {account : Account}
    (haccount : dir.accounts.lookup username = some account)
    (haccepts : inserted.all acceptsValues) :
    (updateUser username name inserted dir).2.attributesOf username =
      some (parseAttributes (insertAttributes account.attributes inserted)) := by
  rw [updateUser_of_accepts haccount haccepts, attributesOf]
  dsimp only
  rw [AList.lookup_insert]
  rfl

theorem mem_accounts_updateUser_iff (username : String) (name : Option String)
    (inserted : List (String × List String)) (dir : Directory) (v : String) :
    v ∈ (updateUser username name inserted dir).2.accounts ↔ v ∈ dir.accounts := by
  unfold updateUser
  split
  · rfl
  · next account haccount =>
      split_ifs
      · simp only [AList.mem_insert]
        refine or_iff_right_of_imp ?_
        rintro rfl
        exact AList.lookup_isSome.mp (by rw [haccount]; rfl)
      · rfl

/-- A group that is listed under an id. -/
theorem group_of_mem_groupNames {dir : Directory} {gid : ℤ} {name : String}
    (hlisted : (gid, name) ∈ dir.groupNames) :
    ∃ g, dir.group gid = some g ∧ g ∈ dir.groups ∧ g.displayName = name := by
  obtain ⟨g, hg, hpair⟩ := List.mem_map.mp hlisted
  obtain ⟨rfl, rfl⟩ := Prod.mk.inj hpair
  cases hfound : dir.group g.id with
  | none =>
      have hnone := List.find?_eq_none.mp hfound g hg
      exact absurd (beq_self_eq_true g.id) hnone
  | some g' =>
      have hid : g'.id = g.id := by simpa using List.find?_some hfound
      have hsame : g' = g := List.inj_on_of_nodup_map dir.ids_nodup
        (List.mem_of_find?_eq_some hfound) hg hid
      exact ⟨g', rfl, hsame ▸ hg, by rw [hsame]⟩

/-- A member of a group is one of its only group of that name. -/
theorem mem_members_of_isMember {dir : Directory} {username : String} {g : Group}
    (hg : g ∈ dir.groups) (hmember : dir.IsMember username g.displayName) :
    username ∈ g.members := by
  obtain ⟨g', hg', hname, hmember⟩ := hmember
  have hsame : g' = g := List.inj_on_of_nodup_map dir.names_nodup hg' hg hname
  exact hsame ▸ hmember

/-- Who is a member already is not added. -/
theorem addUserToGroup_of_isMember {dir : Directory} {username name : String} {gid : ℤ}
    (huser : username ∈ dir.accounts) (hlisted : (gid, name) ∈ dir.groupNames)
    (hmember : dir.IsMember username name) :
    addUserToGroup username gid dir = (.duplicate, dir) := by
  obtain ⟨g, hgroup, hg, rfl⟩ := group_of_mem_groupNames hlisted
  have hmem := mem_members_of_isMember hg hmember
  simp only [addUserToGroup, hgroup, huser, hmem, if_true]

/-- An existing account becomes a member of a listed group. -/
theorem isMember_addUserToGroup_self {dir : Directory} {username name : String} {gid : ℤ}
    (huser : username ∈ dir.accounts) (hlisted : (gid, name) ∈ dir.groupNames) :
    (addUserToGroup username gid dir).2.IsMember username name ∧
      ((addUserToGroup username gid dir).1 = .data () ∨
        (addUserToGroup username gid dir).1 = .duplicate) := by
  obtain ⟨g, hgroup, hg, rfl⟩ := group_of_mem_groupNames hlisted
  by_cases hmem : username ∈ g.members
  · simp only [addUserToGroup, hgroup, huser, hmem, if_true]
    exact ⟨⟨g, hg, rfl, hmem⟩, by simp⟩
  · simp only [addUserToGroup, hgroup, huser, hmem, if_true, if_false]
    refine ⟨⟨_, (mem_changeMembers_iff _ _ _ _).mpr ⟨g, hg, rfl⟩, ?_⟩, by simp⟩
    have hid : g.id = gid := by simpa using List.find?_some hgroup
    rw [if_pos hid]
    exact ⟨rfl, List.mem_cons_self⟩

/-- Adding takes nobody out. -/
theorem isMember_addUserToGroup_of_isMember {dir : Directory} (username : String) (gid : ℤ)
    {v group : String} (hmember : dir.IsMember v group) :
    (addUserToGroup username gid dir).2.IsMember v group := by
  unfold addUserToGroup
  split
  · exact hmember
  · split_ifs
    · exact hmember
    · obtain ⟨g, hg, rfl, hv⟩ := hmember
      refine ⟨_, (mem_changeMembers_iff _ _ _ _).mpr ⟨g, hg, rfl⟩, ?_⟩
      split_ifs
      · exact ⟨rfl, List.mem_cons_of_mem _ hv⟩
      · exact ⟨rfl, hv⟩
    · exact hmember

/-- Adding members leaves the names and ids of the groups alone. -/
theorem groupNames_addUserToGroup (username : String) (gid : ℤ) (dir : Directory) :
    (addUserToGroup username gid dir).2.groupNames = dir.groupNames := by
  unfold addUserToGroup
  split
  · rfl
  · split_ifs
    · rfl
    · simp only [groupNames, changeMembers, List.map_map]
      refine List.map_congr_left fun g _ => ?_
      simp only [Function.comp]
      split_ifs <;> rfl
    · rfl

/-- A new group is listed besides the others. -/
theorem groupNames_createGroup {name : String} {dir : Directory}
    (hnew : name ∉ dir.groups.map Group.displayName) :
    (createGroup name dir).1 = .data dir.nextGroupId ∧
      (createGroup name dir).2.groupNames = (dir.nextGroupId, name) :: dir.groupNames := by
  rw [createGroup, dif_neg hnew]
  exact ⟨rfl, rfl⟩

/-- The members of a group are members of a listed one. -/
theorem mem_names_of_isMember {dir : Directory} {v group : String}
    (hmember : dir.IsMember v group) : group ∈ dir.groupNames.map Prod.snd := by
  obtain ⟨g, hg, rfl, -⟩ := hmember
  exact List.mem_map.mpr ⟨_, List.mem_map.mpr ⟨g, hg, rfl⟩, rfl⟩

theorem groupNames_snd (dir : Directory) :
    dir.groupNames.map Prod.snd = dir.groups.map Group.displayName := by
  rw [groupNames, List.map_map]
  rfl

/-- Membership only depends on the groups. -/
theorem isMember_congr {dir dir' : Directory} (hgroups : dir'.groups = dir.groups)
    (v group : String) : dir'.IsMember v group ↔ dir.IsMember v group := by
  unfold IsMember
  rw [hgroups]

theorem names_changeMembers (dir : Directory) (id : ℤ)
    (change : List String → List String) :
    (dir.changeMembers id change).groups.map Group.displayName =
      dir.groups.map Group.displayName := by
  simp only [changeMembers, List.map_map]
  refine List.map_congr_left fun g _ => ?_
  simp only [Function.comp]
  split_ifs <;> rfl

theorem names_addUserToGroup (username : String) (id : ℤ) (dir : Directory) :
    (addUserToGroup username id dir).2.groups.map Group.displayName =
      dir.groups.map Group.displayName := by
  unfold addUserToGroup
  split
  · rfl
  · split_ifs
    · rfl
    · exact names_changeMembers dir id _
    · rfl

/-- Adding an account changes one membership. -/
theorem isMember_of_addUserToGroup {username : String} {id : ℤ} {dir : Directory}
    {v group : String}
    (hmember : (addUserToGroup username id dir).2.IsMember v group) :
    dir.IsMember v group ∨
      v = username ∧ ∃ g ∈ dir.groups, g.id = id ∧ g.displayName = group := by
  unfold addUserToGroup at hmember
  split at hmember
  · exact Or.inl hmember
  · split_ifs at hmember
    · exact Or.inl hmember
    · obtain ⟨g', hg', hname, hv⟩ := hmember
      obtain ⟨g, hg, rfl⟩ := (mem_changeMembers_iff _ _ _ _).mp hg'
      split_ifs at hname hv with hid
      · rcases List.mem_cons.mp hv with rfl | hv
        · exact Or.inr ⟨rfl, g, hg, hid, hname⟩
        · exact Or.inl ⟨g, hg, hname, hv⟩
      · exact Or.inl ⟨g, hg, hname, hv⟩
    · exact Or.inl hmember

theorem isMember_of_removeUserFromGroup {username : String} {id : ℤ}
    {dir : Directory} {v group : String}
    (hmember : (removeUserFromGroup username id dir).2.IsMember v group) :
    dir.IsMember v group := by
  unfold removeUserFromGroup at hmember
  split at hmember
  · exact hmember
  · obtain ⟨g', hg', hname, hv⟩ := hmember
    obtain ⟨g, hg, rfl⟩ := (mem_changeMembers_iff _ _ _ _).mp hg'
    split_ifs at hname hv
    · exact ⟨g, hg, hname, List.mem_of_mem_filter hv⟩
    · exact ⟨g, hg, hname, hv⟩

theorem isMember_of_deleteGroup {id : ℤ} {dir : Directory} {v group : String}
    (hmember : (deleteGroup id dir).2.IsMember v group) : dir.IsMember v group := by
  unfold deleteGroup at hmember
  split_ifs at hmember
  · obtain ⟨g, hg, hname, hv⟩ := hmember
    exact ⟨g, List.mem_of_mem_filter hg, hname, hv⟩
  · exact hmember

end Directory

end FastTAK.Identity
