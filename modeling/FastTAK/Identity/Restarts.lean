import FastTAK.Identity.Bootstrap

/-!
# Restarts of the bootstrap

A run that completes leaves everything in place, whatever earlier runs left behind, and no run
touches an account but its own.
-/

namespace FastTAK.Identity.Bootstrap

open FastTAK.Effect FastTAK.Effect.Call

/-! ## What a run leaves -/

/-- The values of an attribute of an account. -/
def Server.attribute (s : Server) (id name : String) : Option (List String) :=
  (s.dir.accounts.lookup id).bind fun account => account.attributes.lookup name

/-- Everything that a bootstrap should leave. -/
structure Bootstrapped (config : Config) (s : Server) : Prop where
  groups : ∀ name ∈ config.defaultGroups, name ∈ s.dir.groupNames.map Prod.snd
  schemas : ∀ schema ∈ customAttributes, schema.1 ∈ s.schemas.map Prod.fst
  webadmin : config.webadminPass ≠ "" → "webadmin" ∈ s.dir.accounts ∧
    s.attribute "webadmin" "fastak_user_type" = some ["user"] ∧
    ∀ name ∈ config.defaultGroups, s.dir.IsMember "webadmin" name
  service : "svc_fasttakapi" ∈ s.dir.accounts ∧
    s.attribute "svc_fasttakapi" "fastak_user_type" = some ["svc_admin"]

/-- The accounts that a bootstrap looks after. -/
def Config.ownAccounts (config : Config) : List String :=
  if config.webadminPass ≠ "" then ["webadmin", "svc_fasttakapi"] else ["svc_fasttakapi"]

/-- Nothing goes away, and accounts that are not among `own` stay as they are, with their
attributes, their groups and their passwords. -/
structure Grown (own : List String) (s s' : Server) : Prop where
  others : ∀ id ∉ own, s'.dir.user id = s.dir.user id ∧
    s'.passwords.lookup id = s.passwords.lookup id
  accounts : ∀ id ∈ s.dir.accounts, id ∈ s'.dir.accounts
  groups : ∀ group ∈ s.dir.groupNames, group ∈ s'.dir.groupNames
  members : ∀ id name, s.dir.IsMember id name → s'.dir.IsMember id name
  schemas : ∀ schema ∈ s.schemas, schema ∈ s'.schemas

/-! ## Relations that runs keep -/

def OnServer (R : Server → Server → Prop) (w w' : World) : Prop := R w.server w'.server

theorem Grown.refl (own : List String) (s : Server) : Grown own s s :=
  ⟨fun _ _ => ⟨rfl, rfl⟩, fun _ h => h, fun _ h => h, fun _ _ h => h, fun _ h => h⟩

theorem Grown.trans {own : List String} {s s' s'' : Server} (h : Grown own s s')
    (h' : Grown own s' s'') : Grown own s s'' where
  others id hid := ⟨(h'.others id hid).1.trans (h.others id hid).1,
    (h'.others id hid).2.trans (h.others id hid).2⟩
  accounts id hid := h'.accounts id (h.accounts id hid)
  groups group hgroup := h'.groups group (h.groups group hgroup)
  members id name hmember := h'.members id name (h.members id name hmember)
  schemas schema hschema := h'.schemas schema (h.schemas schema hschema)

instance (own : List String) : IsPreorder World (OnServer (Grown own)) where
  refl w := Grown.refl own w.server
  trans _ _ _ h h' := Grown.trans h h'

section Requests

variable {lldap : Lldap} {α : Type} {R : Server → Server → Prop}
  [IsPreorder World (OnServer R)] {request : Server → Answer α × Server}

theorem keeps_send (hrequest : ∀ s, R s (request s).2) :
    Keeps (OnServer R) (send lldap request) := by
  intro w
  have hafter : ∀ took, OnServer R w (w.after (request w.server).2 took) := by
    intro took
    cases took with
    | true => exact hrequest w.server
    | false => exact refl_of (OnServer R) w
  rw [send]
  cases nextVerdict w.verdicts with
  | runs => exact hafter true
  | fails done => exact hafter (0 < done)
  | raises done => exact hafter (0 < done)

theorem keeps_graphql (hrequest : ∀ s, R s (request s).2) :
    Keeps (OnServer R) (graphql lldap request) := by
  apply keeps_bind (keeps_send hrequest)
  intro answer
  cases answer with
  | data value => exact keeps_pure _
  | errors text =>
      dsimp only
      split_ifs
      · exact keeps_pure _
      · exact keeps_raise _

theorem keeps_exceptRuntime {run : Run α} {handler : List Char → Run α}
    (hrun : Keeps (OnServer R) run) (hhandler : ∀ message, Keeps (OnServer R) (handler message)) :
    Keeps (OnServer R) (exceptRuntime run handler) := by
  apply keeps_tryExcept hrun
  intro e
  cases e with
  | runtime message => exact hhandler message
  | other => exact keeps_raise _

omit [IsPreorder World (OnServer R)] in
/-- A request that `graphql` returned from was answered, with data or with what means that it is
there. -/
theorem graphql_eq_ok {w w' : World} {found : Option α}
    (h : graphql lldap request w = (.ok found, w')) :
    w'.server = (request w.server).2 ∧
      ((∃ value, (request w.server).1 = .data value ∧ found = some value) ∨
        ∃ text, (request w.server).1 = .errors text ∧ meansTaken text ∧ found = none) := by
  obtain ⟨answer, w₁, hsend, h⟩ := bind_eq_ok h
  rw [send] at hsend
  cases hverdict : nextVerdict w.verdicts with
  | runs =>
      rw [hverdict, Prod.mk.injEq, Except.ok.injEq] at hsend
      obtain ⟨rfl, rfl⟩ := hsend
      cases hanswer : (request w.server).1 with
      | data value =>
          rw [hanswer, pure_eq_ok] at h
          exact ⟨by rw [← h.2]; rfl, Or.inl ⟨value, rfl, h.1.symm⟩⟩
      | errors text =>
          rw [hanswer] at h
          dsimp only at h
          split_ifs at h with htaken
          · rw [pure_eq_ok] at h
            exact ⟨by rw [← h.2]; rfl, Or.inr ⟨text, rfl, htaken, h.1.symm⟩⟩
          · cases h
  | fails done =>
      rw [hverdict, Prod.mk.injEq, Except.ok.injEq] at hsend
      obtain ⟨rfl, rfl⟩ := hsend
      dsimp only at h
      rw [if_neg (by rw [lldap.refused_means]; exact Bool.false_ne_true)] at h
      cases h
  | raises done =>
      rw [hverdict] at hsend
      cases hsend

end Requests

/-- A word does not begin in front of a text if it is not what stands there. -/
theorem infix_append_iff {word front : List Char}
    (h : ∀ k < front.length, word.take (front.length - k) ≠ (front.drop k).take word.length)
    (text : List Char) : word <:+: front ++ text ↔ word <:+: text := by
  induction front with
  | nil => rfl
  | cons c front ih =>
      have hrest := ih fun k hk => by
        have hlater := h (k + 1) (Nat.succ_lt_succ hk)
        rwa [List.length_cons, Nat.add_sub_add_right, List.drop_succ_cons] at hlater
      rw [List.cons_append, List.infix_cons_iff, hrest]
      apply or_iff_right
      intro hword
      apply h 0 (Nat.succ_pos _)
      rw [List.drop_zero, Nat.sub_zero]
      have hfront : c :: front <+: c :: (front ++ text) := List.prefix_append (c :: front) text
      rcases List.prefix_or_prefix_of_prefix hword hfront with hbegins | hbegins
      · rw [← List.prefix_iff_eq_take.mp hbegins, List.take_of_length_le hbegins.length_le]
      · rw [← List.prefix_iff_eq_take.mp hbegins, List.take_of_length_le hbegins.length_le]

theorem meansTaken_iff (text : List Char) : meansTaken text ↔
    "already exists".toList <:+: text.map Char.toLower ∨
      "duplicate".toList <:+: text.map Char.toLower := by
  unfold meansTaken
  rw [Bool.or_eq_true, decide_eq_true_eq, decide_eq_true_eq]

/-- The text before an error means nothing by itself. -/
theorem meansTaken_errorMessage (text : List Char) :
    meansTaken (errorMessage text) = meansTaken text := by
  have hexists : ∀ lower : List Char, "already exists".toList <:+:
      "GraphQL error: ".toList.map Char.toLower ++ lower ↔ "already exists".toList <:+: lower :=
    infix_append_iff (by decide +kernel)
  have hduplicate : ∀ lower : List Char, "duplicate".toList <:+:
      "GraphQL error: ".toList.map Char.toLower ++ lower ↔ "duplicate".toList <:+: lower :=
    infix_append_iff (by decide +kernel)
  rw [Bool.eq_iff_iff, meansTaken_iff, meansTaken_iff]
  unfold errorMessage
  rw [List.map_append, hexists, hduplicate]

/-- An error that `graphql` raises is of another kind. -/
theorem meansTaken_of_graphql {lldap : Lldap} {α : Type} {request : Server → Answer α × Server}
    {w w' : World} {message : List Char}
    (h : graphql lldap request w = (.error (.runtime message), w')) : meansTaken message = false := by
  rw [graphql, bind_apply] at h
  cases hsend : send lldap request w with
  | mk result w₁ =>
      rw [hsend] at h
      cases result with
      | error e =>
          -- A request that raises does not raise a `RuntimeError`.
          rw [send] at hsend
          cases hverdict : nextVerdict w.verdicts with
          | runs =>
              rw [hverdict] at hsend
              cases hsend
          | fails done =>
              rw [hverdict] at hsend
              cases hsend
          | raises done =>
              rw [hverdict] at hsend
              obtain rfl := Except.error.inj (Prod.mk.inj hsend).1
              cases h
      | ok answer =>
          cases answer with
          | data value => cases h
          | errors text =>
              dsimp only at h
              split_ifs at h with htaken
              · cases h
              · rw [raise_apply, Prod.mk.injEq, Except.error.injEq, Exn.runtime.injEq] at h
                rw [← h.1, meansTaken_errorMessage]
                exact Bool.eq_false_iff.mpr htaken

/-! ## Requests to the directory -/

section Directory

variable {lldap : Lldap} {config : Config} {own : List String} {s s' : Server} {id name : String}

/-- The groups that a query shows of an account. -/
def groupsOf (dir : Directory) (id : String) : List (ℤ × String) :=
  (dir.groups.filter (id ∈ ·.members)).map fun g => (g.id, g.displayName)

theorem user_congr {dir dir' : Directory}
    (hlookup : dir'.accounts.lookup id = dir.accounts.lookup id)
    (hgroups : groupsOf dir' id = groupsOf dir id) :
    dir'.user id = dir.user id := by
  rw [Directory.user, Directory.user, hlookup]
  cases dir.accounts.lookup id with
  | none => rfl
  | some account =>
      rw [groupsOf, groupsOf] at hgroups
      rw [Option.map_some, Option.map_some, Directory.view, Directory.view, hgroups]

/-- The groups of an account are not those of which other members change. -/
theorem groupsOf_changeMembers (dir : Directory) (gid : ℤ) {change : List String → List String}
    (hchange : ∀ members, id ∈ change members ↔ id ∈ members) :
    groupsOf (dir.changeMembers gid change) id = groupsOf dir id := by
  rw [groupsOf, groupsOf, Directory.changeMembers, List.filter_map,
    List.map_map]
  have hmember : ∀ g : Group, id ∈ (if g.id = gid then
      { g with members := change g.members } else g).members ↔ id ∈ g.members := by
    intro g
    split_ifs
    · exact hchange g.members
    · rfl
  have hpair : ∀ g : Group, ((if g.id = gid then { g with members := change g.members }
      else g).id, (if g.id = gid then { g with members := change g.members } else g).displayName) =
      (g.id, g.displayName) := by
    intro g
    split_ifs <;> rfl
  simp only [Function.comp_def, hmember, hpair]

theorem groupsOf_createGroup (name id : String) (dir : Directory) :
    groupsOf (dir.createGroup name).2 id = groupsOf dir id := by
  rw [Directory.createGroup]
  split_ifs
  · rfl
  · rw [groupsOf, List.filter_cons_of_neg]
    · rfl
    · simp

theorem groupsOf_addUserToGroup {member : String} (hne : id ≠ member) (gid : ℤ)
    (dir : Directory) :
    groupsOf (dir.addUserToGroup member gid).2 id = groupsOf dir id := by
  rw [Directory.addUserToGroup]
  cases dir.group gid with
  | none => rfl
  | some g =>
      dsimp only
      split_ifs
      · rfl
      · exact groupsOf_changeMembers dir gid fun members => by simp [hne]
      · rfl

theorem grown_onDirectory {β : Type} {request : Directory → Directory.Reply β × Directory}
    (hrequest : Grown own s { s with dir := (request s.dir).2 }) :
    Grown own s (s.onDirectory lldap request).2 := by
  rw [Server.onDirectory]
  cases (request s.dir).1 with
  | data value => exact hrequest
  | duplicate => exact hrequest
  | errors => exact hrequest

theorem grown_createGroup (name : String) (s : Server) :
    Grown own s (s.createGroup lldap name).2 := by
  apply grown_onDirectory
  have haccounts := Directory.accounts_createGroup name s.dir
  constructor
  · intro id _
    exact ⟨user_congr (by rw [haccounts]) (groupsOf_createGroup name id s.dir), rfl⟩
  · rw [haccounts]
    exact fun _ h => h
  · intro group hgroup
    change group ∈ (s.dir.createGroup name).2.groupNames
    by_cases hname : name ∈ s.dir.groups.map Group.displayName
    · rw [Directory.createGroup, dif_pos hname]
      exact hgroup
    · rw [(Directory.groupNames_createGroup hname).2]
      exact List.mem_cons_of_mem _ hgroup
  · exact fun id group => (Directory.isMember_createGroup_iff name s.dir id group).mpr
  · exact fun _ h => h

theorem grown_addUserToGroup (hid : id ∈ own) (gid : ℤ) (s : Server) :
    Grown own s (s.addUserToGroup lldap id gid).2 := by
  apply grown_onDirectory
  have haccounts := Directory.accounts_addUserToGroup id gid s.dir
  constructor
  · intro other hother
    have hne : other ≠ id := fun h => hother (h ▸ hid)
    exact ⟨user_congr (by rw [haccounts]) (groupsOf_addUserToGroup hne gid s.dir), rfl⟩
  · rw [haccounts]
    exact fun _ h => h
  · rw [Directory.groupNames_addUserToGroup]
    exact fun _ h => h
  · exact fun _ _ => Directory.isMember_addUserToGroup_of_isMember id gid
  · exact fun _ h => h

theorem grown_createUser (hid : id ∈ own) (displayName email : String) (s : Server) :
    Grown own s (s.createUser lldap id displayName email).2 := by
  rw [Server.createUser]
  split_ifs
  · exact Grown.refl own s
  · have hgroups := Directory.groups_createUser id displayName s.dir
    constructor
    · intro other hother
      have hne : other ≠ id := fun h => hother (h ▸ hid)
      refine ⟨user_congr (Directory.lookup_createUser_of_ne hne displayName s.dir) ?_, rfl⟩
      rw [groupsOf, groupsOf, hgroups]
    · intro other hother
      change other ∈ (s.dir.createUser id displayName).2.accounts
      rw [Directory.createUser]
      split_ifs
      · exact hother
      · exact (AList.mem_insert _).mpr (Or.inr hother)
    · rw [Directory.groupNames, Directory.groupNames, hgroups]
      exact fun _ h => h
    · exact fun other group => (Directory.isMember_congr hgroups other group).mpr
    · exact fun _ h => h

theorem grown_updateUser (hid : id ∈ own) (name value : String) (s : Server) :
    Grown own s (s.updateUser lldap id name value).2 := by
  rw [Server.updateUser]
  split_ifs
  · apply grown_onDirectory
    have hgroups := Directory.groups_updateUser id none [(name, [value])] s.dir
    constructor
    · intro other hother
      have hne : other ≠ id := fun h => hother (h ▸ hid)
      refine ⟨user_congr (Directory.lookup_updateUser_of_ne hne none _ s.dir) ?_, rfl⟩
      rw [groupsOf, groupsOf, hgroups]
    · exact fun other => (Directory.mem_accounts_updateUser_iff id none _ s.dir other).mpr
    · rw [Directory.groupNames, Directory.groupNames, hgroups]
      exact fun _ h => h
    · exact fun other group => (Directory.isMember_congr hgroups other group).mpr
    · exact fun _ h => h
  · exact Grown.refl own s

theorem grown_addUserAttribute (name type : String) (s : Server) :
    Grown own s (s.addUserAttribute lldap name type).2 := by
  rw [Server.addUserAttribute]
  split_ifs
  · exact Grown.refl own s
  · exact ⟨fun _ _ => ⟨rfl, rfl⟩, fun _ h => h, fun _ h => h, fun _ _ h => h,
      fun _ h => List.mem_cons_of_mem _ h⟩

theorem grown_user (id : String) (s : Server) : Grown own s (s.user lldap id).2 := by
  rw [Server.user]
  cases s.dir.user id with
  | none => exact Grown.refl own s
  | some view => exact Grown.refl own s

end Directory

/-! ## No step takes anything away -/

section Steps

variable {lldap : Lldap} {config : Config} {own : List String} {id : String}

theorem keeps_forList {α : Type} {R : World → World → Prop} [IsPreorder World R]
    {body : α → Run Unit} {items : List α} (hbody : ∀ x ∈ items, Keeps R (body x)) :
    Keeps R (forList body items) := by
  induction items with
  | nil => exact keeps_pure ()
  | cons x items ih =>
      apply keeps_bind (hbody x List.mem_cons_self)
      exact fun _ => ih fun y hy => hbody y (List.mem_cons_of_mem _ hy)

theorem keeps_mapList {α β : Type} {R : World → World → Prop} [IsPreorder World R]
    {body : α → Run β} {items : List α} (hbody : ∀ x ∈ items, Keeps R (body x)) :
    Keeps R (mapList body items) := by
  induction items with
  | nil => exact keeps_pure []
  | cons x items ih =>
      apply keeps_bind (hbody x List.mem_cons_self)
      intro y
      apply keeps_bind (ih fun y hy => hbody y (List.mem_cons_of_mem _ hy))
      exact fun ys => keeps_pure _

theorem keeps_groupId {R : World → World → Prop} [IsPreorder World R]
    (groupIds : List (String × ℤ)) (name : String) : Keeps R (groupId groupIds name) := by
  rw [groupId]
  cases groupIds.reverse.lookup name with
  | none => exact keeps_raise _
  | some gid => exact keeps_pure gid

section Kept

variable {R : Server → Server → Prop} [IsPreorder World (OnServer R)]

theorem keeps_lldapLogin (n : ℕ) : Keeps (OnServer R) (lldapLogin lldap n) := by
  induction n with
  | zero => exact keeps_raise _
  | succ n ih =>
      apply keeps_tryExcept
      · have hself : ∀ s, R s s := fun s => refl_of (OnServer R) ⟨s, [], 0⟩
        apply keeps_bind (keeps_send hself)
        intro answer
        cases answer with
        | data value => exact keeps_pure _
        | errors text => exact keeps_raise _
      · exact fun _ => ih

theorem keeps_ensureAttribute {schema : String × String}
    (hadd : ∀ s, R s (Server.addUserAttribute lldap schema.1 schema.2 s).2) :
    Keeps (OnServer R) (ensureAttribute lldap schema) := by
  apply keeps_exceptRuntime
  · exact keeps_bind (keeps_graphql hadd) fun _ => keeps_pure ()
  · intro message
    split_ifs
    · exact keeps_pure ()
    · exact keeps_raise _

theorem keeps_ensureGroup {name : String} (hcreate : ∀ s, R s (Server.createGroup lldap name s).2) :
    Keeps (OnServer R) (ensureGroup lldap name) := by
  have hself : ∀ s, R s s := fun s => refl_of (OnServer R) ⟨s, [], 0⟩
  apply keeps_bind (keeps_graphql hself)
  intro listed
  cases (listed.getD []).find? fun group => group.2 = name with
  | some group => exact keeps_pure _
  | none =>
      apply keeps_bind (keeps_graphql hcreate)
      intro created
      cases created with
      | some gid => exact keeps_pure gid
      | none => exact keeps_raise _

theorem keeps_ensureUser {username displayName : String}
    (hcreate : ∀ email s, R s (Server.createUser lldap username displayName email s).2) :
    Keeps (OnServer R) (ensureUser lldap username displayName) := by
  have hself : ∀ s, R s (Server.user lldap username s).2 := by
    intro s
    have hsame : (Server.user lldap username s).2 = s := by
      rw [Server.user]
      cases s.dir.user username <;> rfl
    rw [hsame]
    exact refl_of (OnServer R) ⟨s, [], 0⟩
  apply keeps_bind
  · exact keeps_exceptRuntime (keeps_graphql hself) fun _ => keeps_pure none
  · intro found
    cases found with
    | some view => exact keeps_pure _
    | none => exact keeps_bind (keeps_graphql (hcreate _)) fun created => keeps_pure _

theorem keeps_setPassword {username password : String}
    (hset : ∀ salt s s', Server.setPassword username (salt, password) s = some s' → R s s') :
    Keeps (OnServer R) (setPassword username password) := by
  intro w
  have hself : R w.server w.server := refl_of (OnServer R) w
  rw [setPassword]
  cases hserver : Server.setPassword username (w.salt, password) w.server with
  | none => exact hself
  | some server =>
      have hnew := hset w.salt w.server server hserver
      have hafter : ∀ took, OnServer R w (w.after server took) := by
        intro took
        cases took with
        | true => exact hnew
        | false => exact hself
      cases nextVerdict w.verdicts with
      | runs => exact hafter true
      | fails done => exact hafter (0 < done)
      | raises done => exact hafter (0 < done)

theorem keeps_setUserAttribute {username name value : String}
    (hupdate : ∀ s, R s (Server.updateUser lldap username name value s).2) :
    Keeps (OnServer R) (setUserAttribute lldap username name value) :=
  keeps_bind (keeps_graphql hupdate) fun _ => keeps_pure ()

theorem keeps_addToGroup {username : String} {gid : ℤ}
    (hadd : ∀ s, R s (Server.addUserToGroup lldap username gid s).2) :
    Keeps (OnServer R) (addToGroup lldap username gid) :=
  keeps_bind (keeps_graphql hadd) fun _ => keeps_pure ()

/-- The id that `ensure_user` returns is the one it was given. -/
theorem ensureUser_eq_ok {username displayName returned : String} {w w' : World}
    (h : ensureUser lldap username displayName w = (.ok returned, w')) : returned = username := by
  obtain ⟨found, w₁, hfound, h⟩ := bind_eq_ok h
  cases found with
  | some view =>
      rw [pure_eq_ok] at h
      rw [← h.1]
      rcases tryExcept_eq_ok hfound with hquery | ⟨e, w₂, -, hhandler⟩
      · obtain ⟨-, ⟨value, hdata, hvalue⟩ | ⟨text, -, -, hnone⟩⟩ := graphql_eq_ok hquery
        · obtain rfl := Option.some.inj hvalue
          rw [Server.user] at hdata
          cases huser : w.server.dir.user username with
          | none =>
              rw [huser] at hdata
              cases hdata
          | some other =>
              rw [huser, Answer.data.injEq] at hdata
              rw [← hdata]
              exact Directory.user_id huser
        · cases hnone
      · cases e with
        | runtime message => cases hhandler
        | other => cases hhandler
  | none =>
      obtain ⟨created, w₂, hcreate, h⟩ := bind_eq_ok h
      rw [pure_eq_ok] at h
      rw [← h.1]
      obtain ⟨-, ⟨value, hdata, hvalue⟩ | ⟨text, -, -, hnone⟩⟩ := graphql_eq_ok hcreate
      · rw [Server.createUser] at hdata
        split_ifs at hdata
        rw [Answer.data.injEq] at hdata
        rw [hvalue, ← hdata]
        rfl
      · rw [hnone]
        rfl

theorem mem_of_groupId {groupIds : List (String × ℤ)} {name : String} {gid : ℤ} {w w' : World}
    (h : groupId groupIds name w = (.ok gid, w')) : (name, gid) ∈ groupIds ∧ w' = w := by
  rw [groupId] at h
  cases hfound : groupIds.reverse.lookup name with
  | none =>
      rw [hfound] at h
      cases h
  | some found =>
      rw [hfound] at h
      rw [pure_eq_ok] at h
      obtain ⟨rfl, rfl⟩ := h
      obtain ⟨before, after, hlist, -⟩ := List.lookup_eq_some_iff.mp hfound
      rw [← List.mem_reverse, hlist]
      exact ⟨List.mem_append_right _ List.mem_cons_self, rfl⟩

theorem keeps_joinGroup {groupIds : List (String × ℤ)} {username : String}
    (hadd : ∀ pair ∈ groupIds, ∀ s, R s (Server.addUserToGroup lldap username pair.2 s).2)
    (name : String) : Keeps (OnServer R) (joinGroup lldap groupIds username name) := by
  apply keeps_bind_of (keeps_groupId (R := OnServer R) groupIds name)
  intro w gid w' hgid
  exact keeps_addToGroup (hadd _ (mem_of_groupId hgid).1) w'

/-- What a run keeps after the groups are there. -/
theorem keeps_ensureAccounts {groupIds : List (String × ℤ)}
    (hcreate : ∀ id ∈ config.ownAccounts, ∀ displayName email s,
      R s (Server.createUser lldap id displayName email s).2)
    (hset : "webadmin" ∈ config.ownAccounts → ∀ hash s s',
      Server.setPassword "webadmin" hash s = some s' → R s s')
    (hadd : "webadmin" ∈ config.ownAccounts → ∀ pair ∈ groupIds, ∀ s,
      R s (Server.addUserToGroup lldap "webadmin" pair.2 s).2)
    (hupdate : "webadmin" ∈ config.ownAccounts → ∀ s,
      R s (Server.updateUser lldap "webadmin" "fastak_user_type" "user" s).2)
    (hservice : ∀ s, R s (Server.updateUser lldap "svc_fasttakapi" "fastak_user_type" "svc_admin" s).2) :
    Keeps (OnServer R) (ensureAccounts lldap config groupIds) := by
  apply keeps_bind
  · rw [ensureWebadmin]
    split_ifs with hpass
    · have hown : "webadmin" ∈ config.ownAccounts := by
        rw [Config.ownAccounts, if_pos hpass]
        exact List.mem_cons_self
      apply keeps_bind_of (keeps_ensureUser (hcreate _ hown _))
      intro w returned w' hreturned
      obtain rfl := ensureUser_eq_ok hreturned
      have hjoins : Keeps (OnServer R) (joinGroups lldap config groupIds "webadmin") := by
        apply keeps_bind (keeps_setPassword fun salt => hset hown _)
        intro _
        apply keeps_bind (keeps_joinGroup (hadd hown) _)
        intro _
        apply keeps_bind (keeps_forList fun name _ => keeps_joinGroup (hadd hown) name)
        exact fun _ => keeps_setUserAttribute (hupdate hown)
      exact hjoins w'
    · exact keeps_pure ()
  · intro _
    apply keeps_bind
    · apply keeps_forList
      intro name hname
      have hown : name ∈ config.ownAccounts := by
        rw [serviceAccounts, List.mem_singleton] at hname
        rw [hname, Config.ownAccounts]
        split_ifs
        · exact List.mem_cons_of_mem _ List.mem_cons_self
        · exact List.mem_cons_self
      exact keeps_bind (keeps_ensureUser (hcreate name hown name)) fun _ => keeps_pure ()
    · exact fun _ => keeps_setUserAttribute hservice

end Kept

theorem grown_setPassword (hid : id ∈ own) {hash : ℕ × String} {s s' : Server}
    (h : Server.setPassword id hash s = some s') : Grown own s s' := by
  rw [Server.setPassword] at h
  split_ifs at h
  rw [← Option.some.inj h]
  refine ⟨fun other hother => ⟨rfl, ?_⟩, fun _ h => h, fun _ h => h, fun _ _ h => h, fun _ h => h⟩
  exact AList.lookup_insert_ne fun heq => hother (heq ▸ hid)

theorem grown_ensureGroups :
    Keeps (OnServer (Grown own)) (ensureGroups lldap config) := by
  apply keeps_mapList
  intro name _
  exact keeps_bind (keeps_ensureGroup (grown_createGroup name)) fun gid => keeps_pure _

theorem grown_ensureAccounts (lldap : Lldap) (config : Config)
    (groupIds : List (String × ℤ)) :
    Keeps (OnServer (Grown config.ownAccounts)) (ensureAccounts lldap config groupIds) := by
  have hservice : "svc_fasttakapi" ∈ config.ownAccounts := by
    rw [Config.ownAccounts]
    split_ifs
    · exact List.mem_cons_of_mem _ List.mem_cons_self
    · exact List.mem_cons_self
  exact keeps_ensureAccounts (fun id hid => grown_createUser hid)
    (fun hown hash s s' h => grown_setPassword hown h)
    (fun hown pair _ => grown_addUserToGroup hown pair.2)
    (fun hown => grown_updateUser hown _ _) (grown_updateUser hservice _ _)

/-- A run adds to the directory, and to no account but its own. -/
theorem grown_main (lldap : Lldap) (config : Config) :
    Keeps (OnServer (Grown config.ownAccounts)) (main lldap config) := by
  apply keeps_bind (keeps_lldapLogin 60)
  intro _
  apply keeps_bind (keeps_forList fun schema _ => keeps_ensureAttribute (grown_addUserAttribute _ _))
  intro _
  exact keeps_bind grown_ensureGroups (grown_ensureAccounts lldap config)

end Steps

/-! ## What a step that completes has done -/

section Completed

variable {lldap : Lldap} {config : Config} {own : List String} {w w' : World}
  {groupIds : List (String × ℤ)} {id name value : String} {gid : ℤ}

theorem Keeps.of_ok {α : Type} {R : World → World → Prop} {call : Run α} (h : Keeps R call) {a : α}
    (hcall : call w = (.ok a, w')) : R w w' := by
  have hrelated := h w
  rwa [hcall] at hrelated

/-- A loop has done for every element what its body does, if nothing undoes it. -/
theorem forList_done {α : Type} {R : World → World → Prop} [IsPreorder World R]
    {body : α → Run Unit} {items : List α} {P : World → Prop} {Q : α → World → Prop}
    (hkeeps : ∀ x ∈ items, Keeps R (body x)) (hP : ∀ w w', R w w' → P w → P w')
    (hQ : ∀ x w w', R w w' → Q x w → Q x w')
    (hbody : ∀ x ∈ items, ∀ w w', P w → body x w = (.ok (), w') → Q x w') (hw : P w)
    (h : forList body items w = (.ok (), w')) : ∀ x ∈ items, Q x w' := by
  induction items generalizing w with
  | nil => exact fun _ hx => absurd hx List.not_mem_nil
  | cons x items ih =>
      obtain ⟨⟨⟩, w₁, hfirst, hrest⟩ := bind_eq_ok h
      have hafter := Keeps.of_ok (hkeeps x List.mem_cons_self) hfirst
      have hkeeps' : ∀ y ∈ items, Keeps R (body y) :=
        fun y hy => hkeeps y (List.mem_cons_of_mem _ hy)
      rw [List.forall_mem_cons]
      constructor
      · apply hQ x w₁ w' (Keeps.of_ok (keeps_forList hkeeps') hrest)
        exact hbody x List.mem_cons_self w w₁ hw hfirst
      · apply ih hkeeps' _ (hP w w₁ hafter hw) hrest
        exact fun y hy => hbody y (List.mem_cons_of_mem _ hy)

theorem schema_of_addUserAttribute {schema : String × String} {s : Server} :
    schema.1 ∈ (Server.addUserAttribute lldap schema.1 schema.2 s).2.schemas.map Prod.fst := by
  rw [Server.addUserAttribute]
  split_ifs with hschema
  · exact hschema
  · exact List.mem_cons_self

theorem schemas_mono {s s' : Server} (h : Grown own s s') (hname : name ∈ s.schemas.map Prod.fst) :
    name ∈ s'.schemas.map Prod.fst := by
  obtain ⟨schema, hschema, rfl⟩ := List.mem_map.mp hname
  exact List.mem_map_of_mem (h.schemas schema hschema)

/-- Every attribute is registered. -/
theorem ensureCustomAttributes_done (h : ensureCustomAttributes lldap w = (.ok (), w')) :
    ∀ schema ∈ customAttributes, schema.1 ∈ w'.server.schemas.map Prod.fst := by
  have hkeeps : ∀ schema, Keeps (OnServer (Grown [])) (ensureAttribute lldap schema) :=
    fun schema => keeps_ensureAttribute (grown_addUserAttribute schema.1 schema.2)
  apply forList_done (P := fun _ => True)
    (Q := fun schema w => schema.1 ∈ w.server.schemas.map Prod.fst) (fun schema _ => hkeeps schema)
    (fun _ _ _ h => h) (fun schema w w' hgrown => schemas_mono hgrown) _ trivial h
  intro schema _ w w' _ hstep
  rcases tryExcept_eq_ok hstep with hadd | ⟨e, w₁, hadd, hhandler⟩
  · obtain ⟨found, w₂, hadd, hreturn⟩ := bind_eq_ok hadd
    rw [pure_eq_ok] at hreturn
    rw [← hreturn.2, (graphql_eq_ok hadd).1]
    exact schema_of_addUserAttribute
  · cases e with
    | other => cases hhandler
    | runtime message =>
        -- What `graphql` raises never means that the attribute is there.
        have hmessage : meansTaken message = false := by
          cases hcall : graphql lldap (Server.addUserAttribute lldap schema.1 schema.2) w with
          | mk result w₂ =>
              cases result with
              | ok found =>
                  rw [bind_of_ok hcall] at hadd
                  cases hadd
              | error e =>
                  rw [bind_of_error hcall] at hadd
                  obtain rfl := Except.error.inj (Prod.mk.inj hadd).1
                  exact meansTaken_of_graphql hcall
        dsimp only at hhandler
        rw [hmessage, if_neg Bool.false_ne_true] at hhandler
        cases hhandler

theorem groupNames_of_createGroup {s : Server}
    (h : (Server.createGroup lldap name s).1 = .data gid) :
    (gid, name) ∈ (Server.createGroup lldap name s).2.dir.groupNames := by
  rw [Server.createGroup, Server.onDirectory] at h ⊢
  by_cases hname : name ∈ s.dir.groups.map Group.displayName
  · rw [Directory.createGroup, dif_pos hname] at h
    cases h
  · obtain ⟨hdata, hgroups⟩ := Directory.groupNames_createGroup hname
    rw [hdata] at h ⊢
    obtain rfl := Answer.data.inj h
    change (s.dir.nextGroupId, name) ∈ (s.dir.createGroup name).2.groupNames
    rw [hgroups]
    exact List.mem_cons_self

/-- The id is that of a group with the name. -/
theorem ensureGroup_done (h : ensureGroup lldap name w = (.ok gid, w')) :
    (gid, name) ∈ w'.server.dir.groupNames := by
  obtain ⟨listed, w₁, hlisted, h⟩ := bind_eq_ok h
  obtain ⟨hserver, ⟨groups, hdata, rfl⟩ | ⟨text, herrors, -⟩⟩ := graphql_eq_ok hlisted
  · cases hfound : groups.find? fun group => group.2 = name with
    | some group =>
        rw [Option.getD_some, hfound] at h
        rw [pure_eq_ok] at h
        obtain ⟨rfl, rfl⟩ := h
        have hname := List.find?_some hfound
        rw [decide_eq_true_eq] at hname
        rw [← hname, hserver]
        rw [Server.groups, Answer.data.injEq] at hdata
        rw [Server.groups, hdata]
        exact List.mem_of_find?_eq_some hfound
    | none =>
        rw [Option.getD_some, hfound] at h
        obtain ⟨created, w₂, hcreate, h⟩ := bind_eq_ok h
        cases created with
        | none => cases h
        | some created =>
            rw [pure_eq_ok] at h
            obtain ⟨rfl, rfl⟩ := h
            obtain ⟨hserver', ⟨value, hdata', hvalue⟩ | ⟨text, -, -, hnone⟩⟩ :=
              graphql_eq_ok hcreate
            · obtain rfl := Option.some.inj hvalue
              rw [hserver']
              exact groupNames_of_createGroup hdata'
            · cases hnone
  · cases herrors

/-- The ids are those of the groups, one for each name. -/
theorem ensureGroups_done (h : ensureGroups lldap config w = (.ok groupIds, w')) :
    groupIds.map Prod.fst = config.defaultGroups ∧
      ∀ pair ∈ groupIds, (pair.2, pair.1) ∈ w'.server.dir.groupNames := by
  have hkeeps : ∀ name, Keeps (OnServer (Grown []))
      (do return (name, ← ensureGroup lldap name) : Run (String × ℤ)) := fun name =>
    keeps_bind (keeps_ensureGroup (grown_createGroup name)) fun gid => keeps_pure _
  unfold ensureGroups at h
  generalize config.defaultGroups = names at h
  induction names generalizing w groupIds with
  | nil =>
      rw [mapList_nil, pure_eq_ok] at h
      rw [← h.1]
      exact ⟨rfl, fun _ hpair => absurd hpair List.not_mem_nil⟩
  | cons name names ih =>
      rw [mapList_cons] at h
      obtain ⟨pair, w₁, hfirst, h⟩ := bind_eq_ok h
      obtain ⟨pairs, w₂, hrest, h⟩ := bind_eq_ok h
      obtain ⟨gid, hgroup, rfl⟩ := bind_pure_eq_ok.mp hfirst
      rw [pure_eq_ok] at h
      obtain ⟨rfl, rfl⟩ := h
      obtain ⟨hnames, hlisted⟩ := ih hrest
      have hgrown := Keeps.of_ok (keeps_mapList fun name _ => hkeeps name) hrest
      rw [List.map_cons, hnames, List.forall_mem_cons]
      exact ⟨rfl, hgrown.groups _ (ensureGroup_done hgroup), hlisted⟩

theorem setPassword_done {username password : String}
    (h : setPassword username password w = (.ok (), w')) : username ∈ w'.server.dir.accounts := by
  rw [setPassword] at h
  cases hserver : Server.setPassword username (w.salt, password) w.server with
  | none =>
      rw [hserver] at h
      cases h
  | some server =>
      rw [hserver] at h
      cases hverdict : nextVerdict w.verdicts with
      | fails done =>
          rw [hverdict] at h
          cases h
      | raises done =>
          rw [hverdict] at h
          cases h
      | runs =>
          rw [hverdict] at h
          rw [← (Prod.mk.inj h).2]
          rw [Server.setPassword] at hserver
          split_ifs at hserver with huser
          rw [← Option.some.inj hserver]
          exact huser

theorem dir_onDirectory {β : Type} (request : Directory → Directory.Reply β × Directory)
    (s : Server) : (s.onDirectory lldap request).2.dir = (request s.dir).2 := by
  rw [Server.onDirectory]
  cases (request s.dir).1 <;> rfl

theorem addToGroup_done {username : String} (huser : username ∈ w.server.dir.accounts)
    (hlisted : (gid, name) ∈ w.server.dir.groupNames)
    (h : addToGroup lldap username gid w = (.ok (), w')) :
    w'.server.dir.IsMember username name := by
  obtain ⟨found, w₁, hadd, h⟩ := bind_eq_ok h
  rw [pure_eq_ok] at h
  rw [← h.2, (graphql_eq_ok hadd).1, Server.addUserToGroup, dir_onDirectory]
  exact (Directory.isMember_addUserToGroup_self huser hlisted).1

/-- An attribute is not refused as one that is there. -/
theorem updateUser_answer {s : Server} {text : List Char}
    (h : (Server.updateUser lldap id name value s).1 = .errors text) : text = lldap.refused := by
  rw [Server.updateUser] at h
  split_ifs at h
  · rw [Server.onDirectory, Directory.updateUser] at h
    cases haccount : s.dir.accounts.lookup id with
    | none =>
        rw [haccount] at h
        exact (Answer.errors.inj h).symm
    | some account =>
        rw [haccount] at h
        dsimp only at h
        split_ifs at h
        exact (Answer.errors.inj h).symm
  · exact (Answer.errors.inj h).symm

/-- An attribute that was accepted is there. -/
theorem attribute_of_updateUser {s : Server}
    (h : (Server.updateUser lldap id name value s).1 = .data ()) :
    id ∈ (Server.updateUser lldap id name value s).2.dir.accounts ∧
      (Server.updateUser lldap id name value s).2.attribute id name = some [value] := by
  rw [Server.updateUser] at h ⊢
  split_ifs at h with haccepts
  rw [if_pos haccepts, Server.attribute, dir_onDirectory]
  rw [Server.onDirectory, Directory.updateUser] at h
  cases haccount : s.dir.accounts.lookup id with
  | none =>
      rw [haccount] at h
      cases h
  | some account =>
      rw [haccount] at h
      dsimp only at h
      split_ifs at h with hvalues
      rw [Directory.updateUser_of_accepts haccount hvalues]
      constructor
      · exact (AList.mem_insert _).mpr (Or.inl rfl)
      · rw [AList.lookup_insert]
        exact AList.lookup_insert _

theorem setUserAttribute_done
    (h : setUserAttribute lldap id name value w = (.ok (), w')) :
    id ∈ w'.server.dir.accounts ∧ w'.server.attribute id name = some [value] := by
  obtain ⟨found, w₁, hupdate, h⟩ := bind_eq_ok h
  rw [pure_eq_ok] at h
  obtain ⟨hserver, ⟨⟨⟩, hdata, -⟩ | ⟨text, herrors, htaken, -⟩⟩ := graphql_eq_ok hupdate
  · rw [← h.2, hserver]
    exact attribute_of_updateUser hdata
  · rw [updateUser_answer herrors, lldap.refused_means] at htaken
    cases htaken

/-- The ids that a run has are those of groups. -/
def Listed (groupIds : List (String × ℤ)) (s : Server) : Prop :=
  ∀ pair ∈ groupIds, (pair.2, pair.1) ∈ s.dir.groupNames

theorem Listed.mono {s s' : Server} (h : Listed groupIds s) (hgrown : Grown own s s') :
    Listed groupIds s' := fun pair hpair => hgrown.groups _ (h pair hpair)

theorem joinGroup_done {username : String} (huser : username ∈ w.server.dir.accounts)
    (hlisted : Listed groupIds w.server)
    (h : joinGroup lldap groupIds username name w = (.ok (), w')) :
    w'.server.dir.IsMember username name := by
  obtain ⟨gid, w₁, hgid, hadd⟩ := bind_eq_ok h
  obtain ⟨hmem, rfl⟩ := mem_of_groupId hgid
  exact addToGroup_done huser (hlisted _ hmem) hadd

/-- `webadmin` is in every group. -/
theorem joinGroups_done (hlisted : Listed groupIds w.server)
    (h : joinGroups lldap config groupIds "webadmin" w = (.ok (), w')) :
    "webadmin" ∈ w'.server.dir.accounts ∧
      w'.server.attribute "webadmin" "fastak_user_type" = some ["user"] ∧
      ∀ name ∈ config.defaultGroups, w'.server.dir.IsMember "webadmin" name := by
  have hown : "webadmin" ∈ ["webadmin"] := List.mem_singleton_self _
  have hjoin : ∀ name, Keeps (OnServer (Grown ["webadmin"]))
      (joinGroup lldap groupIds "webadmin" name) :=
    fun name => keeps_joinGroup (fun pair _ => grown_addUserToGroup hown pair.2) name
  obtain ⟨⟨⟩, w₁, hset, h⟩ := bind_eq_ok h
  obtain ⟨⟨⟩, w₂, hadmin, h⟩ := bind_eq_ok h
  obtain ⟨⟨⟩, w₃, hgates, hupdate⟩ := bind_eq_ok h
  have hgrown₁ : Grown ["webadmin"] w.server w₁.server :=
    Keeps.of_ok (keeps_setPassword fun salt s s' => grown_setPassword hown) hset
  have hgrown₂ : Grown ["webadmin"] w₁.server w₂.server := Keeps.of_ok (hjoin _) hadmin
  have hgrown₃ : Grown ["webadmin"] w₂.server w₃.server :=
    Keeps.of_ok (keeps_forList fun name _ => hjoin name) hgates
  have hgrown₄ : Grown ["webadmin"] w₃.server w'.server :=
    Keeps.of_ok (keeps_setUserAttribute (grown_updateUser hown _ _)) hupdate
  have huser₁ := setPassword_done hset
  have hlisted₁ := hlisted.mono hgrown₁
  have hrole := joinGroup_done huser₁ hlisted₁ hadmin
  have hgate : ∀ name ∈ config.gateGroups, w₃.server.dir.IsMember "webadmin" name := by
    apply forList_done
      (P := fun w => "webadmin" ∈ w.server.dir.accounts ∧ Listed groupIds w.server)
      (Q := fun name w => w.server.dir.IsMember "webadmin" name)
      (fun name _ => hjoin name) _ _ _ ⟨hgrown₂.accounts _ huser₁, hlisted₁.mono hgrown₂⟩ hgates
    · exact fun w w' hgrown hw => ⟨hgrown.accounts _ hw.1, hw.2.mono hgrown⟩
    · exact fun name w w' hgrown hmember => hgrown.members _ _ hmember
    · exact fun name _ w w' hw hstep => joinGroup_done hw.1 hw.2 hstep
  obtain ⟨haccount, hattribute⟩ := setUserAttribute_done hupdate
  refine ⟨haccount, hattribute, ?_⟩
  rw [Config.defaultGroups, List.forall_mem_cons]
  constructor
  · exact hgrown₄.members _ _ (hgrown₃.members _ _ hrole)
  · exact fun name hname => hgrown₄.members _ _ (hgate name hname)

/-- An attribute is seen by requests. -/
theorem attribute_congr {s s' : Server} (h : s'.dir.user id = s.dir.user id) :
    s'.attribute id name = s.attribute id name := by
  have hview : ∀ t : Server, t.attribute id name =
      (t.dir.user id).bind fun view => view.attributes.lookup name := by
    intro t
    rw [Server.attribute, Directory.user]
    cases t.dir.accounts.lookup id <;> rfl
  rw [hview, hview, h]

theorem ensureAccounts_done (hlisted : Listed groupIds w.server)
    (h : ensureAccounts lldap config groupIds w = (.ok (), w')) :
    (config.webadminPass ≠ "" → "webadmin" ∈ w'.server.dir.accounts ∧
      w'.server.attribute "webadmin" "fastak_user_type" = some ["user"] ∧
      ∀ name ∈ config.defaultGroups, w'.server.dir.IsMember "webadmin" name) ∧
    "svc_fasttakapi" ∈ w'.server.dir.accounts ∧
      w'.server.attribute "svc_fasttakapi" "fastak_user_type" = some ["svc_admin"] := by
  have hown : "svc_fasttakapi" ∈ ["svc_fasttakapi"] := List.mem_singleton_self _
  obtain ⟨⟨⟩, w₁, hwebadmin, h⟩ := bind_eq_ok h
  obtain ⟨⟨⟩, w₂, hservices, hupdate⟩ := bind_eq_ok h
  refine ⟨?_, setUserAttribute_done hupdate⟩
  intro hpass
  -- The steps for the service account leave `webadmin` as it is.
  have hkeeps : ∀ name ∈ serviceAccounts, Keeps (OnServer (Grown ["svc_fasttakapi"]))
      (do let _ ← ensureUser lldap name name) := fun name hname =>
    keeps_bind (keeps_ensureUser (grown_createUser hname name)) fun _ => keeps_pure ()
  have hgrown₂ : Grown ["svc_fasttakapi"] w₁.server w₂.server :=
    Keeps.of_ok (keeps_forList hkeeps) hservices
  have hgrown₃ : Grown ["svc_fasttakapi"] w₂.server w'.server :=
    Keeps.of_ok (keeps_setUserAttribute (grown_updateUser hown _ _)) hupdate
  have hgrown := hgrown₂.trans hgrown₃
  rw [ensureWebadmin, if_pos hpass] at hwebadmin
  obtain ⟨returned, w₃, hensure, hjoins⟩ := bind_eq_ok hwebadmin
  obtain rfl := ensureUser_eq_ok hensure
  have hgrown₁ : Grown ["webadmin"] w.server w₃.server :=
    Keeps.of_ok (keeps_ensureUser (grown_createUser (List.mem_singleton_self _) _)) hensure
  obtain ⟨haccount, hattribute, hmember⟩ := joinGroups_done (hlisted.mono hgrown₁) hjoins
  refine ⟨hgrown.accounts _ haccount, ?_, fun name hname => hgrown.members _ _ (hmember name hname)⟩
  rw [attribute_congr (hgrown.others "webadmin" (by decide)).1]
  exact hattribute

/-- What a run that completes leaves. -/
theorem main_done (h : main lldap config w = (.ok (), w')) : Bootstrapped config w'.server := by
  obtain ⟨⟨⟩, w₁, hlogin, h⟩ := bind_eq_ok h
  obtain ⟨⟨⟩, w₂, hattributes, h⟩ := bind_eq_ok h
  obtain ⟨groupIds, w₃, hgroups, haccounts⟩ := bind_eq_ok h
  obtain ⟨hnames, hlisted⟩ := ensureGroups_done hgroups
  have hgrown₂ : Grown [] w₂.server w₃.server := Keeps.of_ok grown_ensureGroups hgroups
  have hgrown₃ : Grown config.ownAccounts w₃.server w'.server :=
    Keeps.of_ok (grown_ensureAccounts lldap config groupIds) haccounts
  obtain ⟨hwebadmin, hservice⟩ := ensureAccounts_done hlisted haccounts
  refine ⟨?_, ?_, hwebadmin, hservice⟩
  · intro name hname
    rw [← hnames] at hname
    obtain ⟨pair, hpair, rfl⟩ := List.mem_map.mp hname
    exact List.mem_map.mpr ⟨_, hgrown₃.groups _ (hlisted pair hpair), rfl⟩
  · intro schema hschema
    exact schemas_mono hgrown₃ (schemas_mono hgrown₂
      (ensureCustomAttributes_done hattributes schema hschema))

end Completed

end FastTAK.Identity.Bootstrap
