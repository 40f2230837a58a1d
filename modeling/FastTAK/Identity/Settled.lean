import FastTAK.Identity.Restarts

/-!
# Bootstraps of a directory that is in place

A run that finds everything in place changes only the password of `webadmin`, however it ends.
-/

namespace FastTAK.Identity.Bootstrap

open FastTAK.Effect FastTAK.Effect.Call

/-! ## Servers that differ in a password -/

/-- An account as requests show it. -/
def Server.profile (s : Server) (id : String) : Option (String × (String → Option (List String))) :=
  (s.dir.accounts.lookup id).map fun account =>
    (account.displayName, fun name => account.attributes.lookup name)

/-- Two servers that differ at most in the password of `webadmin`. -/
structure Same (s s' : Server) : Prop where
  profiles : ∀ id, s'.profile id = s.profile id
  groups : s'.dir.groups = s.dir.groups
  nextGroupId : s'.dir.nextGroupId = s.dir.nextGroupId
  emails : s'.emails = s.emails
  schemas : s'.schemas = s.schemas
  passwords : ∀ id, id ≠ "webadmin" → s'.passwords.lookup id = s.passwords.lookup id

/-- What holds stays so, and nothing else changes. -/
def Rests (P : Server → Prop) (s s' : Server) : Prop := P s → Same s s' ∧ P s'

theorem Same.refl (s : Server) : Same s s := ⟨fun _ => rfl, rfl, rfl, rfl, rfl, fun _ _ => rfl⟩

theorem Same.trans {s s' s'' : Server} (h : Same s s') (h' : Same s' s'') : Same s s'' where
  profiles id := (h'.profiles id).trans (h.profiles id)
  groups := h'.groups.trans h.groups
  nextGroupId := h'.nextGroupId.trans h.nextGroupId
  emails := h'.emails.trans h.emails
  schemas := h'.schemas.trans h.schemas
  passwords id hid := (h'.passwords id hid).trans (h.passwords id hid)

instance (P : Server → Prop) : IsPreorder World (OnServer (Rests P)) where
  refl w hP := ⟨Same.refl w.server, hP⟩
  trans _ _ _ h h' hP := by
    obtain ⟨hsame, hP'⟩ := h hP
    obtain ⟨hsame', hP''⟩ := h' hP'
    exact ⟨hsame.trans hsame', hP''⟩

section Settled

variable {lldap : Lldap} {config : Config} {s s' : Server} {id name value : String}
  {groupIds : List (String × ℤ)}

theorem attribute_eq_profile (s : Server) (id name : String) :
    s.attribute id name = (s.profile id).bind fun account => account.2 name := by
  rw [Server.attribute, Server.profile]
  cases s.dir.accounts.lookup id <;> rfl

theorem mem_accounts_iff (s : Server) (id : String) :
    id ∈ s.dir.accounts ↔ (s.profile id).isSome := by
  rw [Server.profile, Option.isSome_map, AList.lookup_isSome]

theorem Same.listed (hsame : Same s s') (h : Listed groupIds s) : Listed groupIds s' := by
  intro pair hpair
  have hlisted := h pair hpair
  rw [Directory.groupNames] at hlisted ⊢
  rwa [hsame.groups]

/-- What is in place does not depend on a password. -/
theorem Same.bootstrapped (hsame : Same s s') (h : Bootstrapped config s) :
    Bootstrapped config s' := by
  have hattribute : ∀ id name, s'.attribute id name = s.attribute id name := by
    intro id name
    rw [attribute_eq_profile, attribute_eq_profile, hsame.profiles]
  have haccount : ∀ id, id ∈ s'.dir.accounts ↔ id ∈ s.dir.accounts := by
    intro id
    rw [mem_accounts_iff, mem_accounts_iff, hsame.profiles]
  constructor
  · have hgroups := h.groups
    rw [Directory.groupNames] at hgroups ⊢
    rwa [hsame.groups]
  · rw [hsame.schemas]
    exact h.schemas
  · intro hpass
    rw [haccount, hattribute]
    obtain ⟨hin, htype, hmember⟩ := h.webadmin hpass
    exact ⟨hin, htype, fun name hname =>
      (Directory.isMember_congr hsame.groups _ _).mpr (hmember name hname)⟩
  · rw [haccount, hattribute]
    exact h.service

/-- The account is there. -/
theorem Bootstrapped.mem_accounts (h : Bootstrapped config s) (hid : id ∈ config.ownAccounts) :
    id ∈ s.dir.accounts := by
  rw [Config.ownAccounts] at hid
  split_ifs at hid with hpass
  · rcases List.mem_cons.mp hid with rfl | hid
    · exact (h.webadmin hpass).1
    · rw [List.mem_singleton.mp hid]
      exact h.service.1
  · rw [List.mem_singleton.mp hid]
    exact h.service.1

theorem pass_of_mem_ownAccounts (hown : "webadmin" ∈ config.ownAccounts) :
    config.webadminPass ≠ "" := by
  rw [Config.ownAccounts] at hown
  split_ifs at hown with hpass
  · exact hpass
  · exact absurd hown (by decide)

/-! ## Requests that find what they would make -/

theorem addUserAttribute_self (h : name ∈ s.schemas.map Prod.fst) (type : String) :
    (Server.addUserAttribute lldap name type s).2 = s := by
  rw [Server.addUserAttribute, if_pos h]

theorem createUser_self (h : id ∈ s.dir.accounts) (displayName email : String) :
    (Server.createUser lldap id displayName email s).2 = s := by
  rw [Server.createUser, if_pos (Or.inl h)]

theorem createGroup_self (h : name ∈ s.dir.groupNames.map Prod.snd) :
    (Server.createGroup lldap name s).2 = s := by
  rw [Directory.groupNames_snd] at h
  rw [Server.createGroup, Server.onDirectory, Directory.createGroup, dif_pos h]

theorem addUserToGroup_self {gid : ℤ} (huser : id ∈ s.dir.accounts)
    (hlisted : (gid, name) ∈ s.dir.groupNames) (hmember : s.dir.IsMember id name) :
    (Server.addUserToGroup lldap id gid s).2 = s := by
  rw [Server.addUserToGroup, Server.onDirectory,
    Directory.addUserToGroup_of_isMember huser hlisted hmember]

theorem same_setPassword {hash : ℕ × String} (h : Server.setPassword "webadmin" hash s = some s') :
    Same s s' := by
  rw [Server.setPassword] at h
  split_ifs at h
  rw [← Option.some.inj h]
  exact ⟨fun _ => rfl, rfl, rfl, rfl, rfl, fun _ hne => AList.lookup_insert_ne hne⟩

/-- An attribute that has the value already. -/
theorem same_updateUser (h : s.attribute id name = some [value]) :
    Same s (Server.updateUser lldap id name value s).2 := by
  rw [Server.updateUser]
  split_ifs
  · rw [Server.onDirectory, Directory.updateUser]
    rw [Server.attribute] at h
    cases haccount : s.dir.accounts.lookup id with
    | none =>
        rw [haccount] at h
        cases h
    | some account =>
        rw [haccount, Option.bind_some] at h
        dsimp only
        split_ifs
        · refine ⟨fun other => ?_, rfl, rfl, rfl, rfl, fun _ _ => rfl⟩
          have hattributes : ∀ key, (account.attributes.insert name [value]).lookup key =
              account.attributes.lookup key := by
            intro key
            by_cases hkey : key = name
            · rw [hkey, AList.lookup_insert, h]
            · rw [AList.lookup_insert_ne hkey]
          rw [Server.profile, Server.profile]
          by_cases hother : other = id
          · rw [hother, AList.lookup_insert, haccount]
            exact congrArg some (Prod.ext rfl (funext hattributes))
          · rw [AList.lookup_insert_ne hother]
        · exact Same.refl s
  · exact Same.refl s

/-- What makes a request rest. -/
theorem rests_of_same {P : Server → Prop} (hP : ∀ s s', Same s s' → P s → P s')
    {s s' : Server} (h : P s → Same s s') : Rests P s s' :=
  fun hs => ⟨h hs, hP s s' (h hs) hs⟩

/-- A run that finds everything in place. -/
theorem rests_main (lldap : Lldap) (config : Config) :
    Keeps (OnServer (Rests (Bootstrapped config))) (main lldap config) := by
  have hboot : ∀ s s', Same s s' → Bootstrapped config s → Bootstrapped config s' :=
    fun s s' hsame => hsame.bootstrapped
  have hself : ∀ {s s' : Server}, s' = s → Same s s' := fun h => h ▸ Same.refl _
  apply keeps_bind (keeps_lldapLogin 60)
  intro _
  apply keeps_bind
  · apply keeps_forList
    intro schema hschema
    apply keeps_ensureAttribute
    intro s
    apply rests_of_same hboot
    exact fun hs => hself (addUserAttribute_self (hs.schemas schema hschema) _)
  intro _
  apply keeps_bind_of
  · apply keeps_mapList
    intro name hname
    apply keeps_bind (keeps_ensureGroup _) fun gid => keeps_pure _
    intro s
    apply rests_of_same hboot
    exact fun hs => hself (createGroup_self (hs.groups name hname))
  · intro w groupIds w' hgroups hs
    obtain ⟨hnames, hlisted⟩ := ensureGroups_done hgroups
    have hP : ∀ s s', Same s s' → Bootstrapped config s ∧ Listed groupIds s →
        Bootstrapped config s' ∧ Listed groupIds s' :=
      fun s s' hsame hs => ⟨hsame.bootstrapped hs.1, hsame.listed hs.2⟩
    have haccounts : Keeps (OnServer (Rests fun s => Bootstrapped config s ∧ Listed groupIds s))
        (ensureAccounts lldap config groupIds) := by
      apply keeps_ensureAccounts
      · intro id hid displayName email s
        apply rests_of_same hP
        exact fun hs => hself (createUser_self (hs.1.mem_accounts hid) _ _)
      · intro _ hash s s' hset
        exact rests_of_same hP fun _ => same_setPassword hset
      · intro hown pair hpair s
        apply rests_of_same hP
        intro hs
        have hname : pair.1 ∈ config.defaultGroups := hnames ▸ List.mem_map_of_mem hpair
        exact hself (addUserToGroup_self (hs.1.mem_accounts hown) (hs.2 pair hpair)
          ((hs.1.webadmin (pass_of_mem_ownAccounts hown)).2.2 _ hname))
      · intro hown s
        apply rests_of_same hP
        exact fun hs => same_updateUser (hs.1.webadmin (pass_of_mem_ownAccounts hown)).2.1
      · intro s
        exact rests_of_same hP fun hs => same_updateUser hs.1.service.2
    obtain ⟨hsame, hs', -⟩ := haccounts w' ⟨hs, hlisted⟩
    exact ⟨hsame, hs'⟩

end Settled

/-! ## Runs after runs -/

/-- What happens to the requests of a run, and its salt. -/
structure Attempt where
  verdicts : List Verdict
  salt : ℕ

def Attempt.start (attempt : Attempt) (s : Server) : World := ⟨s, attempt.verdicts, attempt.salt⟩

/-- What a run leaves behind, however it ends. -/
def leaves (lldap : Lldap) (config : Config) (s : Server) (attempt : Attempt) : Server :=
  (main lldap config (attempt.start s)).2.server

def completes (lldap : Lldap) (config : Config) (s : Server) (attempt : Attempt) : Bool :=
  (main lldap config (attempt.start s)).1.toBool

variable {lldap : Lldap} {config : Config}

theorem grown_leaves (s : Server) (earlier : List Attempt) :
    Grown config.ownAccounts s (earlier.foldl (leaves lldap config) s) := by
  induction earlier generalizing s with
  | nil => exact Grown.refl _ s
  | cons attempt earlier ih =>
      have hfirst : Grown config.ownAccounts s (leaves lldap config s attempt) :=
        grown_main lldap config (attempt.start s)
      exact hfirst.trans (ih _)

/-- A run that completes after any number of runs that ended anyhow leaves everything in place and
every other account as it was, and runs after it change nothing but the password of `webadmin`. -/
theorem bootstrap_restartable (lldap : Lldap) (config : Config) (s : Server)
    (earlier : List Attempt) (attempt : Attempt)
    (hcompletes : completes lldap config (earlier.foldl (leaves lldap config) s) attempt) :
    Bootstrapped config ((earlier ++ [attempt]).foldl (leaves lldap config) s) ∧
      Grown config.ownAccounts s ((earlier ++ [attempt]).foldl (leaves lldap config) s) ∧
      ∀ again, Same ((earlier ++ [attempt]).foldl (leaves lldap config) s)
        (leaves lldap config ((earlier ++ [attempt]).foldl (leaves lldap config) s) again) := by
  have hboot : Bootstrapped config ((earlier ++ [attempt]).foldl (leaves lldap config) s) := by
    rw [List.foldl_append]
    cases hrun : main lldap config (attempt.start (earlier.foldl (leaves lldap config) s)) with
    | mk result w' =>
        cases result with
        | error e =>
            rw [completes, hrun] at hcompletes
            cases hcompletes
        | ok value =>
            have hdone := main_done hrun
            rw [List.foldl_cons, List.foldl_nil, leaves, hrun]
            exact hdone
  refine ⟨hboot, grown_leaves s _, fun again => ?_⟩
  exact (rests_main lldap config (again.start _) hboot).1

/-! ## A fresh directory -/

def plainLldap : Lldap where
  taken := "Entity already exists".toList
  refused := "Entity not found".toList
  accepts _ _ := true
  taken_means := by decide +kernel
  refused_means := by decide +kernel

def freshServer : Server := ⟨.empty, [], [], ∅⟩

/-- The settings of a new installation. -/
def plainConfig : Config :=
  .ofEnv fun name => if name = "TAK_WEBADMIN_PASSWORD" then some "opensesame" else none

/-- A run that ends when `webadmin` has been created. -/
def interruptedRun : Attempt := ⟨List.replicate 10 .runs ++ [.raises 1], 0⟩

def wholeRun : Attempt := ⟨[], 1⟩

theorem bootstrap_restartable_fresh :
    ¬ completes plainLldap plainConfig freshServer interruptedRun ∧
      Bootstrapped plainConfig
        (([interruptedRun] ++ [wholeRun]).foldl (leaves plainLldap plainConfig) freshServer) := by
  have hinterrupted : completes plainLldap plainConfig freshServer interruptedRun = false := by
    decide +kernel
  have hcompletes : completes plainLldap plainConfig
      ([interruptedRun].foldl (leaves plainLldap plainConfig) freshServer) wholeRun = true := by
    decide +kernel
  exact ⟨Bool.eq_false_iff.mp hinterrupted, (bootstrap_restartable plainLldap plainConfig
    freshServer [interruptedRun] wholeRun hcompletes).1⟩

end FastTAK.Identity.Bootstrap
