import FastTAK.Identity.LostResponse
import FastTAK.Identity.Sequential

/-!
# Creating an existing account

LLDAP answers the creation of an existing account with an error that `_graphql`
takes for success, and `create_user` goes on with the account there is.  This file
says what it does to that account: with all of its requests answered, and whatever
happens to them when the account already is as it should become.
-/

namespace FastTAK.Identity

open FastTAK.Effect FastTAK.Effect.Prog FastTAK.Api

variable {settings : Settings} {α : Type}

/-! ## What is asked for -/

/-- The account has the same attributes, name and groups. -/
structure SameAccount (username : String) (dir dir' : Directory) : Prop where
  attributes : dir'.attributesOf username = dir.attributesOf username
  displayName : (dir'.accounts.lookup username).map Account.displayName =
    (dir.accounts.lookup username).map Account.displayName
  groups : ∀ group, dir'.IsMember username group ↔ dir.IsMember username group

instance (username : String) : IsPreorder Directory (SameAccount username) where
  refl _ := ⟨rfl, rfl, fun _ => Iff.rfl⟩
  trans _ _ _ hfirst hsecond := {
    attributes := hsecond.attributes.trans hfirst.attributes
    displayName := hsecond.displayName.trans hfirst.displayName
    groups := fun group => (hsecond.groups group).trans (hfirst.groups group) }

/-- The account is as a creation with these arguments would make it. -/
structure Fits (username : String) (attrs : Attributes) (groups : List String)
    (dir : Directory) : Prop where
  attributes : ∀ existing ∈ dir.attributesOf username, attrs.over existing = existing
  groups : ∀ name ∈ groups, dir.IsMember username (takName name)

/-- The expiry that `create_user` sets for a lifetime; `none` if the arithmetic raises or
LLDAP cannot store the result. -/
def storedExpiry (now : ℚ) : Option ℤ → Option (Option ℤ)
  | none => some none
  | some ttlHours =>
      if floatLimit ≤ |ttlHours * 3600| then none
      else
        let expires := pyTrunc (now + (ttlHours * 3600 : ℤ))
        if -2 ^ 63 ≤ expires ∧ expires < 2 ^ 63 then some (some expires) else none

/-- LLDAP accepts the attributes if the expiry fits into its integers. -/
theorem accepts_build_iff (attrs : Attributes) :
    (buildCustomAttributes attrs).all Directory.acceptsValues ↔
      ∀ expires ∈ attrs.expires, -2 ^ 63 ≤ expires ∧ expires < 2 ^ 63 := by
  have hother : ∀ name values, name ≠ "fastak_expires" →
      Directory.acceptsValues (name, values) = true := by
    intro name values hname
    simp [Directory.acceptsValues, hname]
  have hexpires : ∀ n : ℤ, Directory.acceptsValues ("fastak_expires", [toString n]) = true ↔
      -2 ^ 63 ≤ n ∧ n < 2 ^ 63 := by
    intro n
    simp only [Directory.acceptsValues, List.all_cons, List.all_nil, Bool.and_true,
      pyInt_toString, bne_self_eq_false, Bool.false_or, Bool.and_eq_true, decide_eq_true_eq]
  simp only [buildCustomAttributes, List.all_append, Bool.and_eq_true]
  have hall : ∀ {β : Type} (x : Option β) (name : String) (text : β → String),
      name ≠ "fastak_expires" →
      ((x.map fun b => (name, [text b])).toList.all Directory.acceptsValues) = true := by
    intro β x name text hname
    cases x with
    | none => rfl
    | some b => simp [hother name _ hname]
  rw [hall attrs.certsRevoked _ boolText (by decide), hall attrs.isActive _ boolText (by decide),
    hall attrs.userType _ (fun t => t) (by decide)]
  cases attrs.expires with
  | none => simp
  | some n =>
      simp only [Option.map_some, Option.toList_some, List.all_cons, List.all_nil,
        Bool.and_true, hexpires]
      simp

/-! ## Mutations of the account -/

/-- Sending what is there already changes nothing that is read. -/
theorem sameAccount_updateUser {username : String} {attrs : Attributes} {dir : Directory}
    (hthere : ∀ existing ∈ dir.attributesOf username, attrs.over existing = existing) :
    SameAccount username dir
      (Directory.updateUser username none (buildCustomAttributes attrs) dir).2 := by
  have hgroups := Directory.isMember_congr
    (Directory.groups_updateUser username none (buildCustomAttributes attrs) dir) username
  cases haccount : dir.accounts.lookup username with
  | none =>
      rw [Directory.updateUser_of_unknown none _ haccount]
      exact refl_of (SameAccount username) dir
  | some account =>
      by_cases haccepts : (buildCustomAttributes attrs).all Directory.acceptsValues
      · have hattributes : dir.attributesOf username =
            some (parseAttributes account.attributes) := by
          rw [Directory.attributesOf, haccount]
          rfl
        refine ⟨?_, ?_, hgroups⟩
        · rw [Directory.attributesOf_updateUser haccount haccepts,
            parseAttributes_insert_build, hattributes, hthere _ hattributes]
        · rw [Directory.updateUser_of_accepts haccount haccepts, haccount]
          dsimp only
          rw [AList.lookup_insert]
          rfl
      · rw [Directory.updateUser_of_rejects haccepts]
        exact refl_of (SameAccount username) dir

/-- Changes of other accounts. -/
theorem sameAccount_updateUser_of_ne {username v : String} (hne : username ≠ v)
    (name : Option String) (inserted : List (String × List String)) (dir : Directory) :
    SameAccount username dir (Directory.updateUser v name inserted dir).2 where
  attributes := by
    rw [Directory.attributesOf, Directory.lookup_updateUser_of_ne hne]
    rfl
  displayName := by rw [Directory.lookup_updateUser_of_ne hne]
  groups := Directory.isMember_congr (Directory.groups_updateUser v name inserted dir) _

/-! ## Expiry -/

/-- The expiry is computed and stored, or computed and rejected later, or not computed. -/
theorem alone_expiryFor {guar : IdentityState settings → IdentityState settings → Prop}
    [Tolerant guar] {ttlHours : Option ℤ} {s : IdentityState settings}
    {post : Except Exn (Option ℤ) → IdentityState settings → Prop}
    (hstored : ∀ expires, storedExpiry s.now ttlHours = some expires → post (.ok expires) s)
    (hrejected : storedExpiry s.now ttlHours = none →
      ∀ n : ℤ, ¬ (-2 ^ 63 ≤ n ∧ n < 2 ^ 63) → post (.ok (some n)) s)
    (hraises : storedExpiry s.now ttlHours = none → post (.error .overflowError) s) :
    Alone guar post (expiryFor ttlHours) s := by
  cases ttlHours with
  | none => exact alone_pure (hstored none rfl)
  | some ttlHours =>
      refine alone_bind (alone_bind (alone_atomic (refl_of guar s) ?_))
      dsimp only [Call.read_apply]
      simp only [storedExpiry] at hstored hrejected hraises
      split_ifs with hlimit
      · rw [if_pos hlimit] at hraises
        exact alone_raise (hraises rfl)
      · rw [if_neg hlimit] at hstored hrejected
        refine alone_pure (alone_pure ?_)
        by_cases hrange : -2 ^ 63 ≤ pyTrunc (s.now + (ttlHours * 3600 : ℤ)) ∧
            pyTrunc (s.now + (ttlHours * 3600 : ℤ)) < 2 ^ 63
        · exact hstored _ (if_pos hrange)
        · exact hrejected (if_neg hrange) _ hrange

/-! ## An account that fits already -/

section Fits

variable {username : String}

/-- The groups of the account are ensured without effect. -/
theorem alone_ensureUserGroups_of_fits {groups : List String} {s : IdentityState settings}
    (hmember : username ∈ s.directory.accounts)
    (hgroups : ∀ name ∈ groups, s.directory.IsMember username (takName name)) :
    Alone (AlongId (SameAccount username)) (fun _ _ => True)
      (ensureUserGroups username groups) s := by
  rw [ensureUserGroups_eq]
  refine alone_bind (alone_query (fun queue => ?_) fun _ _ => trivial)
  have hloop : Alone (AlongId (SameAccount username))
      (fun _ s' => s'.directory = s.directory)
      (forList (ensureMember username s.directory.groupNames) groups) (withQueue queue s) := by
    refine alone_forList (fun name hname s' hs' => ?_) rfl
    obtain ⟨g, hg, hdisplay, hin⟩ := hgroups name hname
    have hlisted : takName name ∈ s.directory.groupNames.map Prod.snd := by
      rw [List.mem_map]
      exact ⟨(g.id, g.displayName), List.mem_map.mpr ⟨g, hg, rfl⟩, hdisplay⟩
    obtain ⟨gid, hgid, hpair⟩ : ∃ gid, (ensureMember username s.directory.groupNames name :
        IdProg settings Unit) = mutation (Directory.addUserToGroup username gid) ∧
          (gid, takName name) ∈ s.directory.groupNames := ensureMember_of_mem hlisted
    rw [hgid]
    have hrequest : ∀ s' : IdentityState settings, s'.directory = s.directory →
        (Directory.addUserToGroup username gid s'.directory).2 = s.directory := by
      intro s' hs'
      rw [hs', Directory.addUserToGroup_of_isMember hmember hpair (hgroups name hname)]
    refine alone_mutation (fun s' => s'.directory = s.directory) (fun _ _ h => h)
      (fun s' h => ⟨?_, hrequest s' h⟩) hs'
    change SameAccount username s'.directory _
    rw [hrequest s' h, h]
    exact refl_of (SameAccount username) s.directory
  exact hloop.mono (fun _ _ h => h) fun _ _ _ => trivial

/-- LLDAP rejects the attributes, whatever happens to the requests. -/
theorem alone_updateUser_of_rejects {guar : IdentityState settings → IdentityState settings → Prop}
    [Tolerant guar] {inserted : List (String × List String)}
    (hrejects : ¬ inserted.all Directory.acceptsValues) (s : IdentityState settings) :
    Alone guar (fun result _ => result ≠ .ok ())
      (mutation (Directory.updateUser username none inserted)) s := by
  have hsame : ∀ s' : IdentityState settings,
      Directory.updateUser username none inserted s'.directory = (.errors, s'.directory) :=
    fun s' => Directory.updateUser_of_rejects hrejects
  refine alone_graphql (fun _ => True) (fun _ _ h => h) (fun s' _ => ⟨?_, trivial⟩)
    (fun s' value _ hreply => ?_) (fun s' _ hreply => ?_) (fun _ _ _ => by simp) trivial
  · rw [hsame]
    exact refl_of guar s'
  · rw [hsame] at hreply
    cases hreply
  · rw [hsame] at hreply
    cases hreply

/-- **An account that fits.**  Whatever happens to the requests, a creation leaves the
account as it is if it fits what would be stored. -/
theorem alone_createUser_of_fits {client : Client} {name : String} {ttlHours : Option ℤ}
    {groups : List String} {userType : String} {s : IdentityState settings}
    (hmember : username ∈ s.directory.accounts)
    (hfits : ∀ expires, storedExpiry s.now ttlHours = some expires →
      Fits username (initialAttributes expires userType) groups s.directory) :
    Alone (AlongId (SameAccount username))
      (fun result _ => ∀ user, result = .ok user →
        storedExpiry s.now ttlHours ≠ none ∧ Proper settings user ∧ user.username = username)
      (createUser client username name ttlHours groups userType) s := by
  have htaken : ∀ dir : Directory, username ∈ dir.accounts →
      Directory.createUser username name dir = (.duplicate, dir) := fun dir h => if_pos h
  have hcreate : Alone (AlongId (SameAccount username))
      (fun _ s' => s'.directory = s.directory ∧ s'.now = s.now)
      (mutation (Directory.createUser username name)) s := by
    refine alone_mutation (fun s' => s'.directory = s.directory ∧ s'.now = s.now)
      (fun _ _ h => h) (fun s' h => ?_) ⟨rfl, rfl⟩
    have hsame : (Directory.createUser username name s'.directory).2 = s.directory := by
      rw [h.1, htaken _ hmember]
    refine ⟨?_, hsame, h.2⟩
    change SameAccount username s'.directory _
    rw [hsame, h.1]
    exact refl_of (SameAccount username) s.directory
  refine alone_bind (hcreate.mono (fun _ _ h => h) ?_)
  rintro (e | _) s₁ ⟨hdirectory, hnow⟩
  · simp
  refine alone_bind (alone_expiryFor (fun expires hstored => ?_) (fun _ n hn => ?_)
    fun _ => by simp)
  · -- The attributes are there already, so sending them keeps the account.
    rw [hnow] at hstored
    have hfits := hfits expires hstored
    have hlast : ∀ s₃ : IdentityState settings, Alone (AlongId (SameAccount username))
        (fun result _ => ∀ user, result = .ok user → storedExpiry s.now ttlHours ≠ none ∧
          Proper settings user ∧ user.username = username)
        (fetchCreated client username name (initialAttributes expires userType)) s₃ := by
      intro s₃
      refine ((respects_fetchCreated client username name _).alone (fun _ _ _ _ => trivial)
        trivial).mono (fun _ _ h => h) fun result _ h user huser => ⟨?_, h.1 user huser⟩
      rw [hstored]
      simp
    let keeps (s' : IdentityState settings) : Prop :=
      SameAccount username s.directory s'.directory ∧ username ∈ s'.directory.accounts
    have hupdate : Alone (AlongId (SameAccount username)) (fun _ s' => keeps s')
        (mutation (Directory.updateUser username none
          (buildCustomAttributes (initialAttributes expires userType)))) s₁ := by
      refine alone_mutation keeps (fun _ _ h => h) (fun s' h => ?_) ?_
      · have hsame : SameAccount username s'.directory (Directory.updateUser username none
            (buildCustomAttributes (initialAttributes expires userType)) s'.directory).2 := by
          refine sameAccount_updateUser ?_
          rw [h.1.attributes]
          exact hfits.attributes
        exact ⟨hsame, trans_of (SameAccount username) h.1 hsame,
          (Directory.mem_accounts_updateUser_iff _ _ _ _ _).mpr h.2⟩
      · exact ⟨hdirectory ▸ refl_of (SameAccount username) s.directory,
          hdirectory ▸ hmember⟩
    refine alone_bind (hupdate.mono (fun _ _ h => h) ?_)
    rintro (e | _) s₂ ⟨hsame, hmember⟩
    · simp
    dsimp only
    split_ifs
    · refine alone_bind ((alone_ensureUserGroups_of_fits hmember fun g hg => ?_).mono
        (fun _ _ h => h) ?_)
      · exact (hsame.groups _).mpr (hfits.groups g hg)
      · rintro (e | _) s₃ -
        · simp
        · exact hlast s₃
    · exact hlast s₂
  · have hrejects : ¬ (buildCustomAttributes (initialAttributes (some n) userType)).all
        Directory.acceptsValues := fun h => hn ((accepts_build_iff _).mp h n rfl)
    refine alone_bind ((alone_updateUser_of_rejects hrejects s₁).mono (fun _ _ h => h) ?_)
    rintro (e | _) s₂ hresult
    · simp
    · exact absurd rfl hresult

/-- A deactivation, of whichever account, changes nothing about an inactive one. -/
theorem alone_deactivateUser_of_inactive {client : Client} {s : IdentityState settings}
    (hinactive : ∀ existing ∈ s.directory.attributesOf username,
      existing.isActive = some false) (userId : ℤ) :
    Alone (AlongId (SameAccount username)) (fun _ _ => True)
      (deactivateUser client userId) s := by
  have hkeeps : ∀ s₁ s₂ : IdentityState settings, SameAccount username s.directory s₁.directory →
      AlongId (SameAccount username) s₁ s₂ → SameAccount username s.directory s₂.directory :=
    fun _ _ => trans_of (SameAccount username)
  refine alone_bind (((respects_requireUsername client userId).alone hkeeps
    (refl_of (SameAccount username) s.directory)).mono (fun _ _ h => h) ?_)
  rintro (e | v) s₁ ⟨-, hsame⟩
  · trivial
  refine (alone_mutation (fun s' => SameAccount username s.directory s'.directory)
    (fun _ _ h => h) (fun s' h => ?_) hsame).mono (fun _ _ h => h) fun _ _ _ => trivial
  have hstep : SameAccount username s'.directory (Directory.updateUser v none
      (buildCustomAttributes { Attributes.none with isActive := some false })
        s'.directory).2 := by
    rcases eq_or_ne username v with rfl | hne
    · refine sameAccount_updateUser fun existing hexisting => ?_
      rw [h.attributes] at hexisting
      have hfalse := hinactive existing hexisting
      obtain ⟨expires, certsRevoked, isActive, userType⟩ := existing
      obtain rfl : isActive = some false := hfalse
      rfl
    · exact sameAccount_updateUser_of_ne hne none _ _
  exact ⟨hstep, trans_of (SameAccount username) h hstep⟩

end Fits

/-! ## With all requests answered -/

/-- No restriction on the steps. -/
def Anyhow (_ _ : IdentityState settings) : Prop := True

instance : Tolerant (@Anyhow settings) where
  refl _ := trivial
  trans _ _ _ _ _ := trivial
  quiet _ _ _ := trivial

/-- How the program ends from a state. -/
abbrev Ends (post : Except Exn α → IdentityState settings → Prop)
    (program : IdProg settings α) (s : IdentityState settings) : Prop :=
  Alone Anyhow post program s

theorem ends_graphql {onEmpty : IdProg settings α}
    {request : Directory → Directory.Reply α × Directory} {s : IdentityState settings}
    {post : Except Exn α → IdentityState settings → Prop} (hcalm : s.lldap = [])
    (hsettle : Ends post (settle onEmpty (request s.directory).1)
      (withDirectory s (request s.directory).2)) :
    Ends post (graphql onEmpty request) s := by
  have hrest : { s with lldap := s.lldap.tail } = s := by
    rw [hcalm]
    exact congrArg (fun queue => withQueue queue s) hcalm.symm
  have hattempt : graphqlAttempt request s =
      (.ok (some (request s.directory).1), withDirectory s (request s.directory).2) := by
    simp only [graphqlAttempt, hrest]
    rw [hcalm]
    rfl
  refine alone_bind (alone_atomic trivial ?_)
  rw [hattempt]
  cases hreply : (request s.directory).1 with
  | data value =>
      rw [hreply] at hsettle
      exact hsettle
  | duplicate =>
      rw [hreply] at hsettle
      exact hsettle
  | errors =>
      rw [hreply] at hsettle
      exact hsettle

section Answered

variable (hrecognizes : settings.recognizesDuplicates)
include hrecognizes

/-- A mutation that succeeds or finds its work done. -/
theorem ends_mutation {request : Directory → Directory.Reply Unit × Directory}
    {s : IdentityState settings} {post : Except Exn Unit → IdentityState settings → Prop}
    (hcalm : s.lldap = [])
    (hreply : (request s.directory).1 = .data () ∨ (request s.directory).1 = .duplicate)
    (hpost : post (.ok ()) (withDirectory s (request s.directory).2)) :
    Ends post (mutation request) s := by
  refine ends_graphql hcalm ?_
  rcases hreply with hreply | hreply
  · rw [hreply]
    exact alone_pure hpost
  · rw [hreply, settle_duplicate hrecognizes]
    exact alone_pure hpost

omit hrecognizes in
theorem ends_query {f : Directory → α} {s : IdentityState settings}
    {post : Except Exn α → IdentityState settings → Prop} (hcalm : s.lldap = [])
    (hpost : post (.ok (f s.directory)) s) : Ends post (query f) s :=
  ends_graphql hcalm (alone_pure hpost)

/-- What holds while the groups of an account are ensured that were listed at the start:
a group that was not listed is one it has become a member of. -/
structure Ensuring (username : String) (start dir : Directory) : Prop where
  accounts : dir.accounts = start.accounts
  listed : ∀ entry ∈ start.groupNames, entry ∈ dir.groupNames
  grown : ∀ group, start.IsMember username group → dir.IsMember username group
  fresh : ∀ entry ∈ dir.groupNames, entry ∈ start.groupNames ∨
    dir.IsMember username entry.2 ∧ ¬ start.IsMember username entry.2

omit hrecognizes in
theorem ensuring_refl (username : String) (dir : Directory) : Ensuring username dir dir where
  accounts := rfl
  listed := fun _ h => h
  grown := fun _ h => h
  fresh := fun _ h => Or.inl h

omit hrecognizes in
theorem Ensuring.add {username : String} {start dir : Directory}
    (hinv : Ensuring username start dir) (gid : ℤ) :
    Ensuring username start (Directory.addUserToGroup username gid dir).2 where
  accounts := (Directory.accounts_addUserToGroup username gid dir).trans hinv.accounts
  listed := by
    rw [Directory.groupNames_addUserToGroup]
    exact hinv.listed
  grown := fun group h =>
    Directory.isMember_addUserToGroup_of_isMember username gid (hinv.grown group h)
  fresh := by
    rw [Directory.groupNames_addUserToGroup]
    exact fun entry h => (hinv.fresh entry h).imp_right fun h =>
      ⟨Directory.isMember_addUserToGroup_of_isMember username gid h.1, h.2⟩

/-- One round: the account is a member afterwards, or it has gained a group. -/
theorem ends_ensureMember {username : String} {start : Directory} {s : IdentityState settings}
    (hmember : username ∈ start.accounts) (name : String) (hcalm : s.lldap = [])
    (hinv : Ensuring username start s.directory) :
    Ends (fun result s' =>
      match result with
      | .ok _ => s'.lldap = [] ∧ Ensuring username start s'.directory ∧
          s'.directory.IsMember username (takName name) ∧
          ∀ group, s.directory.IsMember username group → s'.directory.IsMember username group
      | .error _ => ∃ group, s'.directory.IsMember username group ∧
          ¬ start.IsMember username group)
      (ensureMember username start.groupNames name) s := by
  have hmember' : username ∈ s.directory.accounts := hinv.accounts ▸ hmember
  by_cases hname : takName name ∈ start.groupNames.map Prod.snd
  · obtain ⟨gid, hgid, hpair⟩ : ∃ gid, (ensureMember username start.groupNames name :
      IdProg settings Unit) = mutation (Directory.addUserToGroup username gid) ∧
        (gid, takName name) ∈ start.groupNames := ensureMember_of_mem hname
    rw [hgid]
    obtain ⟨hadded, hreply⟩ :=
      Directory.isMember_addUserToGroup_self hmember' (hinv.listed _ hpair)
    exact ends_mutation hrecognizes hcalm hreply ⟨hcalm, hinv.add gid, hadded,
      fun _ h => Directory.isMember_addUserToGroup_of_isMember username gid h⟩
  · rw [ensureMember, ensureGroup_of_notMem hname]
    refine alone_bind (ends_graphql hcalm ?_)
    by_cases htaken : takName name ∈ s.directory.groups.map Group.displayName
    · -- The name was made a group earlier in the same request.
      have hduplicate : Directory.createGroup (takName name) s.directory =
          (.duplicate, s.directory) := dif_pos htaken
      rw [hduplicate, settle, if_pos hrecognizes]
      refine alone_raise ?_
      rw [← Directory.groupNames_snd, List.mem_map] at htaken
      obtain ⟨entry, hentry, hsnd⟩ := htaken
      rcases hinv.fresh entry hentry with hstart | hgained
      · exact absurd (List.mem_map.mpr ⟨entry, hstart, hsnd⟩) hname
      · exact ⟨entry.2, hgained⟩
    · obtain ⟨hreply, hnames⟩ := Directory.groupNames_createGroup htaken
      rw [hreply]
      refine alone_pure ?_
      have haccounts := Directory.accounts_createGroup (takName name) s.directory
      have hpair : (s.directory.nextGroupId, takName name) ∈
          (Directory.createGroup (takName name) s.directory).2.groupNames := by
        rw [hnames]
        exact List.mem_cons_self
      have hstill : ∀ group, s.directory.IsMember username group →
          (Directory.createGroup (takName name) s.directory).2.IsMember username group :=
        fun group => (Directory.isMember_createGroup_iff _ _ _ _).mpr
      obtain ⟨hadded, hreply'⟩ := Directory.isMember_addUserToGroup_self
        (haccounts ▸ hmember') hpair
      have hadd : ∀ {group : String},
          (Directory.createGroup (takName name) s.directory).2.IsMember username group →
            (Directory.addUserToGroup username s.directory.nextGroupId
              (Directory.createGroup (takName name) s.directory).2).2.IsMember username group :=
        fun h => Directory.isMember_addUserToGroup_of_isMember _ _ h
      refine ends_mutation hrecognizes hcalm hreply' ⟨hcalm, ?_, hadded,
        fun group h => hadd (hstill group h)⟩
      refine ⟨?_, fun entry h => ?_, fun group h => hadd (hstill _ (hinv.grown group h)),
        fun entry h => ?_⟩
      · exact (Directory.accounts_addUserToGroup _ _ _).trans (haccounts.trans hinv.accounts)
      · change entry ∈ (Directory.addUserToGroup _ _ _).2.groupNames
        rw [Directory.groupNames_addUserToGroup]
        change entry ∈ (Directory.createGroup _ _).2.groupNames
        rw [hnames]
        exact List.mem_cons_of_mem _ (hinv.listed entry h)
      · change entry ∈ (Directory.addUserToGroup _ _ _).2.groupNames at h
        rw [Directory.groupNames_addUserToGroup] at h
        change entry ∈ (Directory.createGroup _ _).2.groupNames at h
        rw [hnames] at h
        rcases List.mem_cons.mp h with rfl | h
        · exact Or.inr ⟨hadded, fun hstart => hname (Directory.mem_names_of_isMember hstart)⟩
        · exact (hinv.fresh entry h).imp_right fun h => ⟨hadd (hstill _ h.1), h.2⟩

theorem ends_ensureMembers {username : String} {start : Directory} {names : List String}
    {s : IdentityState settings} (hmember : username ∈ start.accounts) (hcalm : s.lldap = [])
    (hinv : Ensuring username start s.directory) :
    Ends (fun result s' =>
      match result with
      | .ok _ => s'.lldap = [] ∧ Ensuring username start s'.directory ∧
          (∀ name ∈ names, s'.directory.IsMember username (takName name)) ∧
          ∀ group, s.directory.IsMember username group → s'.directory.IsMember username group
      | .error _ => ∃ group, s'.directory.IsMember username group ∧
          ¬ start.IsMember username group)
      (forList (ensureMember username start.groupNames) names) s := by
  induction names generalizing s with
  | nil => exact alone_pure ⟨hcalm, hinv, by simp, fun _ h => h⟩
  | cons name names ih =>
      refine alone_bind ((ends_ensureMember hrecognizes hmember name hcalm hinv).mono
        (fun _ _ h => h) ?_)
      rintro (e | _) s₁ hfirst
      · exact hfirst
      obtain ⟨hcalm, hinv, hadded, hgrown⟩ := hfirst
      refine (ih hcalm hinv).mono (fun _ _ h => h) ?_
      rintro (e | _) s₂ hrest
      · exact hrest
      obtain ⟨hcalm, hinv, hnames, hgrown'⟩ := hrest
      refine ⟨hcalm, hinv, fun other hother => ?_, fun group h => hgrown' _ (hgrown _ h)⟩
      rcases List.mem_cons.mp hother with rfl | hother
      · exact hgrown' _ hadded
      · exact hnames other hother

omit hrecognizes in
theorem ends_fetchCreated {client : Client} {username name : String} {attrs : Attributes}
    {s : IdentityState settings} {post : Except Exn UserRecord → IdentityState settings → Prop}
    (hcalm : s.lldap = [])
    (hpost : ∀ user, Proper settings user → user.username = username →
      post (.ok user) (noteId client username s)) :
    Ends post (fetchCreated client username name attrs) s := by
  refine alone_bind (ends_query hcalm ?_)
  dsimp only
  split
  · next u hfind =>
      have hid : u.id = username := by simpa using List.find?_some hfind
      subst hid
      exact alone_bind (alone_atomic trivial (alone_pure (hpost _ rfl rfl)))
  · exact alone_bind (alone_atomic trivial (alone_pure (hpost _ rfl rfl)))

/-- What a creation with all requests answered has made of the account there was. -/
structure Recreated (client : Client) (username : String) (attrs : Attributes)
    (groups : List String) (dir : Directory) (s : IdentityState settings) : Prop where
  calm : s.lldap = []
  attributes : s.directory.attributesOf username =
    (dir.attributesOf username).map attrs.over
  groups : ∀ name ∈ groups, s.directory.IsMember username (takName name)
  known : Known client (settings.numericId username) username s

omit hrecognizes in
/-- An account that came out as it was fitted before. -/
theorem fits_of_recreated {client : Client} {username : String} {attrs : Attributes}
    {groups : List String} {dir : Directory} {s : IdentityState settings}
    (hrecreated : Recreated client username attrs groups dir s)
    (hsame : SameAccount username dir s.directory) : Fits username attrs groups dir where
  attributes := fun existing hexisting => by
    have hafter := hrecreated.attributes
    rw [hsame.attributes, hexisting] at hafter
    exact (Option.some.inj hafter).symm
  groups := fun name hname => (hsame.groups _).mp (hrecreated.groups name hname)

/-- **An existing account.**  With all requests answered, a creation sends its attributes to
the account there is and adds it to the groups, or it has made it a member of a group when it
raises. -/
theorem ends_createUser_existing {client : Client} {username name : String}
    {ttlHours : Option ℤ} {groups : List String} {userType : String}
    {s : IdentityState settings} {expires : Option ℤ} (hcalm : s.lldap = [])
    (hmember : username ∈ s.directory.accounts)
    (hstored : storedExpiry s.now ttlHours = some expires) :
    Ends (fun result s' =>
      match result with
      | .ok user => Proper settings user ∧ user.username = username ∧
          Recreated client username (initialAttributes expires userType) groups s.directory s'
      | .error _ => ∃ group, s'.directory.IsMember username group ∧
          ¬ s.directory.IsMember username group)
      (createUser client username name ttlHours groups userType) s := by
  obtain ⟨account, haccount⟩ := Option.isSome_iff_exists.mp (AList.lookup_isSome.mpr hmember)
  have htaken : Directory.createUser username name s.directory = (.duplicate, s.directory) :=
    if_pos hmember
  refine alone_bind (ends_mutation hrecognizes hcalm (by rw [htaken]; simp) ?_)
  rw [htaken]
  refine alone_bind (alone_expiryFor (fun expires' hstored' => ?_) (fun hnone => ?_)
    fun hnone => ?_)
  · obtain rfl : expires = expires' := Option.some.inj (hstored.symm.trans hstored')
    set inserted := buildCustomAttributes (initialAttributes expires userType)
    have haccepts : inserted.all Directory.acceptsValues := by
      refine (accepts_build_iff _).mpr fun n hn => ?_
      obtain rfl : expires = some n := hn
      cases ttlHours with
      | none => cases hstored
      | some ttlHours =>
          simp only [storedExpiry] at hstored
          split_ifs at hstored with hlimit hrange
          obtain rfl := Option.some.inj (Option.some.inj hstored)
          exact hrange
    have hreply : (Directory.updateUser username none inserted s.directory).1 = .data () := by
      rw [Directory.updateUser_of_accepts haccount haccepts]
    have hattributes : (Directory.updateUser username none inserted s.directory).2.attributesOf
        username = (s.directory.attributesOf username).map
          (initialAttributes expires userType).over := by
      rw [Directory.attributesOf_updateUser haccount haccepts, parseAttributes_insert_build,
        Directory.attributesOf, haccount]
      rfl
    have hgroups : ∀ group, (Directory.updateUser username none inserted
        s.directory).2.IsMember username group ↔ s.directory.IsMember username group :=
      Directory.isMember_congr (Directory.groups_updateUser _ _ _ _) username
    refine alone_bind (ends_mutation hrecognizes hcalm (Or.inl hreply) ?_)
    dsimp only
    split_ifs with hnone
    · -- The groups are ensured from the directory with the new attributes.
      rw [ensureUserGroups_eq]
      refine alone_bind (alone_bind (ends_query hcalm ?_))
      have hmember' : username ∈
          (Directory.updateUser username none inserted s.directory).2.accounts :=
        (Directory.mem_accounts_updateUser_iff _ _ _ _ _).mpr hmember
      refine (ends_ensureMembers (s := withDirectory _
        (Directory.updateUser username none inserted s.directory).2) hrecognizes hmember' hcalm
        (ensuring_refl _ _)).mono (fun _ _ h => h) ?_
      rintro (e | _) s₃ hrest
      · obtain ⟨group, hgained, hbefore⟩ := hrest
        exact ⟨group, hgained, fun h => hbefore ((hgroups group).mpr h)⟩
      · obtain ⟨hcalm, hinv, hnames, -⟩ := hrest
        refine ends_fetchCreated hcalm fun user hproper hname => ⟨hproper, hname, hcalm, ?_,
          hnames, lookup_noteId client username s₃⟩
        change s₃.directory.attributesOf username = _
        rw [Directory.attributesOf, hinv.accounts]
        exact hattributes
    · push Not at hnone
      refine ends_fetchCreated hcalm fun user hproper hname => ⟨hproper, hname, hcalm,
        hattributes, by simp [hnone], lookup_noteId client username _⟩
  · exact absurd (hstored.symm.trans hnone) (by simp)
  · exact absurd (hstored.symm.trans hnone) (by simp)

/-- A deactivation of an account whose id is known. -/
theorem ends_deactivateUser {client : Client} {userId : ℤ} {username : String}
    {s : IdentityState settings} {attrs : Attributes} (hcalm : s.lldap = [])
    (hknown : Known client userId username s)
    (hattributes : s.directory.attributesOf username = some attrs) :
    Ends (fun _ s' =>
      s'.directory.attributesOf username = some { attrs with isActive := some false } ∧
        ∀ group, s'.directory.IsMember username group ↔ s.directory.IsMember username group)
      (deactivateUser client userId) s := by
  obtain ⟨account, haccount, rfl⟩ := Option.map_eq_some_iff.mp hattributes
  refine alone_requireUsername_bind hknown ?_
  set inserted := buildCustomAttributes { Attributes.none with isActive := some false }
  have haccepts : inserted.all Directory.acceptsValues :=
    (accepts_build_iff _).mpr (by simp [Attributes.none])
  have hreply : (Directory.updateUser username none inserted s.directory).1 = .data () := by
    rw [Directory.updateUser_of_accepts haccount haccepts]
  refine ends_mutation hrecognizes hcalm (Or.inl hreply) ⟨?_, ?_⟩
  · change (Directory.updateUser username none inserted s.directory).2.attributesOf _ = _
    rw [Directory.attributesOf_updateUser haccount haccepts, parseAttributes_insert_build]
    rfl
  · exact Directory.isMember_congr (Directory.groups_updateUser _ _ _ _) username

end Answered

end FastTAK.Identity
