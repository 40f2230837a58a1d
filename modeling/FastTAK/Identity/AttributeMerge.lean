import FastTAK.Identity.Fates
import FastTAK.Identity.LostUpdate
import FastTAK.Identity.Memberships
import FastTAK.Identity.Recreation

/-!
# Merging attributes

`update_user` and `mark_certs_revoked` read the attributes of an account, change some of them and
write all of them back.  Alone, they change exactly those they are asked to change.
-/

namespace FastTAK.Identity

open FastTAK.Effect FastTAK.Effect.Prog FastTAK.Api

/-! ## What is written is read back -/

/-- The attributes the monitor knows of. -/
def fastakAttributes : List String :=
  ["fastak_expires", "fastak_certs_revoked", "is_active", "fastak_user_type"]

/-- Parsing what was built of a dictionary gives the dictionary. -/
theorem parseAttributes_build (attrs : Attributes) :
    parseAttributes (insertAttributes ∅ (buildCustomAttributes attrs)) = attrs := by
  have hempty : parseAttributes ∅ = Attributes.none := rfl
  rw [parseAttributes_insert_build, hempty]
  simp only [Attributes.over, Attributes.none, Option.or_none]

/-- What is inserted for an update of what is stored is read as the update. -/
theorem parseAttributes_insert_merge (stored : Stored) (update : AttributesUpdate) :
    parseAttributes (insertAttributes stored
      (buildCustomAttributes ((parseAttributes stored).merge update) ++ update.cleared)) =
        (parseAttributes stored).merge update := by
  rw [insertAttributes_append, parseAttributes_insert_cleared, parseAttributes_insert_build]
  obtain ⟨expires, certsRevoked, isActive⟩ := update
  simp only [Attributes.over, Attributes.merge, Attributes.mk.injEq, Option.or_self, and_true]
  refine ⟨?_, ?_, ?_⟩
  · rcases expires with - | - | n
    · simp
    · simp
    · simp
  · rcases certsRevoked with - | - | b
    · simp
    · simp
    · simp
  · cases isActive with
    | none => simp
    | some b => rfl

theorem lookup_insertAttributes_of_notMem (stored : Stored)
    {inserted : List (String × List String)} {name : String}
    (hname : name ∉ inserted.map Prod.fst) :
    (insertAttributes stored inserted).lookup name = stored.lookup name := by
  induction inserted generalizing stored with
  | nil => rfl
  | cons entry rest ih =>
      obtain ⟨other, values⟩ := entry
      simp only [List.map_cons, List.mem_cons, not_or] at hname
      rw [insertAttributes, ih _ hname.2]
      split_ifs
      · exact AList.lookup_erase_ne hname.1
      · exact AList.lookup_insert_ne hname.1

/-- The names of a dictionary are those of its keys. -/
theorem mem_buildCustomAttributes_iff {attrs : Attributes} {name : String} :
    name ∈ (buildCustomAttributes attrs).map Prod.fst ↔
      name = "fastak_certs_revoked" ∧ attrs.certsRevoked.isSome ∨
      name = "fastak_expires" ∧ attrs.expires.isSome ∨
      name = "is_active" ∧ attrs.isActive.isSome ∨
      name = "fastak_user_type" ∧ attrs.userType.isSome := by
  have hpart : ∀ {β : Type} (x : Option β) (own : String) (text : β → String),
      name ∈ ((x.map fun b => (own, [text b])).toList).map Prod.fst ↔
        name = own ∧ x.isSome := by
    intro β x own text
    cases x with
    | none => simp
    | some b => simp
  simp only [buildCustomAttributes, List.map_append, List.mem_append, hpart _ _ boolText,
    hpart _ _ toString, hpart _ _ fun t => t, or_assoc]

theorem mem_cleared_iff {update : AttributesUpdate} {name : String} :
    name ∈ update.cleared.map Prod.fst ↔
      name = "fastak_expires" ∧ update.expires = some none ∨
      name = "fastak_certs_revoked" ∧ update.certsRevoked = some none := by
  unfold AttributesUpdate.cleared
  split_ifs with hexpires hrevoked hrevoked
  · simp [hexpires, hrevoked]
  · simp [hexpires, hrevoked]
  · simp [hexpires, hrevoked]
  · simp [hexpires, hrevoked]

/-- An attribute is sent with a value, or to be cleared, but not both. -/
theorem nodup_merge (existing : Attributes) (update : AttributesUpdate) :
    ((buildCustomAttributes (existing.merge update) ++ update.cleared).map Prod.fst).Nodup := by
  rw [List.map_append, List.nodup_append']
  refine ⟨nodup_buildCustomAttributes _, nodup_cleared update, ?_⟩
  intro name hbuilt hcleared
  rw [mem_buildCustomAttributes_iff] at hbuilt
  rcases mem_cleared_iff.mp hcleared with ⟨rfl, hexpires⟩ | ⟨rfl, hrevoked⟩
  · simp [Attributes.merge, hexpires] at hbuilt
  · simp [Attributes.merge, hrevoked] at hbuilt

/-- Only attributes of the monitor are sent. -/
theorem mem_fastakAttributes_of_merge {existing : Attributes} {update : AttributesUpdate}
    {name : String}
    (hname : name ∈ (buildCustomAttributes (existing.merge update) ++
      update.cleared).map Prod.fst) : name ∈ fastakAttributes := by
  rw [List.map_append, List.mem_append, mem_buildCustomAttributes_iff, mem_cleared_iff] at hname
  simp only [fastakAttributes, List.mem_cons, List.not_mem_nil, or_false]
  tauto

/-! ## What is asked for -/

/-- The attributes before and after a call of `update_user` that does what it is asked to do. -/
structure Asked (changes : UserChanges) (now : ℚ) (before after : Attributes) : Prop where
  isActive : after.isActive = changes.isActive.or before.isActive
  userType : after.userType = before.userType
  expires_kept : changes.ttlHours = none → after.expires = before.expires
  expires_cleared : changes.ttlHours = some none → after.expires = none
  expires_set : ∀ ttlHours, changes.ttlHours = some (some ttlHours) →
    after.expires = some (pyTrunc (now + (ttlHours * 3600 : ℤ)))
  certsRevoked_cleared : changes.ttlHours = some none → after.certsRevoked = none
  certsRevoked_reset : changes.ttlHours ≠ some none →
    changes.ttlHours ≠ none ∨ changes.isActive = some true → after.certsRevoked = some false
  certsRevoked_kept : changes.ttlHours = none → changes.isActive ≠ some true →
    after.certsRevoked = before.certsRevoked

/-- The same for `mark_certs_revoked`. -/
def Marked (before after : Attributes) : Prop :=
  after = { before with certsRevoked := some true }

/-- A call changes nothing but the attributes of the account, and only those of the monitor.  If
it returns they are as asked for; if it raises they may also be as before. -/
structure Merges (asked : Attributes → Attributes → Prop) (username : String) (returned : Bool)
    (dir dir' : Directory) : Prop where
  attributes : ∀ before, dir.attributesOf username = some before →
    ∃ after, dir'.attributesOf username = some after ∧
      (asked before after ∨ returned = false ∧ after = before)
  others : ∀ other, other ≠ username → dir'.accounts.lookup other = dir.accounts.lookup other
  stored : ∀ name ∉ fastakAttributes,
    (dir'.accounts.lookup username).bind (fun account => account.attributes.lookup name) =
      (dir.accounts.lookup username).bind fun account => account.attributes.lookup name
  groups : dir'.groups = dir.groups

section Asking

variable {changes : UserChanges} {now : ℚ} {before : Attributes} {expires : Option ℤ}

theorem asked_merge (hexpires : ∀ ttlHours, changes.ttlHours = some (some ttlHours) →
    expires = some (pyTrunc (now + (ttlHours * 3600 : ℤ))))
    (hnone : changes.ttlHours = some none → expires = none) :
    Asked changes now before (before.merge (attributesUpdate changes expires)) := by
  obtain ⟨name, isActive, ttlHours⟩ := changes
  constructor
  · rfl
  · rfl
  · rintro ⟨⟩
    rfl
  · rintro ⟨⟩
    exact hnone rfl
  · rintro ttlHours ⟨⟩
    exact hexpires ttlHours rfl
  · rintro ⟨⟩
    rfl
  · intro hcleared hreset
    rcases ttlHours with - | - | hours
    · rcases isActive with - | - | -
      · simp at hreset
      · simp at hreset
      · rfl
    · exact absurd rfl hcleared
    · rfl
  · rintro ⟨⟩ hinactive
    rcases isActive with - | - | -
    · rfl
    · rfl
    · exact absurd rfl hinactive

theorem asked_of_no_attribute (hactive : changes.isActive = none)
    (httl : changes.ttlHours = none) : Asked changes now before before := by
  constructor
  · rw [hactive, Option.none_or]
  · rfl
  · exact fun _ => rfl
  · intro h
    cases httl.symm.trans h
  · intro ttlHours h
    cases httl.symm.trans h
  · intro h
    cases httl.symm.trans h
  · rintro - (h | h)
    · exact absurd httl h
    · cases hactive.symm.trans h
  · exact fun _ _ => rfl

end Asking

/-! ## One mutation -/

section Mutation

variable {settings : Settings} {username : String} {name : Option String}
  {inserted : List (String × List String)} {asked : Attributes → Attributes → Prop}

theorem merges_refl (asked : Attributes → Attributes → Prop) (username : String)
    (dir : Directory) : Merges asked username false dir dir where
  attributes before hbefore := ⟨before, hbefore, Or.inr ⟨rfl, rfl⟩⟩
  others _ _ := rfl
  stored _ _ := rfl
  groups := rfl

/-- Sending attributes that are read as asked for. -/
theorem alone_merges (hnodup : (inserted.map Prod.fst).Nodup)
    (hnames : ∀ name ∈ inserted.map Prod.fst, name ∈ fastakAttributes)
    {s : IdentityState settings} {dir : Directory} (hdir : s.directory = dir) {account : Account}
    (haccount : dir.accounts.lookup username = some account)
    (hasked : asked (parseAttributes account.attributes)
      (parseAttributes (insertAttributes account.attributes inserted))) :
    Alone (fun _ _ => True)
      (fun result s' => Merges asked username result.isOk dir s'.directory)
      (mutation (Directory.updateUser username name inserted)) s := by
  subst hdir
  apply (alone_sentUpdate username name hnodup s).mono fun _ _ h => h
  rintro result s' ⟨fate, hended⟩
  rw [hended.directory]
  rcases send_cases fate username name inserted s.directory with
    ⟨-, hdata, hafter⟩ | hnothing
  · have haccepts : inserted.all Directory.acceptsValues := by
      by_contra hrejects
      rw [Directory.updateUser_of_rejects hrejects] at hdata
      cases hdata
    have happlied := @Directory.updateUser_of_accepts _ name _ _ _ haccount haccepts
    rw [hafter]
    constructor
    · intro before hbefore
      refine ⟨_, Directory.attributesOf_updateUser haccount haccepts, Or.inl ?_⟩
      have hparsed : parseAttributes account.attributes = before := by
        rw [Directory.attributesOf, haccount] at hbefore
        exact Option.some.inj hbefore
      rw [← hparsed]
      exact hasked
    · intro other hne
      exact Directory.lookup_updateUser_of_ne hne name inserted s.directory
    · intro key hkey
      rw [happlied, haccount]
      dsimp only
      rw [AList.lookup_insert]
      exact lookup_insertAttributes_of_notMem _ fun hmem => hkey (hnames key hmem)
    · exact Directory.groups_updateUser username name inserted s.directory
  · have hraised : result.isOk = false := by
      have h := hended.raised
      rw [hnothing] at h
      cases result with
      | ok _ => cases h
      | error _ => rfl
    rw [hnothing, hraised]
    exact merges_refl asked username s.directory

theorem Merges.raised {dir dir' : Directory} (h : Merges asked username true dir dir')
    (returned : Bool) : Merges asked username returned dir dir' where
  attributes before hbefore := by
    obtain ⟨after, hafter, hasked | ⟨hraised, -⟩⟩ := h.attributes before hbefore
    · exact ⟨after, hafter, Or.inl hasked⟩
    · cases hraised
  others := h.others
  stored := h.stored
  groups := h.groups

/-- The attributes that a mutation is to merge with are those of the account. -/
theorem alone_existingAttributes_bind {next : Attributes → IdProg settings Unit}
    {s : IdentityState settings} {account : Account}
    (haccount : s.directory.accounts.lookup username = some account)
    (hnext : ∀ queue, Alone (fun _ _ => True)
      (fun result s' => Merges asked username result.isOk s.directory s'.directory)
      (next (parseAttributes account.attributes)) (withQueue queue s)) :
    Alone (fun _ _ => True)
      (fun result s' => Merges asked username result.isOk s.directory s'.directory)
      (existingAttributes username >>= next) s := by
  apply alone_bind
  apply alone_bind
  apply alone_query
  · intro queue
    have huser : s.directory.user username = some (s.directory.view username account) := by
      rw [Directory.user, haccount]
      rfl
    rw [huser]
    exact hnext queue
  · intro queue e
    exact merges_refl asked username s.directory

theorem merges_sendChanges {changes : UserChanges} {expires : Option ℤ}
    {s : IdentityState settings} {account : Account}
    (haccount : s.directory.accounts.lookup username = some account)
    (hexpires : ∀ ttlHours, changes.ttlHours = some (some ttlHours) →
      expires = some (pyTrunc (s.now + (ttlHours * 3600 : ℤ))))
    (hnone : changes.ttlHours = some none → expires = none) :
    Alone (fun _ _ => True)
      (fun result s' =>
        Merges (Asked changes s.now) username result.isOk s.directory s'.directory)
      (sendChanges username changes expires) s := by
  unfold sendChanges
  split_ifs with hnothing hname
  · apply alone_pure
    have hasked : ∀ before, Asked changes s.now before before :=
      fun _ => asked_of_no_attribute hnothing.1 hnothing.2
    exact ⟨fun before hbefore => ⟨before, hbefore, Or.inl (hasked before)⟩, fun _ _ => rfl,
      fun _ _ => rfl, rfl⟩
  · have hnodup : (([] : List (String × List String)).map Prod.fst).Nodup := List.nodup_nil
    apply alone_merges hnodup (by simp) rfl haccount
    exact asked_of_no_attribute hnothing.1 hnothing.2
  · apply alone_existingAttributes_bind haccount
    intro queue
    have hdir : (withQueue queue s).directory = s.directory := rfl
    apply alone_merges (nodup_merge _ _)
      (fun _ hmem => mem_fastakAttributes_of_merge hmem) hdir haccount
    rw [parseAttributes_insert_merge]
    exact asked_merge hexpires hnone

theorem merges_markCertsRevoked {s : IdentityState settings} {account : Account}
    (haccount : s.directory.accounts.lookup username = some account) :
    Alone (fun _ _ => True)
      (fun result s' => Merges Marked username result.isOk s.directory s'.directory)
      (existingAttributes username >>= fun existing =>
        mutation (Directory.updateUser username none
          (buildCustomAttributes { existing with certsRevoked := some true }))) s := by
  apply alone_existingAttributes_bind haccount
  intro queue
  have hnames : ∀ name ∈ (buildCustomAttributes { parseAttributes account.attributes with
      certsRevoked := some true }).map Prod.fst, name ∈ fastakAttributes := by
    intro name hname
    rw [mem_buildCustomAttributes_iff] at hname
    simp only [fastakAttributes, List.mem_cons, List.not_mem_nil, or_false]
    tauto
  have hdir : (withQueue queue s).directory = s.directory := rfl
  apply alone_merges (nodup_buildCustomAttributes _) hnames hdir haccount
  rw [parseAttributes_insert_build]
  simp only [Marked, Attributes.over, Option.or_self, Option.some_or]

end Mutation

/-! ## Calls -/

section Calls

variable {settings : Settings} {client : Client} {userId : ℤ} {username : String}
  {s : IdentityState settings}

/-- An operation that leaves the directory alone, in front of one that merges. -/
theorem alone_requireUsername_resolves {β : Type} {next : String → IdProg settings β}
    {post : Except Exn β → IdentityState settings → Prop}
    (hresolves : Resolves client userId username s)
    (hraises : ∀ e s', Quiet s s' → post (.error e) s')
    (hnext : ∀ s', Quiet s s' → Known client userId username s' →
      Alone (fun _ _ => True) post (next username) s') :
    Alone (fun _ _ => True) post (requireUsername client userId >>= next) s := by
  apply alone_bind
  apply alone_bind
  apply (alone_resolve hresolves).mono fun _ _ _ => trivial
  rintro (e | found) s' ⟨hquiet, -, hfound⟩
  · exact hraises e s' hquiet
  · obtain ⟨rfl, hknown⟩ := hfound found rfl
    exact alone_pure (hnext s' hquiet hknown)

theorem merges_markCertsRevoked_call (hresolves : Resolves client userId username s)
    {account : Account} (haccount : s.directory.accounts.lookup username = some account) :
    Alone (fun _ _ => True)
      (fun result s' => Merges Marked username result.isOk s.directory s'.directory)
      (Identity.markCertsRevoked client userId) s := by
  apply alone_requireUsername_resolves hresolves
  · intro e s' hquiet
    rw [hquiet.directory]
    exact merges_refl Marked username s.directory
  · intro s' hquiet _
    rw [← hquiet.directory] at haccount ⊢
    exact merges_markCertsRevoked haccount

/-- The expiry is the one asked for, or the arithmetic raises. -/
theorem alone_expiry {ttlHours : Option (Option ℤ)}
    {post : Except Exn (Option ℤ) → IdentityState settings → Prop}
    (hraises : ∀ e, post (.error e) s)
    (hexpires : ∀ expires, (∀ hours, ttlHours = some (some hours) →
      expires = some (pyTrunc (s.now + (hours * 3600 : ℤ)))) →
      (ttlHours = some none → expires = none) → post (.ok expires) s) :
    Alone (fun _ _ => True) post (expiryFor ttlHours.join) s := by
  rcases ttlHours with - | - | hours
  · apply alone_pure
    apply hexpires none
    · rintro hours ⟨⟩
    · exact fun _ => rfl
  · apply alone_pure
    apply hexpires none
    · rintro hours ⟨⟩
    · exact fun _ => rfl
  · apply alone_of_run
    rw [Option.join_some, expiryFor, run_bind, expiryAfter, run_bind, Call.bind_apply,
      Call.bind_apply]
    simp only [run_atomic, Call.read_apply]
    split_ifs
    · exact hraises _
    · apply hexpires
      · rintro other ⟨⟩
        rfl
      · rintro ⟨⟩

theorem merges_updateUser (hresolves : Resolves client userId username s)
    {account : Account} (haccount : s.directory.accounts.lookup username = some account)
    (changes : UserChanges) :
    Alone (fun _ _ => True)
      (fun result s' =>
        Merges (Asked changes s.now) username result.isOk s.directory s'.directory)
      (updateUser client userId changes) s := by
  apply alone_requireUsername_resolves hresolves
  · intro e s' hquiet
    rw [hquiet.directory]
    exact merges_refl _ username s.directory
  · intro s' hquiet _
    rw [← hquiet.directory] at haccount ⊢
    rw [← hquiet.now]
    apply alone_bind
    apply alone_expiry
    · intro e
      exact merges_refl _ username s'.directory
    · intro expires hexpires hnone
      apply alone_bind
      apply (merges_sendChanges haccount hexpires hnone).mono fun _ _ h => h
      rintro (e | _) s₁ hsent
      · exact hsent
      · have hlast : Respects Quiet (fun _ => True)
            (getUser client userId : IdProg settings _) :=
          (respects_getUser client userId).mono (fun _ _ h => h) fun _ _ => trivial
        apply ((hlast.alone (fun _ _ => trans_of Quiet) (refl_of Quiet s₁)).mono
          fun _ _ _ => trivial)
        rintro result s₂ ⟨-, hquiet₂⟩
        rw [hquiet₂.directory]
        exact hsent.raised result.isOk

end Calls

/-! ## Calls that return -/

section Returning

variable {settings : Settings} {client : Client} {userId : ℤ} {username : String}
  {s : IdentityState settings}

/-- LLDAP can store the expiry that the change leads to. -/
def Storable (changes : UserChanges) (now : ℚ) (before : Attributes) : Prop :=
  match changes.ttlHours with
  | some ttlHours => storedExpiry now ttlHours ≠ none
  | none => ∀ expires ∈ before.expires, -2 ^ 63 ≤ expires ∧ expires < 2 ^ 63

theorem run_mutation_of_accepts {name : Option String} {inserted : List (String × List String)}
    {account : Account} (haccount : s.directory.accounts.lookup username = some account)
    (haccepts : inserted.all Directory.acceptsValues) :
    (mutation (Directory.updateUser username name inserted)).run (withQueue [] s) =
      (.ok (), withQueue [] (withDirectory s
        (Directory.updateUser username name inserted s.directory).2)) := by
  rw [mutation, graphql, run_attempts_answered 2 rfl,
    Directory.updateUser_of_accepts haccount haccepts]
  rfl

theorem run_existingAttributes {account : Account}
    (haccount : s.directory.accounts.lookup username = some account) :
    (existingAttributes username).run (withQueue [] s) =
      (.ok (parseAttributes account.attributes), withQueue [] s) := by
  have huser : s.directory.user username = some (s.directory.view username account) := by
    rw [Directory.user, haccount]
    rfl
  rw [existingAttributes, run_bind, Call.bind_of_ok (run_query _ s), huser]
  rfl

/-- An attribute to be cleared is accepted. -/
theorem accepts_cleared (update : AttributesUpdate) :
    update.cleared.all Directory.acceptsValues := by
  unfold AttributesUpdate.cleared
  split_ifs
  · decide
  · decide
  · decide
  · rfl

theorem run_sendChanges {changes : UserChanges} {expires : Option ℤ} {account : Account}
    (haccount : s.directory.accounts.lookup username = some account)
    (hfits : ∀ n ∈ ((parseAttributes account.attributes).merge
      (attributesUpdate changes expires)).expires, -2 ^ 63 ≤ n ∧ n < 2 ^ 63) :
    ∃ dir, (sendChanges username changes expires).run (withQueue [] s) =
      (.ok (), withQueue [] (withDirectory s dir)) := by
  unfold sendChanges
  split_ifs
  · exact ⟨s.directory, rfl⟩
  · exact ⟨_, run_mutation_of_accepts haccount rfl⟩
  · have haccepts : (buildCustomAttributes ((parseAttributes account.attributes).merge
        (attributesUpdate changes expires)) ++
        (attributesUpdate changes expires).cleared).all Directory.acceptsValues := by
      rw [List.all_append, Bool.and_eq_true]
      exact ⟨(accepts_build_iff _).mpr hfits, accepts_cleared _⟩
    rw [run_bind, Call.bind_of_ok (run_existingAttributes haccount)]
    exact ⟨_, run_mutation_of_accepts haccount haccepts⟩

/-- A state in which nothing fails is a state without faults ahead. -/
theorem withQueue_nil {s : IdentityState settings} (hqueue : s.lldap = []) :
    withQueue [] s = s := by
  rw [← hqueue]
  rfl

/-- While LLDAP answers, a visible user is found, and its id is known afterwards. -/
theorem run_getUser {account : Account} (hresolves : Resolves client userId username s)
    (haccount : s.directory.accounts.lookup username = some account)
    (hvisible : ¬ isHidden settings client username) :
    ∃ s', (getUser client userId).run (withQueue [] s) =
        (.ok (some (toRecord settings (s.directory.view username account))), s') ∧
      Quiet s s' ∧ s'.lldap = [] ∧ Known client userId username s' := by
  obtain ⟨s₁, hresolve, hquiet, hqueue, hknown⟩ := run_resolveUsername hresolves
  have huser : s₁.directory.user username = some (s.directory.view username account) := by
    rw [hquiet.directory, Directory.user, haccount]
    rfl
  have hread : (query (Directory.user · username)).run s₁ =
      (.ok (s₁.directory.user username), s₁) := by
    have h := run_query (Directory.user · username) s₁
    rwa [withQueue_nil hqueue] at h
  refine ⟨noteId client username s₁, ?_, ?_, hqueue, ?_⟩
  · rw [getUser, run_bind, Call.bind_of_ok hresolve]
    dsimp only
    rw [if_neg hvisible, run_bind, Call.bind_of_ok hread, huser]
    have hshown : ¬ isHidden settings client (s.directory.view username account).id := hvisible
    dsimp only
    rw [if_neg hshown]
    rfl
  · exact ⟨hquiet.directory, hquiet.tokens, hquiet.now, hquiet.minted⟩
  · have hid : settings.numericId username = userId := IdMap.sound _ _ _ hknown
    rw [← hid]
    exact lookup_noteId client username s₁

theorem isOk_getUser (hknown : Known client userId username s) :
    ((getUser client userId).run (withQueue [] s)).1.isOk := by
  have hahead : Known client userId username (withQueue [] s) := hknown
  rw [getUser, run_bind, Call.bind_of_ok (run_resolveUsername_of_known hahead)]
  dsimp only
  split_ifs
  · rfl
  · rw [run_bind, Call.bind_of_ok (run_query _ s)]
    cases s.directory.user username with
    | none => rfl
    | some u =>
        dsimp only
        split_ifs
        · rfl
        · rfl

theorem isOk_updateUser (hresolves : Resolves client userId username s) {account : Account}
    (haccount : s.directory.accounts.lookup username = some account) {changes : UserChanges}
    (hstorable : Storable changes s.now (parseAttributes account.attributes)) :
    ((updateUser client userId changes).run (withQueue [] s)).1.isOk := by
  obtain ⟨s₁, hrequire, hquiet, hqueue, hknown⟩ := run_requireUsername hresolves
  have hs₁ := (withQueue_nil hqueue).symm
  rw [← hquiet.directory] at haccount
  rw [← hquiet.now] at hstorable
  have hexpiry : ∃ expires, (expiryFor changes.ttlHours.join).run s₁ = (.ok expires, s₁) ∧
      ∀ n ∈ ((parseAttributes account.attributes).merge
        (attributesUpdate changes expires)).expires, -2 ^ 63 ≤ n ∧ n < 2 ^ 63 := by
    obtain ⟨name, isActive, ttlHours⟩ := changes
    rcases ttlHours with - | - | hours
    · exact ⟨none, rfl, hstorable⟩
    · refine ⟨none, rfl, ?_⟩
      rintro n ⟨⟩
    · simp only [Storable, storedExpiry] at hstorable
      split_ifs at hstorable with hlimit hrange
      · exact absurd rfl hstorable
      · refine ⟨some (pyTrunc (s₁.now + (hours * 3600 : ℤ))), ?_, ?_⟩
        · rw [Option.join_some, expiryFor, run_bind, expiryAfter, run_bind, Call.bind_apply,
            Call.bind_apply]
          simp only [run_atomic, Call.read_apply]
          rw [if_neg hlimit]
          rfl
        · rintro n ⟨⟩
          exact hrange
      · exact absurd rfl hstorable
  obtain ⟨expires, hexpiry, hfits⟩ := hexpiry
  obtain ⟨dir, hsend⟩ := run_sendChanges haccount hfits
  rw [← hs₁] at hsend
  rw [updateUser, run_bind, Call.bind_of_ok hrequire, run_bind, Call.bind_of_ok hexpiry,
    run_bind, Call.bind_of_ok hsend]
  have hlast : Known client userId username (withDirectory s₁ dir) := hknown
  exact isOk_getUser hlast

theorem run_deactivateUser {account : Account} (hknown : Known client userId username s)
    (haccount : s.directory.accounts.lookup username = some account) (hqueue : s.lldap = []) :
    (deactivateUser client userId).run s = (.ok (), withDirectory s
      (Directory.updateUser username none
        (buildCustomAttributes { Attributes.none with isActive := some false })
        s.directory).2) := by
  have hrequire : (requireUsername client userId).run s = (.ok username, s) := by
    rw [requireUsername, run_bind, Call.bind_of_ok (run_resolveUsername_of_known hknown)]
    rfl
  have haccepts : (buildCustomAttributes { Attributes.none with
      isActive := some false }).all Directory.acceptsValues := by decide
  have hsend := @run_mutation_of_accepts _ _ s none _ _ haccount haccepts
  rw [withQueue_nil hqueue] at hsend
  rw [deactivateUser, run_bind, Call.bind_of_ok hrequire, hsend]
  exact congrArg (Prod.mk (Except.ok ())) (withQueue_nil hqueue)

theorem isOk_markCertsRevoked (hresolves : Resolves client userId username s)
    {account : Account} (haccount : s.directory.accounts.lookup username = some account)
    (hfits : ∀ expires ∈ (parseAttributes account.attributes).expires,
      -2 ^ 63 ≤ expires ∧ expires < 2 ^ 63) :
    ((Identity.markCertsRevoked client userId).run (withQueue [] s)).1.isOk := by
  obtain ⟨s₁, hrequire, hquiet, hqueue, -⟩ := run_requireUsername hresolves
  have hs₁ := (withQueue_nil hqueue).symm
  rw [← hquiet.directory] at haccount
  have haccepts : (buildCustomAttributes { parseAttributes account.attributes with
      certsRevoked := some true }).all Directory.acceptsValues := (accepts_build_iff _).mpr hfits
  have hexisting := run_existingAttributes haccount
  have hmark := @run_mutation_of_accepts _ _ s₁ none _ _ haccount haccepts
  rw [← hs₁] at hexisting hmark
  rw [Identity.markCertsRevoked, run_bind, Call.bind_of_ok hrequire, run_bind,
    Call.bind_of_ok hexisting, hmark]
  rfl

end Returning

/-- The directory of "kim", who expires at 1000, at 1200. -/
def kimState : IdentityState Settings.small := .start kimDirectory 1200

/-- A lifetime that does not fit into a float. -/
def endlessLifetime : UserChanges := ⟨none, none, some (some (2 ^ 1024))⟩

end FastTAK.Identity
