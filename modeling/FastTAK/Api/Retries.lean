import FastTAK.Api.Cutoff
import FastTAK.Api.Revocations
import FastTAK.Base.Arrivals
import FastTAK.Identity.Fates
import FastTAK.Identity.LostUpdate
import FastTAK.Identity.Searches

/-!
# Deletions and the retry of revocations

A deletion reports success whether or not the certificates of the user were revoked.  The rest is
left to the expiry check, which takes the users with a lifetime who are not marked yet.  This
file follows a deletion through everything that runs beside and after it, and shows from which
steps on neither a revocation nor its retry is lost.
-/

namespace FastTAK.Api

open FastTAK.Effect FastTAK.Effect.Prog FastTAK.Certs FastTAK.Identity

variable {settings : Settings} {α : Type}

/-! ## What is left to do -/

/-- All certificates of the user are revoked. -/
def World.Settled (w : World settings) (username : String) : Prop :=
  ∀ n ∈ w.pki.userSerials username, n ∈ w.pki.crl

instance (w : World settings) (username : String) : Decidable (w.Settled username) :=
  inferInstanceAs (Decidable (∀ n ∈ w.pki.userSerials username, n ∈ w.pki.crl))

/-- `fastak_expires` is set. -/
def HasLifetime (dir : Directory) (username : String) : Prop :=
  ((dir.attributesOf username).bind Attributes.expires).isSome

/-- The user has a lifetime and is not marked. -/
def World.Awaits (w : World settings) (username : String) : Prop :=
  HasLifetime w.identity.directory username ∧ ¬ Marked w.identity.directory username

instance (dir : Directory) (username : String) : Decidable (HasLifetime dir username) :=
  inferInstanceAs (Decidable (_ = true))

instance (dir : Directory) (username : String) : Decidable (Marked dir username) :=
  inferInstanceAs (Decidable (_ = some true))

instance (w : World settings) (username : String) : Decidable (w.Awaits username) :=
  inferInstanceAs (Decidable (_ ∧ _))

/-- From some time on, `get_users_pending_expiry` returns the user whenever LLDAP answers it. -/
def World.Queued (w : World settings) (username : String) : Prop :=
  ∃ expires : ℤ, ∀ now : ℚ, expires ≤ now → ∀ client : Client, ∃ users s,
    (getUsersPendingExpiry client).run (withQueue [] { w.identity with now := now }) =
        (.ok users, s) ∧
      username ∈ users.map UserRecord.username

section Queue

variable {w : World settings} {username : String}

theorem run_getUsersPendingExpiry (client : Client) (s : IdentityState settings) :
    ∃ s', (getUsersPendingExpiry client).run (withQueue [] s) =
      (.ok ((s.directory.users.filter fun u => pendingExpiry s.now
        (parseAttributes u.attributes)).map (toRecord settings)), s') := by
  have hread : (atomic (Call.read IdentityState.now) : IdProg settings ℚ).run
      (withQueue [] s) = (.ok s.now, withQueue [] s) := rfl
  rw [getUsersPendingExpiry, run_bind, Call.bind_of_ok (run_query _ s), run_bind,
    Call.bind_of_ok hread, run_formatUsers]
  exact ⟨_, rfl⟩

/-- The user is listed when the lifetime of the account is over. -/
theorem mem_pending_iff {now : ℚ} {dir : Directory} :
    username ∈ ((dir.users.filter fun u => pendingExpiry now
        (parseAttributes u.attributes)).map (toRecord settings)).map UserRecord.username ↔
      ∃ attrs, dir.attributesOf username = some attrs ∧ pendingExpiry now attrs := by
  rw [List.map_map]
  constructor
  · intro hmem
    obtain ⟨u, hu, rfl⟩ := List.mem_map.mp hmem
    obtain ⟨hlisted, hpending⟩ := List.mem_filter.mp hu
    have huser := (Directory.mem_users_iff dir u).mp hlisted
    obtain ⟨account, haccount, hview⟩ := Option.map_eq_some_iff.mp huser
    refine ⟨parseAttributes u.attributes, ?_, hpending⟩
    change dir.attributesOf u.id = _
    rw [Directory.attributesOf, haccount, ← hview]
    rfl
  · rintro ⟨attrs, hattrs, hpending⟩
    obtain ⟨account, haccount, rfl⟩ := Option.map_eq_some_iff.mp hattrs
    have hlisted : dir.view username account ∈ dir.users := by
      apply (Directory.mem_users_iff dir _).mpr
      exact Option.map_eq_some_iff.mpr ⟨account, haccount, rfl⟩
    exact List.mem_map.mpr ⟨_, List.mem_filter.mpr ⟨hlisted, hpending⟩, rfl⟩

/-- The expiry check will come exactly to those who have a lifetime and no mark. -/
theorem queued_iff_awaits : w.Queued username ↔ w.Awaits username := by
  constructor
  · rintro ⟨expires, hqueued⟩
    obtain ⟨users, s, hrun, hmem⟩ := hqueued expires le_rfl .scheduler
    obtain ⟨s', hlisted⟩ := run_getUsersPendingExpiry .scheduler
      { w.identity with now := (expires : ℚ) }
    rw [hlisted, Prod.mk.injEq, Except.ok.injEq] at hrun
    obtain ⟨rfl, -⟩ := hrun
    obtain ⟨attrs, hattrs, hpending⟩ := mem_pending_iff.mp hmem
    rw [pendingExpiry] at hpending
    rw [World.Awaits, HasLifetime, Marked, hattrs]
    cases hexpires : attrs.expires with
    | none => simp [hexpires] at hpending
    | some e =>
        refine ⟨by simp [hexpires], ?_⟩
        intro hmarked
        rw [Option.bind_some] at hmarked
        simp [hexpires, hmarked] at hpending
  · rintro ⟨hlifetime, hunmarked⟩
    obtain ⟨expires, hexpires⟩ := Option.isSome_iff_exists.mp hlifetime
    obtain ⟨attrs, hattrs, hexpires⟩ := Option.bind_eq_some_iff.mp hexpires
    rw [Marked, hattrs, Option.bind_some] at hunmarked
    refine ⟨expires, fun now hnow client => ?_⟩
    obtain ⟨s', hlisted⟩ := run_getUsersPendingExpiry client { w.identity with now := now }
    refine ⟨_, s', hlisted, mem_pending_iff.mpr ⟨attrs, hattrs, ?_⟩⟩
    rw [pendingExpiry, hexpires]
    cases hrevoked : attrs.certsRevoked with
    | none => simpa using hnow
    | some revoked =>
        have hfalse : revoked = false := by
          rw [hrevoked] at hunmarked
          simpa using hunmarked
        simpa [hfalse] using hnow

end Queue

/-! ## What a request spares -/

section Lifetimes

variable {dir : Directory} {username : String}

theorem hasLifetime_congr {dir' : Directory}
    (hsame : dir'.accounts.lookup username = dir.accounts.lookup username) :
    HasLifetime dir' username ↔ HasLifetime dir username := by
  rw [HasLifetime, HasLifetime, attributesOf_congr hsame]

/-- A mutation of an account takes no lifetime away if its insertion does not. -/
theorem hasLifetime_updateUser {v : String} {name : Option String}
    {inserted : List (String × List String)}
    (hinserted : v = username → ∀ stored, (parseAttributes stored).expires.isSome →
      (parseAttributes (insertAttributes stored inserted)).expires.isSome)
    (hlifetime : HasLifetime dir username) :
    HasLifetime (Directory.updateUser v name inserted dir).2 username := by
  rcases eq_or_ne username v with rfl | hne
  · cases haccount : dir.accounts.lookup username with
    | none =>
        rw [Directory.updateUser_of_unknown _ _ haccount]
        exact hlifetime
    | some account =>
        by_cases haccepts : inserted.all Directory.acceptsValues
        · rw [HasLifetime, Directory.attributesOf, haccount] at hlifetime
          rw [HasLifetime, Directory.attributesOf_updateUser haccount haccepts]
          exact hinserted rfl _ hlifetime
        · rw [Directory.updateUser_of_rejects haccepts]
          exact hlifetime
  · exact (hasLifetime_congr (Directory.lookup_updateUser_of_ne hne name inserted dir)).mpr
      hlifetime

theorem isSome_expires_build (stored : Stored) (attrs : Attributes)
    (hexpires : (parseAttributes stored).expires.isSome) :
    (parseAttributes (insertAttributes stored (buildCustomAttributes attrs))).expires.isSome := by
  rw [parseAttributes_insert_build, Attributes.over, Option.isSome_or, hexpires, Bool.or_true]

theorem hasLifetime_createUser {v name : String} (hlifetime : HasLifetime dir username) :
    HasLifetime (Directory.createUser v name dir).2 username := by
  unfold Directory.createUser
  split_ifs with hmem
  · exact hlifetime
  · have hne : username ≠ v := by
      rintro rfl
      rw [HasLifetime, Directory.attributesOf_eq_none hmem] at hlifetime
      cases hlifetime
    exact (hasLifetime_congr (AList.lookup_insert_ne hne)).mpr hlifetime

end Lifetimes

/-- The request sets or clears the lifetime of the user. -/
def Request.changesLifetime (settings : Settings) (username : String) : Request → Bool
  | .updateUser userId changes =>
      userId = settings.numericId username && changes.ttlHours.isSome
  | _ => false

/-- No other request takes a lifetime away. -/
theorem hasLifetime_sends {request : Request} {m : Directory → Directory} {dir : Directory}
    {username : String} (hm : Sends settings request m)
    (hother : request.changesLifetime settings username = false)
    (hlifetime : HasLifetime dir username) : HasLifetime (m dir) username := by
  cases hm with
  | createAccount v name _ => exact hasLifetime_createUser hlifetime
  | setInitial v expires userType _ =>
      exact hasLifetime_updateUser (fun _ stored => isSome_expires_build stored _) hlifetime
  | change v changes expires existing hrequest =>
      apply hasLifetime_updateUser _ hlifetime
      rintro rfl stored hexpires
      have hkept : changes.ttlHours = none := by
        simpa [hrequest, Request.changesLifetime] using hother
      rw [insertAttributes_append, parseAttributes_insert_cleared]
      have hsent : (attributesUpdate changes expires).expires ≠ some none := by
        simp [attributesUpdate, hkept]
      rw [if_neg hsent]
      exact isSome_expires_build stored _ hexpires
  | rename v name => exact hasLifetime_updateUser (fun _ _ h => h) hlifetime
  | deactivate v =>
      exact hasLifetime_updateUser (fun _ stored => isSome_expires_build stored _) hlifetime
  | mark v existing =>
      exact hasLifetime_updateUser (fun _ stored => isSome_expires_build stored _) hlifetime
  | createGroup name =>
      exact (hasLifetime_congr (by rw [Directory.accounts_createGroup])).mpr hlifetime
  | deleteGroup gid =>
      exact (hasLifetime_congr (by rw [Directory.accounts_deleteGroup])).mpr hlifetime
  | addMember v gid =>
      exact (hasLifetime_congr (by rw [Directory.accounts_addUserToGroup])).mpr hlifetime
  | removeMember v gid =>
      exact (hasLifetime_congr (by rw [Directory.accounts_removeUserFromGroup])).mpr hlifetime

/-- The list keeps its entries, and the user the lifetime. -/
structure Retains (request : Request) (username : String) (w w' : World settings) : Prop where
  crl : w.pki.crl ⊆ w'.pki.crl
  lifetime : request.changesLifetime settings username = false →
    HasLifetime w.identity.directory username → HasLifetime w'.identity.directory username

theorem Deed.retains {request : Request} {w w' : World settings} (hdeed : Deed request w w')
    (username : String) : Retains request username w w' := by
  refine ⟨hdeed.grows.crl, fun hother hlifetime => ?_⟩
  cases hdeed with
  | identity h =>
      cases h with
      | quiet hquiet =>
          rw [World.withIdentity, hquiet.directory]
          exact hlifetime
      | mutation hm => exact hasLifetime_sends hm hother hlifetime
      | createToken v =>
          have hsame : (createToken v settings.enrollmentTokenTtlMinutes
              settings.enrollmentTokenOneTime w.identity).2.directory =
              w.identity.directory := by
            unfold createToken
            split_ifs <;> rfl
          rw [World.withIdentity, hsame]
          exact hlifetime
      | deleteTokens v => exact hlifetime
  | revokes _ => exact hlifetime
  | revokeAll v =>
      rw [identity_revokeAll]
      exact hlifetime
  | flagCertadmin certId => exact hlifetime
  | generates _ _ => exact hlifetime

instance (request : Request) (username : String) :
    IsPreorder (World settings) (Retains request username) where
  refl _ := ⟨fun _ h => h, fun _ h => h⟩
  trans _ _ _ hfirst hsecond := ⟨fun _ h => hsecond.crl (hfirst.crl h), fun hother h =>
    hsecond.lifetime hother (hfirst.lifetime hother h)⟩

theorem retains_of_does {request : Request} {p : Handler settings α} (hp : Does request p)
    (username : String) : Respects (Retains request username) (fun _ => True) p :=
  hp.respects fun _ _ hdeed => hdeed.retains username

/-! ## Conditions -/

/-- The request deletes the account. -/
def Request.deletes (settings : Settings) (username : String) : Request → Bool
  | .deleteUser userId | .deleteServiceAccount userId =>
      userId = settings.numericId username
  | _ => false

/-- The step is the call of `revoke_all_user_certs`. -/
def Calls (w w' : World settings) : Prop := w.revocations.length < w'.revocations.length

/-- The call revokes all certificates of the user. -/
def World.Revocable (w : World settings) (username : String) : Prop :=
  ∀ n ∈ w.pki.userSerials username, n ∈ (revokeAllUserCerts username w.pki).2.crl

/-- The user does not become active again. -/
def StaysDown (username : String) (w w' : World settings) : Prop :=
  w.isActive username = false → w'.isActive username = false

/-- The step of a request finds the user as it has to.  A deletion that revokes, or cannot,
finds a user who awaits the expiry check, or finishes on its own.  Of a user who is inactive,
the lifetime goes and the mark comes only after all certificates are revoked, and certificates
come only while the user awaits the expiry check. -/
structure Heeds (username : String) (request : Request) (w w' : World settings) : Prop where
  revokes : request.deletes settings username → Calls w w' →
    w.Awaits username ∨ w.Revocable username
  unconfigured : request.deletes settings username → settings.takConfigured = false →
    w'.isActive username = false → w.Awaits username ∨ w.Settled username
  clears : request.changesLifetime settings username → w.isActive username = false →
    HasLifetime w.identity.directory username →
    HasLifetime w'.identity.directory username ∨ w.Settled username
  marks : w.isActive username = false → Marked w'.identity.directory username →
    Marked w.identity.directory username ∨ w.Settled username
  issues : w.isActive username = false →
    w'.Awaits username ∨ w'.pki.userSerials username ⊆ w.pki.userSerials username

instance (w w' : World settings) : Decidable (Calls w w') :=
  inferInstanceAs (Decidable (_ < _))

instance (w : World settings) (username : String) : Decidable (w.Revocable username) :=
  inferInstanceAs (Decidable (∀ n ∈ w.pki.userSerials username,
    n ∈ (revokeAllUserCerts username w.pki).2.crl))

instance (username : String) (w w' : World settings) : Decidable (StaysDown username w w') :=
  inferInstanceAs (Decidable (w.isActive username = false → w'.isActive username = false))

instance (username : String) (request : Request) (w w' : World settings) :
    Decidable (Heeds username request w w') :=
  decidable_of_iff (_ ∧ _ ∧ _ ∧ _ ∧ _)
    ⟨fun h => ⟨h.1, h.2.1, h.2.2.1, h.2.2.2.1, h.2.2.2.2⟩,
      fun h => ⟨h.revokes, h.unconfigured, h.clears, h.marks, h.issues⟩⟩

/-- What the surroundings leave alone of a user who is inactive. -/
structure Leaves (username : String) (w w' : World settings) : Prop where
  crl : w.pki.crl ⊆ w'.pki.crl
  lifetime : w.isActive username = false → HasLifetime w.identity.directory username →
    HasLifetime w'.identity.directory username ∨ w.Settled username
  marks : w.isActive username = false → Marked w'.identity.directory username →
    Marked w.identity.directory username ∨ w.Settled username
  issues : w.isActive username = false →
    w'.Awaits username ∨ w'.pki.userSerials username ⊆ w.pki.userSerials username

/-- The user is inactive, and neither the revocation nor its retry is lost. -/
def Kept (username : String) (w : World settings) : Prop :=
  w.isActive username = false ∧ (w.Awaits username ∨ w.Settled username)

/-- What everything beside a deletion does to its user. -/
structure Abides (username : String) (w w' : World settings) : Prop where
  down : StaysDown username w w'
  kept : Kept username w → Kept username w'

instance (username : String) : IsPreorder (World settings) (Abides username) where
  refl _ := ⟨fun h => h, fun h => h⟩
  trans _ _ _ hfirst hsecond := ⟨fun h => hsecond.down (hfirst.down h),
    fun h => hsecond.kept (hfirst.kept h)⟩

section Steps

variable {username : String} {request : Request} {w w' : World settings}

/-- If the lifetime goes or the mark comes, nothing was left to revoke. -/
theorem Leaves.kept (hleaves : Leaves username w w')
    (hdown : w'.isActive username = false) (hkept : Kept username w) : Kept username w' := by
  obtain ⟨hinactive, hkept⟩ := hkept
  refine ⟨hdown, ?_⟩
  by_cases hawaits : w'.Awaits username
  · exact .inl hawaits
  · have hissued := (hleaves.issues hinactive).resolve_left hawaits
    have hsettled : w.Settled username := by
      rcases hkept with ⟨hlifetime, hunmarked⟩ | hsettled
      · rcases hleaves.lifetime hinactive hlifetime with hlifetime' | hsettled
        · have hmarked : Marked w'.identity.directory username :=
            not_not.mp fun hunmarked' => hawaits ⟨hlifetime', hunmarked'⟩
          exact (hleaves.marks hinactive hmarked).resolve_left hunmarked
        · exact hsettled
      · exact hsettled
    exact .inr fun n hn => hleaves.crl (hsettled n (hissued hn))

/-- A request that heeds the conditions leaves of the user what it has to. -/
theorem Heeds.leaves (hheeds : Heeds username request w w')
    (hretains : Retains request username w w') : Leaves username w w' where
  crl := hretains.crl
  lifetime := by
    intro hinactive hlifetime
    cases hchanges : request.changesLifetime settings username with
    | false => exact .inl (hretains.lifetime hchanges hlifetime)
    | true => exact hheeds.clears hchanges hinactive hlifetime
  marks := hheeds.marks
  issues := hheeds.issues

theorem Leaves.abides (hleaves : Leaves username w w') (hdown : StaysDown username w w') :
    Abides username w w' where
  down := hdown
  kept := fun hkept => hleaves.kept (hdown hkept.1) hkept

end Steps

/-! ## The deletion -/

/-- The mutation of `deactivate_user`. -/
abbrev deactivation (username : String) : Directory → Directory.Reply Unit × Directory :=
  Directory.updateUser username none
    (buildCustomAttributes { Attributes.none with isActive := some false })

theorem deactivation_answers (username : String) (dir : Directory) :
    (deactivation username dir).1 = .errors ∨
      (deactivation username dir).1 = .data () ∧ ∃ attrs,
        dir.attributesOf username = some attrs ∧
        (deactivation username dir).2.attributesOf username =
          some { attrs with isActive := some false } := by
  cases haccount : dir.accounts.lookup username with
  | none =>
      left
      rw [deactivation, Directory.updateUser_of_unknown _ _ haccount]
  | some account =>
      right
      have haccepts : (buildCustomAttributes
          { Attributes.none with isActive := some false }).all Directory.acceptsValues := by
        decide
      refine ⟨?_, parseAttributes account.attributes, ?_, ?_⟩
      · rw [deactivation, Directory.updateUser_of_accepts haccount haccepts]
      · rw [Directory.attributesOf, haccount]
        rfl
      · rw [deactivation, Directory.attributesOf_updateUser haccount haccepts,
          parseAttributes_insert_build]
        rfl

/-- What a request of a deletion may do beside the rest. -/
def Admits (username : String) (request : Request) (w w' : World settings) : Prop :=
  Heeds username request w w' ∧ StaysDown username w w'

instance (username : String) (request : Request) (w w' : World settings) :
    Decidable (Admits username request w w') := inferInstanceAs (Decidable (_ ∧ _))

section Deletion

variable {username : String} {request : Request}

theorem abides_of_admits {w w' : World settings} (hretains : Retains request username w w')
    (hadmits : Admits username request w w') : Abides username w w' :=
  (hadmits.1.leaves hretains).abides hadmits.2

/-- The user is inactive, and kept if there is nothing to revoke with. -/
def Down (username : String) (w : World settings) : Prop :=
  w.isActive username = false ∧ (settings.takConfigured = false → Kept username w)

theorem Down.abides {w w' : World settings} (hdown : Down username w)
    (habides : Abides username w w') : Down username w' :=
  ⟨habides.down hdown.1, fun htak => habides.kept (hdown.2 htak)⟩

/-- The deactivation leaves the lifetime and the mark alone. -/
theorem down_of_deactivated {w : World settings} {s : IdentityState settings}
    {attrs : Attributes}
    (hbefore : w.identity.directory.attributesOf username = some attrs)
    (hafter : s.directory.attributesOf username = some { attrs with isActive := some false })
    (hleft : settings.takConfigured = false → (w.withIdentity s).isActive username = false →
      w.Awaits username ∨ w.Settled username) : Down username (w.withIdentity s) := by
  have hinactive : (w.withIdentity s).isActive username = false := by
    rw [World.isActive, World.withIdentity, hafter]
    rfl
  refine ⟨hinactive, fun htak => ⟨hinactive, ?_⟩⟩
  rcases hleft htak hinactive with ⟨hlifetime, hunmarked⟩ | hsettled
  · left
    rw [HasLifetime, hbefore] at hlifetime
    rw [Marked, hbefore] at hunmarked
    rw [World.Awaits, HasLifetime, Marked, World.withIdentity, hafter]
    exact ⟨hlifetime, hunmarked⟩
  · exact .inr hsettled

theorem arrives_attempt (hdeletes : request.deletes settings username) (w : World settings) :
    Arrives (Abides username) (Admits username request) (fun result w' => ∀ reply,
        result = .ok (some reply) → reply = .errors ∨ reply = .data () ∧ Down username w')
      (identity (atomic (graphqlAttempt (deactivation username)))) w := by
  intro w' _ hadmits w'' habides reply hreply
  have hrun : graphqlAttempt (deactivation username) w'.identity =
      (.ok (some reply), (graphqlAttempt (deactivation username) w'.identity).2) :=
    Prod.ext hreply rfl
  obtain ⟨rfl, hstate⟩ := attempt_returned hrun
  rcases deactivation_answers username w'.identity.directory with
    herrors | ⟨hdata, attrs, hbefore, hafter⟩
  · exact .inl herrors
  · refine .inr ⟨hdata, ?_⟩
    have hdown : Down username
        (w'.withIdentity (graphqlAttempt (deactivation username) w'.identity).2) := by
      apply down_of_deactivated hbefore
      · rw [hstate]
        exact hafter
      · exact hadmits.1.unconfigured hdeletes
    exact hdown.abides habides

theorem arrives_attempts (hdeletes : request.deletes settings username) (attempts : ℕ)
    (w : World settings) :
    Arrives (Abides username) (Admits username request)
      (fun result w' => result = .ok () → Down username w')
      (identity (graphqlAttempts (pure ()) (deactivation username) attempts)) w := by
  induction attempts generalizing w with
  | zero =>
      intro w' _ hok
      cases hok
  | succ attempts ih =>
      rw [graphqlAttempts, identity_bind]
      apply arrives_bind
      refine (arrives_attempt hdeletes w).mono fun result w' hanswered => ?_
      rcases result with e | reply
      · intro hok
        cases hok
      · rcases reply with _ | reply
        · exact ih w'
        · rcases hanswered reply rfl with rfl | ⟨rfl, hdown⟩
          · exact arrives_raise fun w'' _ hok => by cases hok
          · exact arrives_pure fun w'' habides _ => hdown.abides habides

theorem arrives_deactivateUser (hid : ∀ v, settings.numericId v = settings.numericId username →
      v = username) (hdeletes : request.deletes settings username) {client : Client}
    {userId : ℤ} (huser : settings.numericId username = userId) (w : World settings) :
    Arrives (Abides username) (Admits username request)
      (fun result w' => result = .ok () → Down username w')
      (identity (deactivateUser client userId)) w := by
  rw [deactivateUser, identity_bind]
  apply arrives_bind
  have hname : Respects (fun _ _ => True) (fun v => settings.numericId v = userId)
      (identity (requireUsername client userId) : Handler settings String) :=
    (respects_requireUsername client userId : Respects (fun _ _ => True) _ _).onPart
      fun _ _ _ => trivial
  refine (hname.arrives_returns w).mono fun result w' hresult => ?_
  cases result with
  | error e =>
      intro hok
      cases hok
  | ok v =>
      obtain rfl : v = username := hid v ((hresult v rfl).trans huser.symm)
      exact arrives_attempts hdeletes 3 w'

theorem kept_revokeAll (hdeletes : request.deletes settings username) {w : World settings}
    {answer : Bool} (hanswer : ((revokeAll username).run w).1 = .ok answer)
    (hheeds : Heeds username request w ((revokeAll username).run w).2)
    (hinactive : w.isActive username = false) :
    Kept username ((revokeAll username).run w).2 := by
  rcases hrun : revokeAllUserCerts username w.pki with ⟨e | answer', s⟩
  · simp only [revokeAll, atomic, run, hrun, reduceCtorEq] at hanswer
  · rw [run_revokeAll hrun] at hheeds ⊢
    refine ⟨hinactive, ?_⟩
    rcases hheeds.revokes hdeletes (Nat.lt_succ_self _) with hawaits | hrevocable
    · exact .inl hawaits
    · rw [World.Revocable, hrun] at hrevocable
      rcases hheeds.issues hinactive with hawaits | hissued
      · exact .inl hawaits
      · exact .inr fun n hn => hrevocable n (hissued hn)

/-- The call of a deletion finishes on its own, or leaves the user to the expiry check. -/
theorem arrives_revokeAll (hdeletes : request.deletes settings username) {w : World settings}
    (hinactive : w.isActive username = false) :
    Arrives (Abides username) (Admits username request)
      (fun result w' => ∀ answer, result = .ok answer → Kept username w')
      (revokeAll username) w := by
  apply arrives_atomic
  intro w' habides hadmits w'' habides' answer hanswer
  exact habides'.kept
    (kept_revokeAll hdeletes hanswer hadmits.1 (habides.down hinactive))

/-- What a deletion does once its user is kept leaves the user kept. -/
theorem arrives_kept {P : α → Prop} {p : Handler settings α}
    (hp : Respects (Retains request username) P p) {w : World settings}
    (hkept : Kept username w) :
    Arrives (Abides username) (Admits username request) (fun _ w' => Kept username w') p w := by
  have hrely : ∀ w w' : World settings, Kept username w → Abides username w w' →
      Kept username w' := fun _ _ hkept habides => habides.kept hkept
  have hsteps : ∀ w w' : World settings, Kept username w → Retains request username w w' →
      Admits username request w w' → Kept username w' :=
    fun _ _ hkept hretains hadmits => (abides_of_admits hretains hadmits).kept hkept
  exact (hp.arrives hrely hsteps hkept).mono fun _ _ h => h.2

theorem arrives_revocation (hdeletes : request.deletes settings username) (client : Client)
    (userId : ℤ) {w : World settings} (hinactive : w.isActive username = false) :
    Arrives (Abides username) (Admits username request)
      (fun result w' => result = .ok () → Kept username w') (do
        let allRevoked ← revokeAll username
        if allRevoked then identity (markCertsRevoked client userId) :
          Handler settings Unit) w := by
  apply arrives_bind
  refine (arrives_revokeAll hdeletes hinactive).mono fun result w' hkept => ?_
  cases result with
  | error e =>
      intro hok
      cases hok
  | ok allRevoked =>
      have hkept := hkept allRevoked rfl
      dsimp only
      split_ifs
      · have hmark : Does request (identity (markCertsRevoked client userId) :
            Handler settings Unit) := respects_marking request client userId
        exact (arrives_kept (retains_of_does hmark username) hkept).mono fun _ _ h _ => h
      · exact arrives_pure fun w'' habides _ => habides.kept hkept

theorem arrives_deactivateAndRevoke (hid : ∀ v,
      settings.numericId v = settings.numericId username → v = username)
    (hdeletes : request.deletes settings username) {client : Client} {userId : ℤ}
    (huser : settings.numericId username = userId) (w : World settings) :
    Arrives (Abides username) (Admits username request)
      (fun result w' => result = .ok () → Kept username w')
      (deactivateAndRevoke client userId username) w := by
  apply arrives_bind
  refine (arrives_deactivateUser hid hdeletes huser w).mono fun result w' hdown => ?_
  cases result with
  | error e =>
      intro hok
      cases hok
  | ok _ =>
      have hdown := hdown rfl
      dsimp only
      split_ifs with htak
      · exact arrives_revocation hdeletes client userId hdown.1
      · exact arrives_pure fun w'' habides _ =>
          habides.kept (hdown.2 (Bool.eq_false_iff.mpr htak))

/-- What holds where a deletion has returned. -/
def Deleted (username : String) (result : Except Exn Response) (w : World settings) : Prop :=
  result = .ok (.deleted username) → Kept username w

/-- A deletion from the deactivation on; whoever it deletes is named in its answer. -/
theorem arrives_deletion (hid : ∀ v, settings.numericId v = settings.numericId username →
      v = username) {client : Client} {userId : ℤ} {v : String}
    (huser : settings.numericId v = userId)
    (hdeletes : userId = settings.numericId username → request.deletes settings username)
    {rest : Handler settings Response} (hrest : Does request rest)
    (hreturns : Respects (fun _ _ => True) (fun response => response = .deleted v) rest)
    (w : World settings) :
    Arrives (Abides username) (Admits username request) (Deleted username)
      (deactivateAndRevoke client userId v >>= fun _ => rest) w := by
  by_cases hname : v = username
  · subst hname
    apply arrives_bind
    refine (arrives_deactivateAndRevoke hid (hdeletes huser.symm) huser w).mono
      fun result w' hkept => ?_
    cases result with
    | error e =>
        intro hok
        cases hok
    | ok _ => exact (arrives_kept (retains_of_does hrest v) (hkept rfl)).mono fun _ _ h _ => h
  · have hwhole : Respects (fun _ _ => True) (fun response => response = .deleted v)
        (deactivateAndRevoke client userId v >>= fun _ => rest) :=
      respects_bind (respects_true _) fun _ _ => hreturns
    refine (hwhole.arrives_returns w).mono fun result w' hresult hok => ?_
    exact absurd (Response.deleted.inj (hresult _ hok)).symm hname

theorem arrives_deleteUser (hid : ∀ v, settings.numericId v = settings.numericId username →
      v = username) (userId : ℤ) (w : World settings) :
    Arrives (Abides username) (Admits username (.deleteUser userId)) (Deleted username)
      (Api.deleteUser userId) w := by
  apply arrives_bind
  have hfound := @quiet_requireUser settings KeepsStore _ userId
  refine (hfound.arrives_returns w).mono fun result w' huser => ?_
  cases result with
  | error e =>
      intro hok
      cases hok
  | ok user =>
      exact arrives_deletion hid (huser user rfl) (fun h => by simp [Request.deletes, h])
        (respects_pure trivial) (respects_pure rfl) w'

theorem arrives_deleteServiceAccount (hid : ∀ v,
      settings.numericId v = settings.numericId username → v = username) (accountId : ℤ)
    (w : World settings) :
    Arrives (Abides username) (Admits username (.deleteServiceAccount accountId))
      (Deleted username) (Api.deleteServiceAccount accountId) w := by
  apply arrives_bind
  have hfound := @quiet_requireAccount settings KeepsStore _ accountId
  refine (hfound.arrives_returns w).mono fun result w' huser => ?_
  cases result with
  | error e =>
      intro hok
      cases hok
  | ok user =>
      refine arrives_deletion hid (huser user rfl) (fun h => by simp [Request.deletes, h]) ?_ ?_ w'
      · exact respects_bind (respects_certs_of_keeps (keeps_noderedPems revokes_docker _))
          fun _ _ => respects_pure trivial
      · exact respects_bind (respects_true _) fun _ _ => respects_pure rfl

end Deletion

/-! ## Interleavings -/

def Request.isDeletion : Request → Bool
  | .deleteUser _ | .deleteServiceAccount _ => true
  | _ => false

theorem arrives_handler {username : String} (hid : ∀ v,
      settings.numericId v = settings.numericId username → v = username) {request : Request}
    (hrequest : request.isDeletion) (w : World settings) :
    Arrives (Abides username) (Admits username request) (Deleted username) request.handler w := by
  cases request with
  | deleteUser userId => exact arrives_deleteUser hid userId w
  | deleteServiceAccount accountId => exact arrives_deleteServiceAccount hid accountId w
  | _ => cases hrequest

/-- What the surroundings do after a deletion has begun. -/
def Beside (username : String) (w w' : World settings) : Prop :=
  Leaves username w w' ∧ StaysDown username w w'

/-- The username in the answer of a deletion. -/
def deletedName (pool : Pool Exn (World settings) Response) (i : ℕ) : Option String :=
  match pool.threads i with
  | some (.done (.ok (.deleted username))) => some username
  | _ => none

theorem threads_of_deletedName {pool : Pool Exn (World settings) Response} {i : ℕ}
    {username : String} (hname : deletedName pool i = some username) :
    pool.threads i = some (.done (.ok (.deleted username))) := by
  unfold deletedName at hname
  split at hname
  · next hthread => rw [hthread, Option.some.inj hname]
  · cases hname

/-- A deployment in which no other username has the id of "kim". -/
def Settings.single : Settings :=
  { Settings.small with numericId := fun username => if username = "kim" then 1 else 0 }

/-- The service with the user "kim", who has one certificate, and no Docker for some time. -/
def dockerlessWorld (expires : Option ℤ) : World Settings.single where
  identity := .start (Directory.updateUser "kim" none
    (buildCustomAttributes (initialAttributes expires "user"))
    (Directory.createUser "kim" "Kim" .empty).2).2 0
  pki := { (enrolledWorld []).pki with docker := [.fails 0, .fails 0] }
  revocations := []

/-- The deletion of the user has begun. -/
def deletionBegun (expires : Option ℤ) : Pool Exn (World Settings.single) Response :=
  (Pool.idle (dockerlessWorld expires)).setThread 0 (Request.deleteUser 1).handler

/-- The deletion of the user, after all its requests. -/
def deletionDone (expires : Option ℤ) : Pool Exn (World Settings.single) Response :=
  (deletionBegun expires).play (List.replicate 16 0)

end FastTAK.Api
