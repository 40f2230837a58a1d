import FastTAK.Api.ServiceAccounts
import FastTAK.Base.Independent
import FastTAK.Identity.Fates
import FastTAK.Identity.LostUpdate

/-!
# Ticks of the scheduler

`_check_user_expiry` deactivates the users whose lifetime is over, revokes their certificates
and marks them.  Here each of its calls for a user has a fate of its own, so that it can be said
how the users fare beside each other and from tick to tick.
-/

namespace FastTAK.Api

open FastTAK.Identity FastTAK.Independent

/-! ## Calls and their fates -/

/-- What becomes of the three calls for a user; `revoke` is what `revoke_all_user_certs` returns,
unless it raises. -/
structure UserFates where
  deactivate : CallFate
  revoke : Option Bool
  mark : CallFate

/-- `ak.deactivate_user(user_id)`. -/
def sendDeactivation (fate : CallFate) (username : String) (dir : Directory) :
    CallEnd × Directory :=
  send fate (Directory.updateUser username none
    (buildCustomAttributes { Attributes.none with isActive := some false })) dir

/-- `ak.mark_certs_revoked(user_id)`. -/
def sendMark (fate : CallFate) (username : String) (dir : Directory) : CallEnd × Directory :=
  match dir.attributesOf username with
  | none => (⟨true, false⟩, dir)
  | some existing =>
      send fate (Directory.updateUser username none
        (buildCustomAttributes { existing with certsRevoked := some true })) dir

/-- What the loop does for a user; `deferred` is the warning that there is no TAK client. -/
inductive TickCall where
  | deactivateUser (username : String) (outcome : CallEnd)
  | deferred (username : String)
  | revokeAllUserCerts (username : String) (answer : Option Bool)
  | markCertsRevoked (username : String) (outcome : CallEnd)
  deriving DecidableEq, Repr

def TickCall.username : TickCall → String
  | .deactivateUser username _ => username
  | .deferred username => username
  | .revokeAllUserCerts username _ => username
  | .markCertsRevoked username _ => username

/-! ## The tick -/

/-- The part of the loop body after the deactivation. -/
def revokeUnder (takConfigured : Bool) (fates : UserFates) (username : String)
    (dir : Directory) : List TickCall × Directory :=
  if takConfigured then
    match fates.revoke with
    | some true =>
        let marked := sendMark fates.mark username dir
        ([.revokeAllUserCerts username (some true), .markCertsRevoked username marked.1], marked.2)
    | answer => ([.revokeAllUserCerts username answer], dir)
  else ([.deferred username], dir)

/-- The loop body. -/
def expireUserUnder (takConfigured : Bool) (fates : String → UserFates) (user : UserRecord)
    (dir : Directory) : List TickCall × Directory :=
  if user.isActive then
    let deactivated := sendDeactivation (fates user.username).deactivate user.username dir
    if deactivated.1.raised then ([.deactivateUser user.username deactivated.1], deactivated.2)
    else
      let rest := revokeUnder takConfigured (fates user.username) user.username deactivated.2
      (.deactivateUser user.username deactivated.1 :: rest.1, rest.2)
  else revokeUnder takConfigured (fates user.username) user.username dir

/-- `get_users_pending_expiry()` when LLDAP answers. -/
def pendingUsers (settings : Settings) (now : ℚ) (dir : Directory) : List UserRecord :=
  (dir.users.filter fun u => pendingExpiry now (parseAttributes u.attributes)).map
    (toRecord settings)

/-- A tick: when it is, whether the listing succeeds, whether there is a TAK client, and what
becomes of the calls for each user. -/
structure Tick where
  now : ℚ
  listed : Bool
  takConfigured : Bool
  fates : String → UserFates

/-- `_check_user_expiry()`. -/
def Tick.run (settings : Settings) (tick : Tick) (dir : Directory) : List TickCall × Directory :=
  if tick.listed then
    forEach (expireUserUnder tick.takConfigured tick.fates)
      (pendingUsers settings tick.now dir) dir
  else ([], dir)

/-! ## One user -/

section Round

variable {takConfigured : Bool} {dir dir' : Directory}

theorem sendDeactivation_own (fate : CallFate) {username : String}
    (hsame : dir.accounts.lookup username = dir'.accounts.lookup username) :
    (sendDeactivation fate username dir).1 = (sendDeactivation fate username dir').1 ∧
      (sendDeactivation fate username dir).2.accounts.lookup username =
        (sendDeactivation fate username dir').2.accounts.lookup username := send_own fate hsame

theorem sendMark_own (fate : CallFate) {username : String}
    (hsame : dir.accounts.lookup username = dir'.accounts.lookup username) :
    (sendMark fate username dir).1 = (sendMark fate username dir').1 ∧
      (sendMark fate username dir).2.accounts.lookup username =
        (sendMark fate username dir').2.accounts.lookup username := by
  unfold sendMark
  rw [attributesOf_congr hsame]
  cases dir'.attributesOf username with
  | none => exact ⟨rfl, hsame⟩
  | some existing => exact send_own fate hsame

theorem sendMark_frame (fate : CallFate) {username other : String} (hne : other ≠ username) :
    (sendMark fate username dir).2.accounts.lookup other = dir.accounts.lookup other := by
  unfold sendMark
  cases dir.attributesOf username with
  | none => rfl
  | some existing => exact send_frame fate hne

theorem revokeUnder_own (fates : UserFates) {username : String}
    (hsame : dir.accounts.lookup username = dir'.accounts.lookup username) :
    (revokeUnder takConfigured fates username dir).1 =
        (revokeUnder takConfigured fates username dir').1 ∧
      (revokeUnder takConfigured fates username dir).2.accounts.lookup username =
        (revokeUnder takConfigured fates username dir').2.accounts.lookup username := by
  have hmark := sendMark_own fates.mark hsame
  unfold revokeUnder
  split_ifs
  · match fates.revoke with
    | none => exact ⟨rfl, hsame⟩
    | some false => exact ⟨rfl, hsame⟩
    | some true =>
        dsimp only
        rw [hmark.1]
        exact ⟨rfl, hmark.2⟩
  · exact ⟨rfl, hsame⟩

theorem revokeUnder_frame (fates : UserFates) {username other : String}
    (hne : other ≠ username) :
    (revokeUnder takConfigured fates username dir).2.accounts.lookup other =
      dir.accounts.lookup other := by
  unfold revokeUnder
  split_ifs
  · match fates.revoke with
    | none => rfl
    | some false => rfl
    | some true => exact sendMark_frame fates.mark hne
  · rfl

/-- The rounds of two users of one name and activity do the same on the same account. -/
theorem expireUserUnder_own (fates : String → UserFates) {user user' : UserRecord}
    (hname : user'.username = user.username) (hactive : user'.isActive = user.isActive)
    (hsame : dir.accounts.lookup user.username = dir'.accounts.lookup user.username) :
    (expireUserUnder takConfigured fates user dir).1 =
        (expireUserUnder takConfigured fates user' dir').1 ∧
      (expireUserUnder takConfigured fates user dir).2.accounts.lookup user.username =
        (expireUserUnder takConfigured fates user' dir').2.accounts.lookup user.username := by
  have hdeactivate := sendDeactivation_own (fates user.username).deactivate hsame
  have hrest : (revokeUnder takConfigured (fates user.username) user.username
      (sendDeactivation (fates user.username).deactivate user.username dir).2).1 = _ ∧ _ :=
    revokeUnder_own (fates user.username) hdeactivate.2
  unfold expireUserUnder
  rw [hname, hactive]
  split_ifs with hisActive
  · dsimp only
    rw [hdeactivate.1]
    split_ifs
    · exact ⟨rfl, hdeactivate.2⟩
    · rw [hrest.1]
      exact ⟨rfl, hrest.2⟩
  · exact revokeUnder_own _ hsame

theorem expireUserUnder_frame (fates : String → UserFates) (user : UserRecord) {other : String}
    (hne : other ≠ user.username) :
    (expireUserUnder takConfigured fates user dir).2.accounts.lookup other =
      dir.accounts.lookup other := by
  have hdeactivate : (sendDeactivation (fates user.username).deactivate user.username
      dir).2.accounts.lookup other = dir.accounts.lookup other := send_frame _ hne
  unfold expireUserUnder
  split_ifs
  · dsimp only
    split_ifs
    · exact hdeactivate
    · exact (revokeUnder_frame _ hne).trans hdeactivate
  · exact revokeUnder_frame _ hne

/-- The rounds of a tick stay out of each other's way. -/
theorem rounds_expireUserUnder (fates : String → UserFates) :
    Rounds UserRecord.username (fun (dir : Directory) username => dir.accounts.lookup username)
      (expireUserUnder takConfigured fates) where
  frame user _ _ hne := expireUserUnder_frame fates user hne
  own _ _ _ hsame := expireUserUnder_own fates rfl rfl hsame

/-! ### Attributes -/

/-- The certificates of the user are marked as revoked. -/
def Flagged (dir : Directory) (username : String) : Prop :=
  ∃ attrs, dir.attributesOf username = some attrs ∧ attrs.certsRevoked = some true

/-- The calls deactivate the user if there is need to, revoke the certificates and reach LLDAP
with the mark. -/
def Marks (calls : List TickCall) (username : String) : Prop :=
  (∀ outcome, .deactivateUser username outcome ∈ calls → outcome.raised = false) ∧
    .revokeAllUserCerts username (some true) ∈ calls ∧
    ∃ outcome, .markCertsRevoked username outcome ∈ calls ∧ outcome.applied = true

/-- Only the calls for the user matter. -/
theorem marks_congr {calls calls' : List TickCall} {username : String}
    (hsame : ∀ call : TickCall, call.username = username → (call ∈ calls ↔ call ∈ calls')) :
    Marks calls username ↔ Marks calls' username := by
  have hdeactivate outcome := hsame (.deactivateUser username outcome) rfl
  have hrevoke := hsame (.revokeAllUserCerts username (some true)) rfl
  have hmark outcome := hsame (.markCertsRevoked username outcome) rfl
  simp only [Marks, hdeactivate, hrevoke, hmark]

theorem attributesOf_sendMark (fate : CallFate) {username : String} {before : Attributes}
    (hbefore : dir.attributesOf username = some before) :
    (sendMark fate username dir).2.attributesOf username =
      if (sendMark fate username dir).1.applied then
        some { before with certsRevoked := some true }
      else some before := by
  have hover : ({ before with certsRevoked := some true } : Attributes).over before =
      { before with certsRevoked := some true } := by
    simp only [Attributes.over, Option.or_self, Option.some_or]
  have hsent : sendMark fate username dir = send fate (Directory.updateUser username none
      (buildCustomAttributes { before with certsRevoked := some true })) dir := by
    rw [sendMark, hbefore]
  rw [hsent, attributesOf_send fate hbefore, hover]

/-- After the second part of a round the mark is there if it is among the calls, and nothing else
has changed. -/
theorem attributesOf_revokeUnder (fates : UserFates) {username : String} {before : Attributes}
    (hbefore : dir.attributesOf username = some before) :
    (Marks (revokeUnder takConfigured fates username dir).1 username ∧
      (revokeUnder takConfigured fates username dir).2.attributesOf username =
        some { before with certsRevoked := some true }) ∨
    (¬ Marks (revokeUnder takConfigured fates username dir).1 username ∧
      (revokeUnder takConfigured fates username dir).2.attributesOf username = some before) := by
  have hmark := attributesOf_sendMark fates.mark hbefore
  unfold revokeUnder
  split_ifs
  · match fates.revoke with
    | none => exact Or.inr ⟨by simp [Marks], hbefore⟩
    | some false => exact Or.inr ⟨by simp [Marks], hbefore⟩
    | some true =>
        dsimp only
        by_cases happlied : (sendMark fates.mark username dir).1.applied
        · rw [if_pos happlied] at hmark
          exact Or.inl ⟨by simp [Marks, happlied], hmark⟩
        · rw [if_neg happlied] at hmark
          exact Or.inr ⟨by simp [Marks, happlied], hmark⟩
  · exact Or.inr ⟨by simp [Marks], hbefore⟩

theorem marks_cons {outcome : CallEnd} (hreturned : outcome.raised = false)
    (calls : List TickCall) (username : String) :
    Marks (.deactivateUser username outcome :: calls) username ↔ Marks calls username := by
  unfold Marks
  simp only [List.mem_cons, TickCall.deactivateUser.injEq, true_and, reduceCtorEq, false_or,
    forall_eq_or_imp, hreturned]

theorem attributesOf_sendDeactivation (fate : CallFate) {username : String}
    {before : Attributes} (hbefore : dir.attributesOf username = some before) :
    ∃ after, (sendDeactivation fate username dir).2.attributesOf username = some after ∧
      after.expires = before.expires ∧ after.certsRevoked = before.certsRevoked := by
  rw [sendDeactivation, attributesOf_send fate hbefore]
  split_ifs
  · exact ⟨_, rfl, rfl, rfl⟩
  · exact ⟨_, rfl, rfl, rfl⟩

/-- What a round does to the attributes of its user. -/
theorem attributesOf_expireUserUnder (fates : String → UserFates) {user : UserRecord}
    {before : Attributes} (hbefore : dir.attributesOf user.username = some before) :
    ∃ after, (expireUserUnder takConfigured fates user dir).2.attributesOf user.username =
        some after ∧
      after.expires = before.expires ∧
      ((Marks (expireUserUnder takConfigured fates user dir).1 user.username ∧
        after.certsRevoked = some true) ∨
      (¬ Marks (expireUserUnder takConfigured fates user dir).1 user.username ∧
        after.certsRevoked = before.certsRevoked)) := by
  obtain ⟨middle, hmiddle, hexpires, hrevoked⟩ :=
    attributesOf_sendDeactivation (fates user.username).deactivate hbefore
  unfold expireUserUnder
  split_ifs
  · dsimp only
    split_ifs with hraised
    · refine ⟨middle, hmiddle, hexpires, Or.inr ⟨?_, hrevoked⟩⟩
      rintro ⟨hreturned, -⟩
      rw [hreturned _ (List.mem_singleton_self _)] at hraised
      cases hraised
    · rw [marks_cons (Bool.eq_false_iff.mpr hraised)]
      rcases attributesOf_revokeUnder (fates user.username) hmiddle with
        ⟨hmarks, hafter⟩ | ⟨hnot, hafter⟩
      · exact ⟨_, hafter, hexpires, Or.inl ⟨hmarks, rfl⟩⟩
      · exact ⟨_, hafter, hexpires, Or.inr ⟨hnot, hrevoked⟩⟩
  · rcases attributesOf_revokeUnder (fates user.username) hbefore with
      ⟨hmarks, hafter⟩ | ⟨hnot, hafter⟩
    · exact ⟨_, hafter, rfl, Or.inl ⟨hmarks, rfl⟩⟩
    · exact ⟨_, hafter, rfl, Or.inr ⟨hnot, rfl⟩⟩

/-- A round calls for its user, and for nobody else. -/
theorem username_of_mem_expireUserUnder {fates : String → UserFates} {user : UserRecord}
    {call : TickCall} (hcall : call ∈ (expireUserUnder takConfigured fates user dir).1) :
    call.username = user.username := by
  have hrest : ∀ dir', ∀ call ∈ (revokeUnder takConfigured (fates user.username)
      user.username dir').1, call.username = user.username := by
    intro dir' call hcall
    unfold revokeUnder at hcall
    split_ifs at hcall
    · match hanswer : (fates user.username).revoke with
      | none =>
          rw [hanswer] at hcall
          rw [List.mem_singleton.mp hcall]
          rfl
      | some false =>
          rw [hanswer] at hcall
          rw [List.mem_singleton.mp hcall]
          rfl
      | some true =>
          rw [hanswer] at hcall
          rcases List.mem_pair.mp hcall with rfl | rfl
          · rfl
          · rfl
    · rw [List.mem_singleton.mp hcall]
      rfl
  unfold expireUserUnder at hcall
  split_ifs at hcall
  · dsimp only at hcall
    split_ifs at hcall
    · rw [List.mem_singleton.mp hcall]
      rfl
    · rcases List.mem_cons.mp hcall with rfl | hcall
      · rfl
      · exact hrest _ call hcall
  · exact hrest _ call hcall

theorem expireUserUnder_ne_nil (fates : String → UserFates) (user : UserRecord) :
    (expireUserUnder takConfigured fates user dir).1 ≠ [] := by
  have hrest : ∀ dir', (revokeUnder takConfigured (fates user.username) user.username dir').1 ≠
      [] := by
    intro dir'
    unfold revokeUnder
    split_ifs
    · match (fates user.username).revoke with
      | none => exact List.cons_ne_nil _ _
      | some false => exact List.cons_ne_nil _ _
      | some true => exact List.cons_ne_nil _ _
    · exact List.cons_ne_nil _ _
  unfold expireUserUnder
  split_ifs
  · dsimp only
    split_ifs
    · exact List.cons_ne_nil _ _
    · exact List.cons_ne_nil _ _
  · exact hrest dir

end Round

/-! ## A tick -/

/-- The lifetime of the user is over and the user is not flagged. -/
def Pending (now : ℚ) (dir : Directory) (username : String) : Prop :=
  ∃ attrs, dir.attributesOf username = some attrs ∧ pendingExpiry now attrs

section Tick

variable {settings : Settings} {now : ℚ} {dir dir' : Directory} {username : String}

theorem nodup_pendingUsers (settings : Settings) (now : ℚ) (dir : Directory) :
    ((pendingUsers settings now dir).map UserRecord.username).Nodup := by
  rw [pendingUsers, List.map_map]
  exact (List.filter_sublist.map _).nodup (Directory.nodup_ids dir)

/-- The listing has a record for every user who is pending. -/
theorem pending_iff : Pending now dir username ↔
    username ∈ (pendingUsers settings now dir).map UserRecord.username := by
  simp only [Pending, pendingUsers, List.map_map, List.mem_map, List.mem_filter]
  constructor
  · rintro ⟨attrs, hattrs, hpending⟩
    obtain ⟨account, haccount, rfl⟩ := Option.map_eq_some_iff.mp hattrs
    have huser : dir.user username = some (dir.view username account) :=
      Option.map_eq_some_iff.mpr ⟨account, haccount, rfl⟩
    exact ⟨dir.view username account,
      ⟨(Directory.mem_users_iff dir _).mpr huser, hpending⟩, rfl⟩
  · rintro ⟨u, ⟨hu, hpending⟩, rfl⟩
    obtain ⟨account, haccount, hview⟩ :=
      Option.map_eq_some_iff.mp ((Directory.mem_users_iff dir u).mp hu)
    refine ⟨parseAttributes u.attributes, ?_, hpending⟩
    rw [← hview]
    exact Option.map_eq_some_iff.mpr ⟨account, haccount, rfl⟩

theorem exists_record (settings : Settings) (hpending : Pending now dir username) :
    ∃ user ∈ pendingUsers settings now dir, user.username = username :=
  List.mem_map.mp (pending_iff.mp hpending)

/-- A record shows the activity of its account. -/
theorem isActive_of_mem {user : UserRecord} (huser : user ∈ pendingUsers settings now dir) :
    ∃ attrs, dir.attributesOf user.username = some attrs ∧
      user.isActive = attrs.isActive.getD true := by
  obtain ⟨u, hu, rfl⟩ := List.mem_map.mp huser
  obtain ⟨account, haccount, hview⟩ :=
    Option.map_eq_some_iff.mp ((Directory.mem_users_iff dir u).mp (List.mem_filter.mp hu).1)
  refine ⟨parseAttributes u.attributes, ?_, rfl⟩
  rw [← hview]
  exact Option.map_eq_some_iff.mpr ⟨account, haccount, rfl⟩

variable {tick : Tick}

theorem run_listed (hlisted : tick.listed) (dir : Directory) : tick.run settings dir =
    forEach (expireUserUnder tick.takConfigured tick.fates)
      (pendingUsers settings tick.now dir) dir := if_pos hlisted

/-- A pending user fares as in a round alone. -/
theorem lookup_run {user : UserRecord} (hlisted : tick.listed)
    (huser : user ∈ pendingUsers settings tick.now dir) :
    (tick.run settings dir).2.accounts.lookup user.username =
      (expireUserUnder tick.takConfigured tick.fates user dir).2.accounts.lookup
        user.username := by
  rw [run_listed hlisted]
  exact part_forEach (rounds_expireUserUnder tick.fates)
    (nodup_pendingUsers settings tick.now dir) huser dir

/-- What a tick calls for a pending user is what the round alone calls. -/
theorem mem_run_iff {user : UserRecord} (hlisted : tick.listed)
    (huser : user ∈ pendingUsers settings tick.now dir) {call : TickCall}
    (hcall : call.username = user.username) :
    call ∈ (tick.run settings dir).1 ↔
      call ∈ (expireUserUnder tick.takConfigured tick.fates user dir).1 := by
  have hnodup := nodup_pendingUsers settings tick.now dir
  rw [run_listed hlisted, mem_forEach_iff (rounds_expireUserUnder tick.fates) hnodup]
  constructor
  · rintro ⟨other, hother, hmem⟩
    have hsame : other.username = user.username :=
      (username_of_mem_expireUserUnder hmem).symm.trans hcall
    rwa [List.inj_on_of_nodup_map hnodup hother huser hsame] at hmem
  · intro hmem
    exact ⟨user, huser, hmem⟩

/-- Who is not pending is left alone. -/
theorem lookup_run_of_not_pending (hnot : ¬ Pending tick.now dir username) :
    (tick.run settings dir).2.accounts.lookup username = dir.accounts.lookup username := by
  rw [Tick.run]
  split_ifs
  · exact part_forEach_of_notMem (rounds_expireUserUnder tick.fates)
      (fun hmem => hnot (pending_iff.mpr hmem)) dir
  · rfl

/-- How an account fares does not depend on the other accounts. -/
theorem lookup_run_congr (hsame : dir'.accounts.lookup username = dir.accounts.lookup username) :
    (tick.run settings dir').2.accounts.lookup username =
      (tick.run settings dir).2.accounts.lookup username := by
  have hattributes := attributesOf_congr hsame
  by_cases hlisted : tick.listed
  · by_cases hpending : Pending tick.now dir username
    · have hpending' : Pending tick.now dir' username := by
        rw [Pending, hattributes]
        exact hpending
      obtain ⟨user, huser, rfl⟩ := exists_record settings hpending
      obtain ⟨user', huser', hname⟩ := exists_record settings hpending'
      have hactive : user'.isActive = user.isActive := by
        obtain ⟨attrs, hattrs, hisActive⟩ := isActive_of_mem huser
        obtain ⟨attrs', hattrs', hisActive'⟩ := isActive_of_mem huser'
        rw [hname, hattributes, hattrs] at hattrs'
        rw [hisActive, hisActive', Option.some.inj hattrs']
      have hleft := lookup_run hlisted huser'
      rw [hname] at hleft
      rw [hleft, lookup_run hlisted huser]
      exact (expireUserUnder_own tick.fates hname hactive hsame.symm).2.symm
    · have hpending' : ¬ Pending tick.now dir' username := by
        rw [Pending, hattributes]
        exact hpending
      rw [lookup_run_of_not_pending hpending, lookup_run_of_not_pending hpending', hsame]
  · rw [Tick.run, Tick.run, if_neg hlisted, if_neg hlisted]
    exact hsame

/-- The tick calls for every user who is pending. -/
theorem exists_call_of_pending (hlisted : tick.listed)
    (hpending : Pending tick.now dir username) :
    ∃ call ∈ (tick.run settings dir).1, call.username = username := by
  obtain ⟨user, huser, rfl⟩ := exists_record settings hpending
  have hcalls : (expireUserUnder tick.takConfigured tick.fates user dir).1 ≠ [] :=
    expireUserUnder_ne_nil tick.fates user
  obtain ⟨call, hcall⟩ := List.exists_mem_of_ne_nil _ hcalls
  have hname := username_of_mem_expireUserUnder hcall
  exact ⟨call, (mem_run_iff hlisted huser hname).mpr hcall, hname⟩

/-- A tick leaves the expiry of a user alone, and flags who is marked. -/
theorem attributesOf_run (settings : Settings) (hlisted : tick.listed) {before : Attributes}
    (hbefore : dir.attributesOf username = some before) (hpending : pendingExpiry tick.now before) :
    ∃ after, (tick.run settings dir).2.attributesOf username = some after ∧
      after.expires = before.expires ∧
      ((Marks (tick.run settings dir).1 username ∧ after.certsRevoked = some true) ∨
        (¬ Marks (tick.run settings dir).1 username ∧
          after.certsRevoked = before.certsRevoked)) := by
  obtain ⟨user, huser, rfl⟩ := exists_record settings ⟨before, hbefore, hpending⟩
  have hmarks := marks_congr fun _ hname => mem_run_iff hlisted huser hname
  rw [attributesOf_congr (lookup_run hlisted huser), hmarks]
  exact attributesOf_expireUserUnder tick.fates hbefore

end Tick

/-! ## Ticks one after another -/

/-- A tick in a history: the directory it finds, what it calls and the directory it leaves. -/
structure Visit where
  found : Directory
  tick : Tick
  calls : List TickCall
  left : Directory

/-- Ticks one after another.  After each of them others change the directory. -/
def history (settings : Settings) :
    List (Tick × (Directory → Directory)) → Directory → List Visit
  | [], _ => []
  | (tick, others) :: rest, dir =>
      { found := dir
        tick := tick
        calls := (tick.run settings dir).1
        left := (tick.run settings dir).2 } ::
        history settings rest (others (tick.run settings dir).2)

/-- The tick has called for the user. -/
def Visit.Attempts (visit : Visit) (username : String) : Prop :=
  ∃ call ∈ visit.calls, call.username = username

/-- How the users fare in a tick: `alone` is a directory in which a pending user has the same
account, whatever the other accounts are. -/
structure Visit.Isolates (settings : Settings) (visit : Visit) : Prop where
  alone : ∀ (alone : Directory) username, Pending visit.tick.now visit.found username →
    alone.accounts.lookup username = visit.found.accounts.lookup username →
    (visit.tick.run settings alone).2.attributesOf username = visit.left.attributesOf username
  flagged : ∀ username, Pending visit.tick.now visit.found username →
    (Flagged visit.left username ↔ Marks visit.calls username)
  untouched : ∀ username, ¬ Pending visit.tick.now visit.found username →
    visit.left.accounts.lookup username = visit.found.accounts.lookup username
  attempts : visit.tick.listed → ∀ username, Pending visit.tick.now visit.found username →
    visit.Attempts username

/-- What an account has to have for the user to be expired from a time on. -/
def Expires (dir : Directory) (username : String) (expires : ℤ) : Prop :=
  ∃ attrs, dir.attributesOf username = some attrs ∧ attrs.expires = some expires

section History

variable {settings : Settings} {steps : List (Tick × (Directory → Directory))}
  {dir : Directory} {username : String}

/-- Every tick of a history ran on the directory it found. -/
theorem run_of_mem_history {visit : Visit} (hvisit : visit ∈ history settings steps dir) :
    visit.tick.run settings visit.found = (visit.calls, visit.left) := by
  induction steps generalizing dir with
  | nil => cases hvisit
  | cons step steps ih =>
      rcases List.mem_cons.mp hvisit with rfl | hvisit
      · rfl
      · exact ih hvisit

theorem not_flagged_of_pending {now : ℚ} (hpending : Pending now dir username) :
    ¬ Flagged dir username := by
  obtain ⟨attrs, hattrs, hexpired⟩ := hpending
  rintro ⟨attrs', hattrs', hrevoked⟩
  obtain rfl : attrs = attrs' := Option.some.inj (hattrs.symm.trans hattrs')
  rw [pendingExpiry, hrevoked] at hexpired
  cases hexpires : attrs.expires with
  | none => simp [hexpires] at hexpired
  | some expires => simp [hexpires] at hexpired

/-- A user who is expired is flagged or pending. -/
theorem flagged_or_pending {now : ℚ} {expires : ℤ} (hexpires : Expires dir username expires)
    (hnow : (expires : ℚ) ≤ now) : Flagged dir username ∨ Pending now dir username := by
  obtain ⟨attrs, hattrs, hexpires⟩ := hexpires
  by_cases hrevoked : attrs.certsRevoked = some true
  · exact Or.inl ⟨attrs, hattrs, hrevoked⟩
  · right
    refine ⟨attrs, hattrs, ?_⟩
    rw [pendingExpiry, hexpires]
    cases hflag : attrs.certsRevoked with
    | none => simpa using hnow
    | some flag =>
        cases flag with
        | false => simpa using hnow
        | true => exact absurd hflag hrevoked

/-- A tick leaves the expiry of every user alone. -/
theorem Expires.run {expires : ℤ} (hexpires : Expires dir username expires) (tick : Tick) :
    Expires (tick.run settings dir).2 username expires := by
  by_cases hpending : Pending tick.now dir username
  · by_cases hlisted : tick.listed
    · obtain ⟨before, hbefore, hexpired⟩ := hpending
      obtain ⟨attrs, hattrs, hexpires⟩ := hexpires
      obtain rfl : attrs = before := Option.some.inj (hattrs.symm.trans hbefore)
      obtain ⟨after, hafter, hsame, -⟩ := attributesOf_run settings hlisted hbefore
        hexpired
      exact ⟨after, hafter, hsame.trans hexpires⟩
    · rw [Tick.run, if_neg hlisted]
      exact hexpires
  · rw [Expires, attributesOf_congr (lookup_run_of_not_pending hpending)]
    exact hexpires

/-- The mark is set by the tick that makes the calls for it. -/
theorem flagged_run_iff {tick : Tick} (hpending : Pending tick.now dir username) :
    Flagged (tick.run settings dir).2 username ↔ Marks (tick.run settings dir).1 username := by
  have hbefore := not_flagged_of_pending hpending
  by_cases hlisted : tick.listed
  · obtain ⟨before, hattrs, hexpired⟩ := hpending
    obtain ⟨after, hafter, -, hmarks | hmarks⟩ :=
      attributesOf_run settings hlisted hattrs hexpired
    · exact iff_of_true ⟨after, hafter, hmarks.2⟩ hmarks.1
    · refine iff_of_false ?_ hmarks.1
      rintro ⟨attrs, hattrs', hrevoked⟩
      obtain rfl : after = attrs := Option.some.inj (hafter.symm.trans hattrs')
      exact hbefore ⟨before, hattrs, hmarks.2.symm.trans hrevoked⟩
  · rw [Tick.run, if_neg hlisted]
    refine iff_of_false hbefore ?_
    rintro ⟨-, hrevoked, -⟩
    cases hrevoked

theorem isolates_of_mem_history {visit : Visit} (hvisit : visit ∈ history settings steps dir) :
    visit.Isolates settings := by
  have hrun := run_of_mem_history hvisit
  have hcalls : (visit.tick.run settings visit.found).1 = visit.calls := congrArg Prod.fst hrun
  have hleft : (visit.tick.run settings visit.found).2 = visit.left := congrArg Prod.snd hrun
  constructor
  · intro alone username _ hsame
    rw [← hleft]
    exact attributesOf_congr (lookup_run_congr hsame)
  · intro username hpending
    rw [← hleft, ← hcalls]
    exact flagged_run_iff hpending
  · intro username hnot
    rw [← hleft]
    exact lookup_run_of_not_pending hnot
  · intro hlisted username hpending
    rw [Visit.Attempts, ← hcalls]
    exact exists_call_of_pending hlisted hpending

/-- A user stays expired as long as the others leave the attributes alone. -/
theorem expires_of_mem_history {expires : ℤ} (hexpires : Expires dir username expires)
    (hothers : ∀ step ∈ steps, ∀ dir,
      (step.2 dir).attributesOf username = dir.attributesOf username)
    {visit : Visit} (hvisit : visit ∈ history settings steps dir) :
    Expires visit.found username expires ∧ ∃ step ∈ steps, step.1 = visit.tick := by
  induction steps generalizing dir with
  | nil => cases hvisit
  | cons step steps ih =>
      rcases List.mem_cons.mp hvisit with rfl | hvisit
      · exact ⟨hexpires, step, List.mem_cons_self, rfl⟩
      · have hnext : Expires (step.2 (step.1.run settings dir).2) username expires := by
          rw [Expires, hothers step List.mem_cons_self]
          exact hexpires.run step.1
        obtain ⟨hfound, tick, htick, heq⟩ := ih hnext
          (fun step hstep => hothers step (List.mem_cons_of_mem _ hstep)) hvisit
        exact ⟨hfound, tick, List.mem_cons_of_mem _ htick, heq⟩

end History

/-- Whatever becomes of the calls for the users, and whatever others do to the directory between
the ticks: the calls for one user have no effect on another one, a pending user is flagged exactly
if the certificates are revoked and LLDAP does what the mark asks for, and every tick that has its
listing calls for every user who is pending.  So a user who has expired, and whose attributes the
others leave alone, is called for in every such tick until the flag is set. -/
theorem expiry_ticks_isolate (settings : Settings)
    (steps : List (Tick × (Directory → Directory))) (dir : Directory) :
    (∀ visit ∈ history settings steps dir, visit.Isolates settings) ∧
    ∀ username expires, Expires dir username expires →
      (∀ step ∈ steps, (expires : ℚ) ≤ step.1.now ∧
        ∀ dir, (step.2 dir).attributesOf username = dir.attributesOf username) →
      ∀ visit ∈ history settings steps dir, visit.tick.listed →
        Flagged visit.found username ∨ visit.Attempts username := by
  constructor
  · intro visit hvisit
    exact isolates_of_mem_history hvisit
  · intro username expires hexpires hsteps visit hvisit hlisted
    obtain ⟨hfound, step, hstep, htick⟩ :=
      expires_of_mem_history hexpires (fun step hstep => (hsteps step hstep).2) hvisit
    have hnow : (expires : ℚ) ≤ visit.tick.now := by
      rw [← htick]
      exact (hsteps step hstep).1
    apply (flagged_or_pending hfound hnow).imp_right
    intro hpending
    exact (isolates_of_mem_history hvisit).attempts hlisted username hpending

/-- A tick at 1200 in which the certificates are revoked. -/
def revokingTick (mark : CallFate) : Tick where
  now := 1200
  listed := true
  takConfigured := true
  fates := fun _ => ⟨.answered, some true, mark⟩

/-- `mark_certs_revoked` of the scheduler, when LLDAP answers the two queries and applies the
mutation, and all three answers to it are lost. -/
def lostMark : Except Exn Unit × IdentityState Settings.small :=
  (Identity.markCertsRevoked .scheduler (Settings.small.numericId "kim")).run
    (withQueue [.runs, .runs, .fails 1, .fails 1, .fails 1] (.start kimDirectory 1200))

/-- The answer to the mark is lost: the call raises, and the user is flagged. -/
theorem lost_mark_flags :
    Pending 1200 kimDirectory "kim" ∧
    ((revokingTick (.lost true)).run Settings.small kimDirectory).1 =
      [.deactivateUser "kim" ⟨false, true⟩, .revokeAllUserCerts "kim" (some true),
        .markCertsRevoked "kim" ⟨true, true⟩] ∧
    Flagged ((revokingTick (.lost true)).run Settings.small kimDirectory).2 "kim" ∧
    lostMark.1.isOk = false ∧ Flagged lostMark.2.directory "kim" := by
  refine ⟨⟨kimAttributes, by decide +kernel, by decide +kernel⟩, by decide +kernel,
    ⟨⟨some 1000, some true, some false, some "user"⟩, by decide +kernel, rfl⟩,
    by decide +kernel, ⟨⟨some 1000, some true, none, some "user"⟩, by decide +kernel, rfl⟩⟩

/-- Two ticks: the mark does not reach LLDAP in the first one and does in the second one. -/
def retriedTicks : List (Tick × (Directory → Directory)) :=
  [(revokingTick (.lost false), id), (revokingTick .answered, id)]

/-- The second tick calls for the user again, and then the user is flagged. -/
theorem expiry_ticks_isolate_retried :
    (∀ visit ∈ history Settings.small retriedTicks kimDirectory,
      Flagged visit.found "kim" ∨ visit.Attempts "kim") ∧
    (history Settings.small retriedTicks kimDirectory).map
      (fun visit => (visit.left.attributesOf "kim").bind Attributes.certsRevoked) =
        [some false, some true] := by
  refine ⟨?_, by decide +kernel⟩
  have hexpires : Expires kimDirectory "kim" 1000 :=
    ⟨kimAttributes, by decide +kernel, rfl⟩
  have hticks : ∀ visit ∈ history Settings.small retriedTicks kimDirectory,
      visit.tick.listed := by
    intro visit hvisit
    rcases List.mem_pair.mp hvisit with rfl | rfl
    · rfl
    · rfl
  intro visit hvisit
  apply (expiry_ticks_isolate Settings.small retriedTicks kimDirectory).2 "kim" 1000 hexpires ?_
    visit hvisit (hticks visit hvisit)
  intro step hstep
  rcases List.mem_pair.mp hstep with rfl | rfl
  · exact ⟨by norm_num [revokingTick], fun _ => rfl⟩
  · exact ⟨by norm_num [revokingTick], fun _ => rfl⟩

end FastTAK.Api
