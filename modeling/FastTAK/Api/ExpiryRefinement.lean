import FastTAK.Api.ExpiryTicks
import FastTAK.Api.Sequential
import FastTAK.Identity.Searches

/-!
# Ticks as they run

Whatever fails on its way, `_check_user_expiry` does to the directory what a tick does in which
each call has the fate it met.
-/

namespace FastTAK.Api

open FastTAK.Effect FastTAK.Effect.Prog FastTAK.Identity FastTAK.Independent

variable {settings : Settings}

/-! ## Calls -/

section Calls

variable {username : String} {s : IdentityState settings}

theorem alone_sentDeactivation {userId : ℤ} (hknown : Known .scheduler userId username s) :
    Alone (fun _ _ => True) (fun result s' => ∃ fate,
      Ended s (sendDeactivation fate username s.directory) result s')
      (deactivateUser .scheduler userId) s :=
  alone_requireUsername_bind hknown
    (alone_sentUpdate username none (nodup_buildCustomAttributes _) s)

theorem alone_sentMark {userId : ℤ} (hknown : Known .scheduler userId username s) :
    Alone (fun _ _ => True) (fun result s' => ∃ fate,
      Ended s (sendMark fate username s.directory) result s')
      (Identity.markCertsRevoked .scheduler userId) s := by
  have hlost : ∀ queue e, ∃ fate, Ended s (sendMark fate username s.directory)
      (.error e) (withQueue queue s) := by
    intro queue e
    refine ⟨.lost false, ?_⟩
    unfold sendMark
    cases s.directory.attributesOf username with
    | none => exact ⟨rfl, rfl, rfl⟩
    | some existing => exact ⟨rfl, rfl, rfl⟩
  apply alone_requireUsername_bind hknown
  apply alone_bind
  apply alone_bind
  apply alone_query
  · intro queue
    cases huser : s.directory.user username with
    | none => exact hlost queue _
    | some u =>
        have hattrs : s.directory.attributesOf username =
            some (parseAttributes u.attributes) := by
          obtain ⟨account, haccount, rfl⟩ := Option.map_eq_some_iff.mp huser
          exact Option.map_eq_some_iff.mpr ⟨account, haccount, rfl⟩
        apply (alone_sentUpdate username none (nodup_buildCustomAttributes _)
          (withQueue queue s)).mono fun _ _ h => h
        rintro result s' ⟨fate, hended⟩
        refine ⟨fate, ?_⟩
        rw [sendMark, hattrs]
        exact ⟨hended.raised, hended.directory, hended.ids⟩
  · exact hlost

end Calls

/-! ## One user -/

/-- What a tick is told about the certificates, the latest answer first. -/
def answers (calls : List TickCall) : List (String × Bool) :=
  (calls.filterMap fun call => match call with
    | .revokeAllUserCerts username answer => answer.map fun answer => (username, answer)
    | _ => none).reverse

/-- The record of the answers. -/
def World.answers (w : World settings) : List (String × Bool) :=
  w.revocations.map fun call => (call.username, call.answer)

/-- The service has done what the calls of a tick do. -/
structure Follows (w : World settings) (ticked : List TickCall × Directory)
    (w' : World settings) : Prop where
  directory : w'.identity.directory = ticked.2
  ids : w'.identity.ids = w.identity.ids
  answers : w'.answers = answers ticked.1 ++ w.answers

theorem answers_append (calls calls' : List TickCall) :
    answers (calls ++ calls') = answers calls' ++ answers calls := by
  rw [answers, List.filterMap_append, List.reverse_append]
  rfl

section User

variable {user : UserRecord} {w : World settings}

/-- The second part of the loop body. -/
def revokePart (user : UserRecord) : Handler settings Unit :=
  if settings.takConfigured then do
    let allRevoked ← revokeAll user.username
    if allRevoked then identity (Identity.markCertsRevoked .scheduler user.id)
  else pure ()

theorem expireUser_eq (user : UserRecord) :
    (expireUser user : Handler settings Unit) = tryExcept (fun _ => pure ())
      (if user.isActive then
        identity (deactivateUser .scheduler user.id) >>= fun _ => revokePart user
      else revokePart user) := by
  unfold expireUser revokePart
  rfl

/-- The revocation leaves the identity state alone and records its answer. -/
theorem alone_revokeAll_answer (username : String) (w : World settings) :
    Alone (fun _ _ => True) (fun result w' => w'.identity = w.identity ∧
      w'.answers = result.toOption.toList.map (username, ·) ++ w.answers)
      (revokeAll username) w := by
  apply alone_of_run
  rcases hrevoke : Certs.revokeAllUserCerts username w.pki with ⟨e | answer, s⟩
  · simp [revokeAll, run, atomic, hrevoke, Except.toOption, World.answers]
  · simp [revokeAll, run, atomic, hrevoke, Except.toOption, World.answers]

theorem alone_identity_true {α : Type} {program : IdProg settings α} {w : World settings}
    {post : Except Exn α → IdentityState settings → Prop}
    (hprogram : Alone (fun _ _ => True) post program w.identity) :
    Alone (fun _ _ => True) (fun result w' => post result w'.identity ∧ w'.answers = w.answers)
      (identity program) w :=
  alone_identity (fun _ _ h => h) (hprogram.mono (fun _ _ h => h) fun _ _ h => ⟨h, rfl⟩)

/-- However it ends, the second part has made the calls it makes under some fates. -/
theorem alone_revokePart (hknown : Known .scheduler user.id user.username w.identity)
    (deactivate : CallFate) :
    Alone (fun _ _ => True) (fun _ w' => ∃ fates : UserFates, fates.deactivate = deactivate ∧
      Follows w (revokeUnder settings.takConfigured fates user.username w.identity.directory) w')
      (revokePart user) w := by
  unfold revokePart revokeUnder
  by_cases htak : settings.takConfigured
  · rw [if_pos htak]
    simp only [if_pos htak]
    apply alone_bind
    apply (alone_revokeAll_answer user.username w).mono fun _ _ h => h
    rintro (e | answer) w₁ ⟨hidentity, hanswers⟩
    · exact ⟨⟨deactivate, none, .answered⟩, rfl, by rw [hidentity], by rw [hidentity], hanswers⟩
    · dsimp only
      split_ifs with hanswer
      · subst hanswer
        have hmark : Alone (fun _ _ => True) _
            (Identity.markCertsRevoked .scheduler user.id) w₁.identity :=
          alone_sentMark (by rw [hidentity]; exact hknown)
        apply (alone_identity_true hmark).mono fun _ _ h => h
        rintro result w' ⟨⟨fate, hended⟩, hsame⟩
        refine ⟨⟨deactivate, some true, fate⟩, rfl, ?_⟩
        rw [hidentity] at hended
        exact ⟨hended.directory, hended.ids, hsame.trans hanswers⟩
      · obtain rfl : answer = false := Bool.eq_false_iff.mpr hanswer
        exact ⟨⟨deactivate, some false, .answered⟩, rfl, by rw [hidentity], by rw [hidentity],
          hanswers⟩
  · rw [if_neg htak]
    simp only [if_neg htak]
    exact ⟨⟨deactivate, none, .answered⟩, rfl, rfl, rfl, rfl⟩

/-- The loop body never raises, and makes the calls of a round under some fates. -/
theorem alone_expireUser (hknown : Known .scheduler user.id user.username w.identity) :
    Alone (fun _ _ => True) (fun result w' => result = .ok () ∧ ∃ fates : UserFates,
      Follows w (expireUserUnder settings.takConfigured (fun _ => fates) user
        w.identity.directory) w') (expireUser user) w := by
  rw [expireUser_eq]
  apply alone_tryExcept
  suffices hbody : Alone (fun _ _ => True) (fun _ w' => ∃ fates : UserFates,
      Follows w (expireUserUnder settings.takConfigured (fun _ => fates) user
        w.identity.directory) w')
      (if user.isActive then
        identity (deactivateUser .scheduler user.id) >>= fun _ => revokePart user
      else revokePart user) w by
    apply hbody.mono fun _ _ h => h
    rintro (e | _) w' hfollows
    · exact ⟨rfl, hfollows⟩
    · exact ⟨rfl, hfollows⟩
  unfold expireUserUnder
  split_ifs with hactive
  · apply alone_bind
    apply (alone_identity_true (alone_sentDeactivation hknown)).mono fun _ _ h => h
    rintro result w₁ ⟨⟨fate, hended⟩, hanswers⟩
    cases result with
    | error e =>
        have hraised : (sendDeactivation fate user.username
          w.identity.directory).1.raised = true := hended.raised
        refine ⟨⟨fate, none, .answered⟩, ?_⟩
        dsimp only
        rw [if_pos hraised]
        exact ⟨hended.directory, hended.ids, hanswers⟩
    | ok _ =>
        have hraised : (sendDeactivation fate user.username
          w.identity.directory).1.raised = false := hended.raised
        have hknown₁ : Known .scheduler user.id user.username w₁.identity := by
          rw [Known, hended.ids]
          exact hknown
        apply (alone_revokePart hknown₁ fate).mono fun _ _ h => h
        rintro result w' ⟨fates, rfl, hfollows⟩
        refine ⟨fates, ?_⟩
        dsimp only
        rw [if_neg (Bool.eq_false_iff.mp hraised)]
        rw [hended.directory] at hfollows
        refine ⟨hfollows.directory, hfollows.ids.trans hended.ids, ?_⟩
        rw [hfollows.answers, hanswers]
        rfl
  · apply (alone_revokePart hknown .answered).mono fun _ _ h => h
    rintro result w' ⟨fates, -, hfollows⟩
    exact ⟨fates, hfollows⟩

end User

/-! ## The tick -/

section Tick

variable {w : World settings}

theorem Follows.trans {w₁ w₂ : World settings} {dir : Directory} {calls : List TickCall}
    {rest : List TickCall × Directory} (hfirst : Follows w (calls, dir) w₁)
    (hrest : Follows w₁ rest w₂) : Follows w (calls ++ rest.1, rest.2) w₂ where
  directory := hrest.directory
  ids := hrest.ids.trans hfirst.ids
  answers := by
    rw [hrest.answers, hfirst.answers, answers_append, List.append_assoc]

/-- The loop makes the calls of its rounds, each user under fates of its own. -/
theorem alone_expireUsers {users : List UserRecord}
    (hnodup : (users.map UserRecord.username).Nodup)
    (hknown : ∀ user ∈ users, Known .scheduler user.id user.username w.identity) :
    Alone (fun _ _ => True) (fun result w' => result = .ok () ∧ ∃ fates : String → UserFates,
      Follows w (forEach (expireUserUnder settings.takConfigured fates) users
        w.identity.directory) w') (forList expireUser users) w := by
  induction users generalizing w with
  | nil => exact ⟨rfl, fun _ => ⟨.answered, none, .answered⟩, rfl, rfl, rfl⟩
  | cons user users ih =>
      rw [List.map_cons, List.nodup_cons] at hnodup
      apply alone_bind
      apply (alone_expireUser (hknown user List.mem_cons_self)).mono fun _ _ h => h
      rintro result w₁ ⟨rfl, first, hfirst⟩
      have hknown₁ : ∀ user ∈ users, Known .scheduler user.id user.username w₁.identity := by
        intro other hother
        rw [Known, hfirst.ids]
        exact hknown other (List.mem_cons_of_mem user hother)
      apply (ih hnodup.2 hknown₁).mono fun _ _ h => h
      rintro result w' ⟨rfl, rest, hrest⟩
      refine ⟨rfl, Function.update rest user.username first, ?_⟩
      have hone (dir : Directory) : expireUserUnder settings.takConfigured
          (Function.update rest user.username first) user dir =
            expireUserUnder settings.takConfigured (fun _ => first) user dir := by
        simp only [expireUserUnder, Function.update_self]
      have hothers : ∀ other ∈ users, expireUserUnder settings.takConfigured
          (Function.update rest user.username first) other =
            expireUserUnder settings.takConfigured rest other := by
        intro other hother
        have hne : other.username ≠ user.username := by
          intro heq
          exact hnodup.1 (heq ▸ List.mem_map_of_mem hother)
        funext dir
        simp only [expireUserUnder, Function.update_of_ne hne]
      rw [forEach_cons, hone, forEach_congr hothers, ← hfirst.directory]
      exact hfirst.trans hrest

/-- The listing leaves the directory alone, and the ids it hands out are known. -/
theorem alone_getUsersPendingExpiry {s : IdentityState settings}
    (hids : Set.InjOn settings.numericId {username | username ∈ s.directory.accounts}) :
    Alone (fun _ _ => True) (fun result s' => s'.directory = s.directory ∧
      ∀ records, result = .ok records →
        records = pendingUsers settings s.now s.directory ∧
        ∀ user ∈ records, Known .scheduler user.id user.username s')
      (getUsersPendingExpiry .scheduler) s := by
  apply alone_bind
  apply alone_query
  · intro queue
    apply alone_of_run
    have hread : (atomic (Call.read IdentityState.now) : IdProg settings ℚ).run
        (withQueue queue s) = (.ok s.now, withQueue queue s) := rfl
    rw [run_bind, Call.bind_of_ok hread, run_formatUsers]
    refine ⟨noteAll_directory _ _ _, ?_⟩
    rintro records ⟨⟩
    refine ⟨rfl, ?_⟩
    intro user huser
    obtain ⟨u, hu, rfl⟩ := List.mem_map.mp huser
    obtain ⟨v, hv, hknown⟩ :=
      @known_noteAll settings .scheduler _ (withQueue queue s) u hu
    have hmem : ∀ u ∈ s.directory.users.filter fun u =>
        pendingExpiry s.now (parseAttributes u.attributes), u.id ∈ s.directory.accounts :=
      fun u hu => Directory.mem_accounts_of_mem_users (List.mem_filter.mp hu).1
    have hsame : v.id = u.id := by
      apply hids (hmem v hv) (hmem u hu)
      exact IdMap.sound _ _ _ hknown
    rw [hsame] at hknown
    exact hknown
  · intro queue e
    refine ⟨rfl, ?_⟩
    rintro records ⟨⟩

/-- Whatever fails, and as long as the ids tell the accounts apart, the scheduler does to the
directory what some tick does, and asks for the revocations that the tick asks for. -/
theorem checkUserExpiry_follows
    (hids : Set.InjOn settings.numericId {username | username ∈ w.identity.directory.accounts}) :
    ∃ tick : Tick, tick.now = w.identity.now ∧ tick.takConfigured = settings.takConfigured ∧
      ((checkUserExpiry.run w).2).identity.directory =
        (tick.run settings w.identity.directory).2 ∧
      ((checkUserExpiry.run w).2).answers =
        answers (tick.run settings w.identity.directory).1 ++ w.answers := by
  suffices hruns : Alone (fun _ _ => True) (fun _ w' => ∃ tick : Tick,
      tick.now = w.identity.now ∧ tick.takConfigured = settings.takConfigured ∧
      w'.identity.directory = (tick.run settings w.identity.directory).2 ∧
      w'.answers = answers (tick.run settings w.identity.directory).1 ++ w.answers)
      checkUserExpiry w from hruns.ends
  apply alone_bind
  apply alone_tryExcept
  apply (alone_identity_true (alone_getUsersPendingExpiry hids)).mono fun _ _ h => h
  rintro (e | pending) w₁ ⟨⟨hdirectory, hpending⟩, hanswers⟩
  · exact ⟨⟨w.identity.now, false, settings.takConfigured, fun _ => ⟨.answered, none, .answered⟩⟩,
      rfl, rfl, hdirectory, hanswers⟩
  · obtain ⟨rfl, hknown⟩ := hpending pending rfl
    apply (alone_expireUsers (nodup_pendingUsers _ _ _) hknown).mono fun _ _ h => h
    rintro result w' ⟨-, fates, hfollows⟩
    rw [hdirectory] at hfollows
    refine ⟨⟨w.identity.now, true, settings.takConfigured, fates⟩, rfl, rfl,
      hfollows.directory, ?_⟩
    rw [hfollows.answers, hanswers]
    rfl

end Tick

end FastTAK.Api
