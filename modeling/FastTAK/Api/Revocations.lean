import FastTAK.Api.Deeds
import FastTAK.Api.Sequential
import FastTAK.Base.Pool
import FastTAK.Certs.TrueAnswers

/-!
# What answered revocations are worth

Deletions and the expiry check mark a user as revoked after `revoke_all_user_certs` has answered
`True`.  This file follows these answers through every interleaving of requests and ticks: the
revocation list never loses an entry, a mark of a deletion or a tick comes after an answer, and
the answer is true to the user's certificates exactly if the call found a covered state.
-/

namespace FastTAK.Api

open FastTAK.Effect FastTAK.Effect.Prog FastTAK.Certs FastTAK.Identity

variable {settings : Settings} {α : Type}

/-! ## The record of calls -/

/-- The state a recorded call left. -/
def RevocationCall.after (call : RevocationCall) : Pki :=
  (revokeAllUserCerts call.username call.before).2

/-- Every certificate that the user had is on the list after the call. -/
def RevocationCall.Revoked (call : RevocationCall) : Prop :=
  ∀ n ∈ call.before.userSerials call.username, n ∈ call.after.crl

/-- The call answered as recorded, and the list has kept what it left there. -/
structure RevocationCall.Stands (call : RevocationCall) (w : World settings) : Prop where
  answered : revokeAllUserCerts call.username call.before = (.ok call.answer, call.after)
  crl : call.after.crl ⊆ w.pki.crl

/-- Calls are only added to the record, and serials only to the list. -/
structure Grows (w w' : World settings) : Prop where
  calls : w.revocations ⊆ w'.revocations
  stands : ∀ call ∈ w'.revocations, call ∈ w.revocations ∨ call.Stands w'
  crl : w.pki.crl ⊆ w'.pki.crl

theorem grows_of_same {w w' : World settings} (hcalls : w'.revocations = w.revocations)
    (hcrl : w.pki.crl ⊆ w'.pki.crl) : Grows w w' where
  calls := by rw [hcalls]; exact fun _ h => h
  stands := by rw [hcalls]; exact fun _ h => Or.inl h
  crl := hcrl

instance : IsPreorder (World settings) Grows where
  refl _ := grows_of_same rfl fun _ h => h
  trans _ _ _ hfirst hsecond := {
    calls := fun _ h => hsecond.calls (hfirst.calls h)
    stands := by
      intro call hcall
      rcases hsecond.stands call hcall with hcall | hstands
      · rcases hfirst.stands call hcall with hcall | hstands
        · exact Or.inl hcall
        · exact Or.inr ⟨hstands.answered, fun _ h => hsecond.crl (hstands.crl h)⟩
      · exact Or.inr hstands
    crl := fun _ h => hsecond.crl (hfirst.crl h) }

theorem grows_revokeAll (username : String) (w : World settings) :
    Grows w ((revokeAll username).run w).2 := by
  have hcrl := (keeps_revokeAllUserCerts username w.pki).crl
  rcases hrun : revokeAllUserCerts username w.pki with ⟨e | answer, s⟩
  all_goals rw [hrun] at hcrl
  · have hfailed : (revokeAll username).run w = (.error e, w.withPki s) := by
      simp only [revokeAll, atomic, run, hrun, World.withPki]
    rw [hfailed]
    exact grows_of_same rfl hcrl
  · rw [run_revokeAll hrun]
    refine ⟨fun _ h => List.mem_cons_of_mem _ h, ?_, hcrl⟩
    intro call hcall
    rcases List.mem_cons.mp hcall with rfl | hcall
    · have hafter : RevocationCall.after ⟨username, w.pki, answer⟩ = s := by
        rw [RevocationCall.after, hrun]
      exact Or.inr ⟨by rw [hafter]; exact hrun, by rw [hafter]; exact fun _ h => h⟩
    · exact Or.inl hcall

theorem crl_revokeCert (certId : ℤ) (s : Pki) : (revokeCert certId s).2.crl = s.crl := by
  simp only [revokeCert, takeEntropy, takeTak, Call.bind_apply, Call.update_apply]
  cases nextVerdict s.tak with
  | runs => rfl
  | fails done =>
      simp only [Call.bind_apply, Call.modify_apply, Call.pure_apply]
      split_ifs <;> rfl
  | raises done =>
      simp only [Call.bind_apply, Call.modify_apply, Call.raise_apply]
      split_ifs <;> rfl

/-- Whatever a request does, the record and the list grow. -/
theorem Deed.grows {request : Request} {w w' : World settings} (hdeed : Deed request w w') :
    Grows w w' := by
  cases hdeed with
  | identity _ => exact grows_of_same rfl fun _ h => h
  | revokes h => exact grows_of_same rfl h.crl
  | revokeAll username => exact grows_revokeAll username w
  | flagCertadmin certId =>
      refine grows_of_same rfl ?_
      change w.pki.crl ⊆ (revokeCert certId w.pki).2.crl
      rw [crl_revokeCert]
      exact fun _ h => h
  | generates _ h =>
      refine grows_of_same rfl ?_
      rw [World.withPki, h.crl]
      exact fun _ h => h

theorem grows_handler (request : Request) :
    Respects Grows (fun _ => True) (request.handler : Handler settings Response) :=
  (does_handler request).respects fun _ _ hdeed => hdeed.grows

/-! ## Marks -/

/-- The account is marked as one whose certificates are all revoked. -/
def Marked (dir : Directory) (username : String) : Prop :=
  (dir.attributesOf username).bind Attributes.certsRevoked = some true

/-- No account is newly marked but those in `which`. -/
def MarksOnly (which : String → Prop) (s s' : IdentityState settings) : Prop :=
  ∀ v, Marked s'.directory v → Marked s.directory v ∨ which v

instance (which : String → Prop) : Identity.Tolerant (@MarksOnly settings which) where
  refl _ := fun _ h => Or.inl h
  trans _ _ _ hfirst hsecond := fun v h => (hsecond v h).elim (hfirst v) Or.inr
  quiet _ _ hquiet := by
    intro v h
    rw [hquiet.directory] at h
    exact Or.inl h

/-- A mutation of an account marks at most that account, and only by writing the mark. -/
theorem marksOnly_updateUser {which : String → Prop} {username : String} {attrs : Attributes}
    (hwhich : attrs.certsRevoked = some true → which username) :
    StepOf (@MarksOnly settings which)
      (Directory.updateUser username none (buildCustomAttributes attrs)) := by
  intro s v hmarked
  change Marked (Directory.updateUser username none (buildCustomAttributes attrs)
    s.directory).2 v at hmarked
  rcases eq_or_ne v username with rfl | hne
  · cases haccount : s.directory.accounts.lookup v with
    | none =>
        rw [Directory.updateUser_of_unknown _ _ haccount] at hmarked
        exact Or.inl hmarked
    | some account =>
        by_cases haccepts : (buildCustomAttributes attrs).all Directory.acceptsValues
        · rw [Marked, Directory.attributesOf_updateUser haccount haccepts,
            parseAttributes_insert_build, Option.bind_some] at hmarked
          rcases Option.or_eq_some_iff.mp hmarked with hwritten | ⟨-, hstored⟩
          · exact Or.inr (hwhich hwritten)
          · left
            rw [Marked, Directory.attributesOf, haccount]
            exact hstored
        · rw [Directory.updateUser_of_rejects haccepts] at hmarked
          exact Or.inl hmarked
  · left
    rw [Marked, Directory.attributesOf, ← Directory.lookup_updateUser_of_ne hne none
      (buildCustomAttributes attrs) s.directory]
    exact hmarked

/-- The record and the list grow, and no account is newly marked but those in `which`. -/
structure GrowsMarking (which : String → Prop) (w w' : World settings) : Prop where
  grows : Grows w w'
  marks : MarksOnly which w.identity w'.identity

instance (which : String → Prop) : Tolerant (@GrowsMarking settings which) where
  refl w := ⟨refl_of Grows w, refl_of (MarksOnly which) w.identity⟩
  trans _ _ _ hfirst hsecond := ⟨trans_of Grows hfirst.grows hsecond.grows,
    trans_of (MarksOnly which) hfirst.marks hsecond.marks⟩
  quiet _ _ hquiet := ⟨grows_of_same rfl fun _ h => h, Identity.Tolerant.quiet _ _ hquiet⟩

section Marking

variable {which : String → Prop}

theorem marking_identity {P : α → Prop} {program : IdProg settings α}
    (hprogram : Respects (MarksOnly which) P program) :
    Respects (GrowsMarking which) P (identity program) :=
  hprogram.onPart fun _ _ hmarks => ⟨grows_of_same rfl fun _ h => h, hmarks⟩

theorem marking_deactivateUser (client : Client) (userId : ℤ) :
    Respects (GrowsMarking which) (fun _ => True)
      (identity (deactivateUser client userId) : Handler settings Unit) :=
  marking_identity (respects_deactivateUser fun _ _ => marksOnly_updateUser fun h => by cases h)

theorem marking_markCertsRevoked (client : Client) (userId : ℤ) :
    Respects (GrowsMarking fun v => settings.numericId v = userId) (fun _ => True)
      (identity (markCertsRevoked client userId) : Handler settings Unit) :=
  marking_identity (respects_markCertsRevoked fun _ _ husername =>
    marksOnly_updateUser fun _ => husername)

theorem marking_noderedPems (username : String) :
    Respects (GrowsMarking which) (fun _ => True)
      (certs (noderedPems username) : Handler settings Outcome) := by
  apply respects_atomic
  intro w
  have hkept := keeps_noderedPems revokes_docker username w.pki
  exact ⟨⟨grows_of_same rfl hkept.crl, fun _ h => Or.inl h⟩, fun _ _ => trivial⟩

end Marking

/-! ## Marks come after answers -/

/-- A call for an account with this id has answered `True`. -/
def Answered (userId : ℤ) (w : World settings) : Prop :=
  ∃ call ∈ w.revocations, call.answer = true ∧ settings.numericId call.username = userId

theorem Answered.grows {userId : ℤ} {w w' : World settings} (h : Answered userId w)
    (hgrows : Grows w w') : Answered userId w' := by
  obtain ⟨call, hcall, htrue⟩ := h
  exact ⟨call, hgrows.calls hcall, htrue⟩

/-- The record and the list grow, and a newly marked account has its answer. -/
structure Justifies (w w' : World settings) : Prop where
  grows : Grows w w'
  marks : ∀ v, Marked w'.identity.directory v →
    Marked w.identity.directory v ∨ Answered (settings.numericId v) w

theorem GrowsMarking.justifies {which : String → Prop} {w w' : World settings}
    (h : GrowsMarking which w w')
    (hanswered : ∀ v, which v → Answered (settings.numericId v) w) : Justifies w w' where
  grows := h.grows
  marks := fun v hmarked => (h.marks v hmarked).imp_right (hanswered v)

section Meets

variable {w : World settings}

/-- What marks nothing is justified beside anything. -/
theorem meets_unmarked {P : α → Prop} {p : Handler settings α}
    (hp : Respects (GrowsMarking fun _ => False) P p) (w : World settings) :
    Meets Grows Justifies (fun result _ => ∀ a, result = .ok a → P a) p w := by
  have hkeeps : ∀ w w' : World settings, True → Grows w w' → True := fun _ _ _ _ => trivial
  have hsteps : ∀ w w' : World settings, True → GrowsMarking (fun _ => False) w w' →
      Justifies w w' ∧ True :=
    fun _ _ _ h => ⟨h.justifies fun _ hfalse => hfalse.elim, trivial⟩
  exact (hp.meets_of hkeeps hsteps trivial).mono fun _ _ h => h.1

/-- A mark for an id that has its answer. -/
theorem meets_marked {client : Client} {userId : ℤ} (hanswered : Answered userId w) :
    Meets Grows Justifies (fun _ _ => True)
      (identity (markCertsRevoked client userId) : Handler settings Unit) w := by
  have hsteps : ∀ w w' : World settings, Answered userId w →
      GrowsMarking (fun v => settings.numericId v = userId) w w' →
      Justifies w w' ∧ Answered userId w' := by
    intro w w' hanswered h
    refine ⟨h.justifies ?_, hanswered.grows h.grows⟩
    rintro v rfl
    exact hanswered
  exact ((marking_markCertsRevoked client userId).meets_of
    (fun _ _ h hgrows => h.grows hgrows) hsteps hanswered).mono fun _ _ _ => trivial

theorem answered_revokeAll {username : String}
    (hanswer : ((revokeAll username).run w).1 = .ok true) :
    Answered (settings.numericId username) ((revokeAll username).run w).2 := by
  rcases hrun : revokeAllUserCerts username w.pki with ⟨e | answer, s⟩
  · simp only [revokeAll, atomic, run, hrun, reduceCtorEq] at hanswer
  · rw [run_revokeAll hrun] at hanswer ⊢
    exact ⟨_, List.mem_cons_self, Except.ok.inj hanswer, rfl⟩

theorem meets_revokeAll (username : String) (w : World settings) :
    Meets Grows Justifies (fun result w' => result = .ok true →
      Answered (settings.numericId username) w') (revokeAll username) w := by
  intro w' _
  have hidentity := identity_revokeAll username w'
  refine ⟨⟨grows_revokeAll username w', fun v h => ?_⟩, ?_⟩
  · change Marked ((revokeAll username).run w').2.identity.directory v at h
    rw [hidentity] at h
    exact Or.inl h
  · intro w'' hgrows hanswer
    exact (answered_revokeAll hanswer).grows hgrows

/-- The revocation with the mark after it. -/
theorem meets_revokeAndMark {client : Client} {userId : ℤ} {username : String}
    (hname : settings.numericId username = userId) (w : World settings) :
    Meets Grows Justifies (fun _ _ => True) (do
      let allRevoked ← revokeAll username
      if allRevoked then identity (markCertsRevoked client userId) :
        Handler settings Unit) w := by
  apply meets_bind
  refine (meets_revokeAll username w).mono fun result w' hanswered => ?_
  cases result with
  | error e => trivial
  | ok allRevoked =>
      dsimp only
      split_ifs with hall
      · rw [hall, hname] at hanswered
        exact meets_marked (hanswered rfl)
      · exact meets_pure fun _ _ => trivial

theorem meets_deactivateAndRevoke {client : Client} {userId : ℤ} {username : String}
    (hname : settings.numericId username = userId) (w : World settings) :
    Meets Grows Justifies (fun _ _ => True)
      (deactivateAndRevoke client userId username : Handler settings Unit) w := by
  apply meets_bind
  refine (meets_unmarked (marking_deactivateUser client userId) w).mono fun result w' _ => ?_
  cases result with
  | error e => trivial
  | ok _ =>
      dsimp only
      split_ifs
      · exact meets_revokeAndMark hname w'
      · exact meets_pure fun _ _ => trivial

theorem meets_deleteUser (userId : ℤ) (w : World settings) :
    Meets Grows Justifies (fun _ _ => True) (Api.deleteUser userId) w := by
  apply meets_bind
  refine (meets_unmarked (quiet_requireUser userId) w).mono fun result w' hname => ?_
  cases result with
  | error e => trivial
  | ok user =>
      apply meets_bind
      refine (meets_deactivateAndRevoke (hname user rfl) w').mono fun result w'' _ => ?_
      cases result with
      | error e => trivial
      | ok _ => exact meets_pure fun _ _ => trivial

theorem meets_deleteServiceAccount (accountId : ℤ) (w : World settings) :
    Meets Grows Justifies (fun _ _ => True) (Api.deleteServiceAccount accountId) w := by
  apply meets_bind
  refine (meets_unmarked (quiet_requireAccount accountId) w).mono fun result w' hname => ?_
  cases result with
  | error e => trivial
  | ok user =>
      apply meets_bind
      refine (meets_deactivateAndRevoke (hname user rfl) w').mono fun result w'' _ => ?_
      cases result with
      | error e => trivial
      | ok _ =>
          have hlast : Respects (GrowsMarking fun _ => False) (fun _ => True) (do
              let _ ← certs (noderedPems user.username)
              return Response.deleted user.username : Handler settings Response) :=
            respects_bind (marking_noderedPems user.username) fun _ _ => respects_pure trivial
          exact (meets_unmarked hlast w'').mono fun _ _ _ => trivial

theorem meets_expireUser {user : UserRecord} (hproper : Proper settings user)
    (w : World settings) :
    Meets Grows Justifies (fun _ _ => True) (expireUser user) w := by
  have hrevoke := @meets_revokeAndMark _ .scheduler user.id user.username hproper.symm
  have hrest : ∀ w : World settings, Meets Grows Justifies (fun _ _ => True) (do
      if settings.takConfigured then
        let allRevoked ← revokeAll user.username
        if allRevoked then identity (markCertsRevoked .scheduler user.id) :
          Handler settings Unit) w := by
    intro w
    split_ifs
    · exact hrevoke w
    · exact meets_pure fun _ _ => trivial
  have hbody : Meets Grows Justifies (fun _ _ => True) (do
      if user.isActive then identity (deactivateUser .scheduler user.id)
      if settings.takConfigured then
        let allRevoked ← revokeAll user.username
        if allRevoked then identity (markCertsRevoked .scheduler user.id) :
          Handler settings Unit) w := by
    dsimp only
    split_ifs with hactive htak
    · apply meets_bind
      refine (meets_unmarked (marking_deactivateUser .scheduler user.id) w).mono ?_
      intro result w' _
      cases result with
      | error e => trivial
      | ok _ => exact hrevoke w'
    · apply meets_bind
      refine (meets_unmarked (marking_deactivateUser .scheduler user.id) w).mono ?_
      intro result w' _
      cases result with
      | error e => trivial
      | ok _ => exact meets_pure fun _ _ => trivial
    · exact hrevoke w
    · exact meets_pure fun _ _ => trivial
  apply meets_tryExcept
  refine hbody.mono fun result w' _ => ?_
  cases result with
  | error e => exact meets_pure fun _ _ => trivial
  | ok _ => trivial

theorem meets_checkUserExpiry (w : World settings) :
    Meets Grows Justifies (fun _ _ => True) Api.checkUserExpiry w := by
  have hpending : Respects (GrowsMarking fun _ => False)
      (fun users => ∀ user ∈ users, Proper settings user)
      (tryExcept (fun _ => pure []) (identity (getUsersPendingExpiry .scheduler))) :=
    respects_tryExcept (marking_identity (respects_getUsersPendingExpiry .scheduler))
      fun _ => respects_pure (by simp)
  apply meets_bind
  refine (meets_unmarked hpending w).mono fun result w' hproper => ?_
  cases result with
  | error e => trivial
  | ok pending =>
      apply meets_forList (fun _ _ _ _ => trivial) ?_ trivial
      intro user huser w _
      exact meets_expireUser (hproper pending rfl user huser) w

end Meets

/-! ## Interleavings -/

/-- The requests that may mark an account after its revocation, and the ticks. -/
def Request.marks : Request → Bool
  | .deleteUser _ | .deleteServiceAccount _ | .checkUserExpiry => true
  | _ => false

/-- What the program of a request does beside others. -/
structure Guarantees (request : Request) (w w' : World settings) : Prop where
  grows : Grows w w'
  justifies : request.marks → Justifies w w'

theorem meets_handler (request : Request) (w : World settings) :
    Meets Grows (Guarantees request) (fun _ _ => True)
      (request.handler : Handler settings Response) w := by
  have hmarking : Meets Grows Justifies (fun _ _ => True)
      (request.handler : Handler settings Response) w →
      Meets Grows (Guarantees request) (fun _ _ => True)
        (request.handler : Handler settings Response) w :=
    fun h => h.weaken fun _ _ hjustifies => ⟨hjustifies.grows, fun _ => hjustifies⟩
  by_cases hmarks : request.marks
  · cases request with
    | deleteUser userId => exact hmarking (meets_deleteUser userId w)
    | deleteServiceAccount accountId => exact hmarking (meets_deleteServiceAccount accountId w)
    | checkUserExpiry =>
        apply hmarking
        apply meets_bind
        refine (meets_checkUserExpiry w).mono fun result w' _ => ?_
        cases result with
        | error e => trivial
        | ok _ => exact meets_pure fun _ _ => trivial
    | _ => cases hmarks
  · have hkeeps : ∀ w w' : World settings, True → Grows w w' → True := fun _ _ _ _ => trivial
    have hsteps : ∀ w w' : World settings, True → Grows w w' →
        Guarantees request w w' ∧ True :=
      fun _ _ _ hgrows => ⟨⟨hgrows, fun h => absurd h hmarks⟩, trivial⟩
    exact ((grows_handler request).meets_of hkeeps hsteps trivial).mono fun _ _ _ => trivial

/-- The programs that may run. -/
def Serves (requests : ℕ → Request) (i : ℕ) (p : Handler settings Response) : Prop :=
  p = (requests i).handler

/-- The surroundings do anything but record calls or take serials off the list. -/
def Elsewhere (w w' : World settings) : Prop :=
  w'.revocations = w.revocations ∧ w.pki.crl ⊆ w'.pki.crl

theorem cooperates_handlers (requests : ℕ → Request) :
    Pool.Cooperates (fun _ _ => True) (fun _ => Grows) (fun i => Guarantees (requests i))
      (@Serves settings requests) Elsewhere where
  starts := by
    rintro i p rfl w _
    exact meets_handler (requests i) w
  fresh := fun _ _ _ _ _ => trivial
  env := fun _ _ _ helsewhere => grows_of_same helsewhere.1 helsewhere.2
  others := fun _ _ _ _ _ hguarantees => hguarantees.grows

/-- **Revocation soundness.**  However any number of requests and ticks interleave and whatever
fails: a call that answered `True` revoked all certificates of its user exactly if it found a
covered state, the list keeps them, and a deletion or a tick that marks an account comes after
such an answer. -/
theorem true_answers_of_run (requests : ℕ → Request) {w : World settings}
    (hstart : w.revocations = []) {pool : Pool Exn (World settings) Response}
    (hruns : Pool.Runs (Serves requests) Elsewhere (fun _ _ _ => True) (.idle w) pool) :
    (∀ call ∈ pool.state.revocations, call.answer = true →
      (call.Revoked ↔ Covered call.username call.before) ∧
      (Covered call.username call.before →
        ∀ n ∈ call.before.userSerials call.username, n ∈ pool.state.pki.crl)) ∧
    ∀ i effect rest, pool.threads i = some (.act effect rest) → (requests i).marks →
      ∀ v, Marked (effect pool.state).identity.directory v →
        Marked pool.state.identity.directory v ∨ ∃ call ∈ pool.state.revocations,
          call.answer = true ∧ settings.numericId call.username = settings.numericId v := by
  have hstands : ∀ call ∈ w.revocations, call.Stands w := by
    rw [hstart]
    intro call hcall
    cases hcall
  have hgrows : ∀ w w' : World settings, (∀ call ∈ w.revocations, call.Stands w) →
      Grows w w' → ∀ call ∈ w'.revocations, call.Stands w' := by
    intro w w' hstands hgrows call hcall
    rcases hgrows.stands call hcall with hcall | hnew
    · have hold := hstands call hcall
      exact ⟨hold.answered, fun _ h => hgrows.crl (hold.crl h)⟩
    · exact hnew
  obtain ⟨hall, hmeets⟩ := Pool.runs_invariant (cooperates_handlers requests)
    (fun w w' hinv helsewhere =>
      hgrows w w' hinv (grows_of_same helsewhere.1 helsewhere.2))
    (fun _ w w' hinv hguarantees _ => hgrows w w' hinv hguarantees.grows)
    hstands (fun _ => trivial) hruns
  refine ⟨fun call hcall htrue => ?_, fun i effect rest hthread hmarks => ?_⟩
  · have hcall := hall call hcall
    have hrun := hcall.answered
    rw [htrue] at hrun
    have hiff := revoked_iff_covered hrun
    exact ⟨hiff, fun hcovered n hn => hcall.crl (hiff.mpr hcovered n hn)⟩
  · have hstep := (hmeets.started i _ hthread _ (refl_of Grows _)).1
    exact (hstep.justifies hmarks).marks

/-- The service with the user "kim", who has one certificate that only certadmin holds. -/
def enrolledWorld (tak : List Verdict) : World Settings.small where
  identity := .start (Directory.createUser "kim" "Kim" .empty).2 0
  pki := { Pki.empty with
    certadmin := [⟨1, "kim", "h", 9, some (.certificate ⟨9, "kim", 365⟩), none, none,
      fun _ h => by cases h; rfl⟩]
    tak := tak }
  revocations := []

/-- With the listing failing, the deletion finds nothing to revoke and marks the user. -/
theorem unlisted_certificate_marked :
    let w := (Request.deleteUser (Settings.small.numericId "kim")).serve
      (enrolledWorld [.fails 0])
    w.revocations.map (fun call => (call.username, call.answer,
        call.before.userSerials call.username, call.after.crl)) = [("kim", true, [9], [])] ∧
      Marked w.identity.directory "kim" ∧ w.pki.crl = [] ∧
      ¬ ∀ call ∈ w.revocations, call.answer = true → call.Revoked := by
  intro w
  have hcalls : w.revocations.map (fun call => (call.username, call.answer,
      call.before.userSerials call.username, call.after.crl)) = [("kim", true, [9], [])] := by
    decide +kernel
  refine ⟨hcalls, by unfold Marked; decide +kernel, by decide +kernel, ?_⟩
  intro hall
  have hmem := List.mem_singleton_self ("kim", true, [9], ([] : List ℕ))
  rw [← hcalls] at hmem
  obtain ⟨call, hcall, hfields⟩ := List.mem_map.mp hmem
  simp only [Prod.mk.injEq] at hfields
  obtain ⟨-, htrue, hserials, hcrl⟩ := hfields
  have hrevoked := hall call hcall htrue 9 (by rw [hserials]; exact List.mem_singleton_self 9)
  rw [hcrl] at hrevoked
  cases hrevoked

/-- The deletion of the user, after all its requests. -/
def deletedPool (tak : List Verdict) : Pool Exn (World Settings.small) Response :=
  ((Pool.idle (enrolledWorld tak)).setThread 0
    (Request.deleteUser (Settings.small.numericId "kim")).handler).play (List.replicate 12 0)

/-- With the listing answered, the certificate is revoked before the user is marked. -/
theorem listed_certificate_revoked :
    ((deletedPool []).state.revocations.map fun call => (call.username, call.answer)) =
      [("kim", true)] ∧
    ∀ call ∈ (deletedPool []).state.revocations, call.answer = true →
      (call.Revoked ↔ Covered call.username call.before) := by
  have hruns : Pool.Runs (Serves fun _ => .deleteUser (Settings.small.numericId "kim"))
      Elsewhere (fun _ _ _ => True) (.idle (enrolledWorld [])) (deletedPool []) :=
    .trans (.single (.start 0 rfl rfl))
      (Pool.runs_play (Pool.plays_of_forall (fun _ _ _ => trivial) _ _))
  refine ⟨by decide +kernel, fun call hcall htrue => ?_⟩
  exact ((true_answers_of_run _ rfl hruns).1 call hcall htrue).1

end FastTAK.Api
