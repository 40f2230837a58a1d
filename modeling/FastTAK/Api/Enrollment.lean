import FastTAK.Api.Deeds
import FastTAK.Api.Sequential
import FastTAK.Base.Pool

/-!
# Enrollments beside enrollments

`POST /api/users/{user_id}/enroll` looks up the active tokens of the user and stores a new one
if there is none: two requests to a store that does not mind a second token.  This file watches
any number of enrollments interleave, and shows that they share one token as long as nobody
stores a token that lives between the lookup and the storing of another.
-/

namespace FastTAK.Api

open FastTAK.Effect FastTAK.Effect.Prog FastTAK.Identity FastTAK.Proxy

variable {settings : Settings} {α : Type}

/-! ## Active tokens -/

/-- The tokens of the user that have not expired. -/
def World.active (w : World settings) (username : String) : List TokenRow :=
  getActive username ⌊w.identity.now⌋ w.identity.tokens

theorem mem_active_iff {w : World settings} {username : String} {row : TokenRow} :
    row ∈ w.active username ↔
      row ∈ w.identity.tokens ∧ row.username = username ∧ row.isLive ⌊w.identity.now⌋ := by
  simp [World.active, getActive]

theorem isLive_of_le {now now' : ℤ} {row : TokenRow} (hnow : now ≤ now')
    (hlive : row.isLive now') : row.isLive now := by
  unfold TokenRow.isLive at hlive ⊢
  cases hexpires : row.expiresAt with
  | none => rfl
  | some expiry =>
      rw [hexpires] at hlive
      exact decide_eq_true (hnow.trans_lt (of_decide_eq_true hlive))

/-- The tokens that come into the store with a request. -/
def stored (w w' : World settings) : List TokenRow :=
  w'.identity.tokens.filter fun row => row ∉ w.identity.tokens

theorem mem_stored_iff {w w' : World settings} {row : TokenRow} :
    row ∈ stored w w' ↔ row ∈ w'.identity.tokens ∧ row ∉ w.identity.tokens := by
  simp [stored]

/-! ## Memory -/

/-- What is remembered of a run: for each request the tokens stored since its last lookup. -/
abbrev Since : Type := ℕ → List TokenRow

/-- The state with the memory. -/
abbrev Enrolling (settings : Settings) : Type := World settings × Since

/-- Any request. -/
def noteStored (w w' : World settings) (since : Since) : Since :=
  fun i => since i ++ stored w w'

/-- A lookup of enrollment `i`. -/
def noteLookup (i : ℕ) (w w' : World settings) (since : Since) : Since :=
  fun j => if j = i then [] else since j ++ stored w w'

/-- `get_or_create_enrollment_token` of enrollment `i` with its memory. -/
def recordedToken (i : ℕ) (userId : ℤ) : Prog Exn (Enrolling settings) (String × Option ℤ) := do
  let username ← (identity (requireUsername .users userId)).watch noteStored
  let rows ← (identity (proxyPathRequest username (activeTokens username))).watch (noteLookup i)
  match rows with
  | row :: _ => pure (row.tokenPlain, row.expiresAt)
  | [] => (identity (proxyRequest (createToken username settings.enrollmentTokenTtlMinutes
      settings.enrollmentTokenOneTime))).watch noteStored

/-- Enrollment `i` with its memory. -/
def recordedEnroll (i : ℕ) (userId : ℤ) : Prog Exn (Enrolling settings) Response := do
  let user ← (requireUser userId).watch noteStored
  if ¬ user.isActive then raise (.http 400 "Cannot enroll deactivated user")
  else
    let (token, expiresAt) ← recordedToken i userId
    return .enrollment user.username token expiresAt

/-- The memory does not change what an enrollment does. -/
theorem erases_recordedEnroll (i : ℕ) (userId : ℤ) :
    Erases (recordedEnroll i userId)
      ((Request.enrollUser userId).handler : Handler settings Response) := by
  have htoken : Erases (recordedToken i userId)
      (identity (getOrCreateEnrollmentToken .users userId settings.enrollmentTokenTtlMinutes
        settings.enrollmentTokenOneTime) : Handler settings _) := by
    unfold getOrCreateEnrollmentToken identity recordedToken
    rw [onPart_bind]
    apply erases_bind (erases_watch _ _)
    intro username
    rw [onPart_bind]
    apply erases_bind (erases_watch _ _)
    intro rows
    cases rows with
    | nil => exact erases_watch _ _
    | cons row rows => exact rfl
  apply erases_bind (erases_watch _ _)
  intro user
  dsimp only
  split_ifs
  · exact erases_bind htoken fun _ => rfl
  · exact rfl

/-! ## What the others do -/

/-- What the others do to enrollment `i`: time passes, and a token that comes into the store is
remembered. -/
structure Elapsed (i : ℕ) (t t' : Enrolling settings) : Prop where
  now : t.1.identity.now ≤ t'.1.identity.now
  tokens : ∀ row ∈ t'.1.identity.tokens, row ∈ t.1.identity.tokens ∨ row ∈ t'.2 i
  since : t.2 i ⊆ t'.2 i

instance (i : ℕ) : IsPreorder (Enrolling settings) (Elapsed i) where
  refl _ := ⟨le_refl _, fun _ h => Or.inl h, fun _ h => h⟩
  trans _ _ _ hfirst hsecond := by
    refine ⟨hfirst.now.trans hsecond.now, fun row hrow => ?_,
      fun _ h => hsecond.since (hfirst.since h)⟩
    rcases hsecond.tokens row hrow with hrow | hnew
    · exact (hfirst.tokens row hrow).imp_right fun h => hsecond.since h
    · exact Or.inr hnew

/-- Since the lookup of enrollment `i`, which has found none, every active token of the user has
been remembered. -/
def LookedUp (i : ℕ) (username : String) (t : Enrolling settings) : Prop :=
  ∀ row ∈ t.1.active username, row ∈ t.2 i

theorem LookedUp.elapsed {i : ℕ} {username : String} {t t' : Enrolling settings}
    (hlooked : LookedUp i username t) (helapsed : Elapsed i t t') :
    LookedUp i username t' := by
  intro row hrow
  obtain ⟨hmem, hname, hlive⟩ := mem_active_iff.mp hrow
  rcases helapsed.tokens row hmem with hold | hnew
  · have hactive : row ∈ t.1.active username :=
      mem_active_iff.mpr ⟨hold, hname, isLive_of_le (Int.floor_le_floor helapsed.now) hlive⟩
    exact helapsed.since (hlooked row hactive)
  · exact hnew

/-- A request of enrollment `i`: it takes no time, tells the others what it stores, and stores
at most one token, for a user of whom it remembers all active ones. -/
structure Enrolls (i : ℕ) (t t' : Enrolling settings) : Prop where
  now : t'.1.identity.now = t.1.identity.now
  stores : t'.1.identity.tokens = t.1.identity.tokens ∨ ∃ row ∉ t.1.identity.tokens,
    t'.1.identity.tokens = row :: t.1.identity.tokens ∧ LookedUp i row.username t
  others : ∀ j ≠ i, t'.2 j = t.2 j ++ stored t.1 t'.1

theorem elapsed_of_remembered {i : ℕ} {t t' : Enrolling settings}
    (hnow : t.1.identity.now ≤ t'.1.identity.now)
    (hsince : t'.2 i = t.2 i ++ stored t.1 t'.1) : Elapsed i t t' where
  now := hnow
  tokens := by
    intro row hrow
    by_cases hold : row ∈ t.1.identity.tokens
    · exact Or.inl hold
    · right
      rw [hsince]
      exact List.mem_append_right _ (mem_stored_iff.mpr ⟨hrow, hold⟩)
  since := by
    rw [hsince]
    exact List.subset_append_left _ _

theorem Enrolls.elapsed {i j : ℕ} {t t' : Enrolling settings} (h : Enrolls i t t')
    (hne : j ≠ i) : Elapsed j t t' :=
  elapsed_of_remembered h.now.ge (h.others j hne)

/-! ## Requests -/

/-- The tokens and the time are the same. -/
structure SameTokens (w w' : World settings) : Prop where
  now : w'.identity.now = w.identity.now
  tokens : w'.identity.tokens = w.identity.tokens

instance : Tolerant (@SameTokens settings) where
  refl _ := ⟨rfl, rfl⟩
  trans _ _ _ hfirst hsecond :=
    ⟨hsecond.now.trans hfirst.now, hsecond.tokens.trans hfirst.tokens⟩
  quiet _ _ hquiet := ⟨hquiet.now, hquiet.tokens⟩

/-- A program that stores nothing. -/
theorem meets_sameTokens {i : ℕ} {P : α → Prop} {p : Handler settings α}
    (hp : Respects SameTokens P p) (t : Enrolling settings) :
    Meets (Elapsed i) (Enrolls i) (fun result _ => ∀ a, result = .ok a → P a)
      (p.watch noteStored) t := by
  have hkeeps : ∀ t t' : Enrolling settings, True → Elapsed i t t' → True :=
    fun _ _ _ _ => trivial
  have hsteps : ∀ t t' : Enrolling settings, True →
      SameTokens t.1 t'.1 ∧ t'.2 = noteStored t.1 t'.1 t.2 → Enrolls i t t' ∧ True := by
    rintro t t' - ⟨hsame, hmemory⟩
    exact ⟨⟨hsame.now, Or.inl hsame.tokens, fun j _ => congrFun hmemory j⟩, trivial⟩
  exact ((hp.watch noteStored).meets_of hkeeps hsteps trivial).mono fun _ _ h => h.1

/-- What an attempt of a request to the proxy may do, every attempt does. -/
theorem respects_attempts {guarId : IdentityState settings → IdentityState settings → Prop}
    {request : IdentityState settings → Option α × IdentityState settings}
    (hasks : ∀ s, guarId s { s with proxy := s.proxy.tail })
    (happlied : ∀ s, guarId s (request { s with proxy := s.proxy.tail }).2) (attempts : ℕ) :
    Respects guarId (fun _ => True) (proxyAttempts request attempts) := by
  have hattempt : Respects guarId (fun _ => True) (atomic (proxyAttempt request)) := by
    apply respects_atomic
    intro s
    refine ⟨?_, fun _ _ => trivial⟩
    unfold proxyAttempt
    cases nextVerdict s.proxy with
    | runs =>
        have hsent := happlied s
        dsimp only
        rcases hrequest : request { s with proxy := s.proxy.tail } with ⟨_ | a, s'⟩
        all_goals rw [hrequest] at hsent
        · exact hsent
        · exact hsent
    | fails applied =>
        dsimp only
        split_ifs
        · exact hasks s
        · exact happlied s
    | raises applied =>
        dsimp only
        split_ifs
        · exact hasks s
        · exact happlied s
  induction attempts with
  | zero => exact respects_raise _
  | succ attempts ih =>
      apply respects_bind hattempt
      intro answer _
      cases answer with
      | none => exact ih
      | some a => exact respects_pure trivial

/-! ## The lookup -/

theorem proxyAttempt_activeTokens (username : String) (s : IdentityState settings) :
    (proxyAttempt (activeTokens username) s).2 = { s with proxy := s.proxy.tail } ∧
      ∀ rows, (proxyAttempt (activeTokens username) s).1 = .ok (some rows) →
        rows = getActive username ⌊s.now⌋ s.tokens := by
  unfold proxyAttempt activeTokens
  cases nextVerdict s.proxy with
  | runs => exact ⟨rfl, fun rows h => (Option.some.inj (Except.ok.inj h)).symm⟩
  | fails applied => exact ⟨ite_self _, fun rows h => by cases h⟩
  | raises applied => exact ⟨ite_self _, fun rows h => by cases h⟩

theorem meets_lookupAttempt (i : ℕ) (username : String) (t : Enrolling settings) :
    Meets (Elapsed i) (Enrolls i)
      (fun result t' => result = .ok (some []) → LookedUp i username t')
      ((identity (atomic (proxyAttempt (activeTokens username)))).watch (noteLookup i)) t := by
  intro t' _
  obtain ⟨hstate, hrows⟩ := proxyAttempt_activeTokens username t'.1.identity
  have hnow : (proxyAttempt (activeTokens username) t'.1.identity).2.now =
      t'.1.identity.now := by
    rw [hstate]
  have htokens : (proxyAttempt (activeTokens username) t'.1.identity).2.tokens =
      t'.1.identity.tokens := by
    rw [hstate]
  refine ⟨⟨hnow, Or.inl htokens, fun j hne => if_neg hne⟩, ?_⟩
  intro t'' helapsed hresult
  refine LookedUp.elapsed ?_ helapsed
  have hnone : t'.1.active username = [] := (hrows [] hresult).symm
  intro row hrow
  have hactive : row ∈ t'.1.active username := by
    obtain ⟨hmem, hname, hlive⟩ := mem_active_iff.mp hrow
    refine mem_active_iff.mpr ⟨?_, hname, ?_⟩
    · rw [← htokens]
      exact hmem
    · rw [← hnow]
      exact hlive
  rw [hnone] at hactive
  cases hactive

theorem identity_bind {β : Type} (program : IdProg settings α) (next : α → IdProg settings β) :
    identity (program >>= next) = identity program >>= fun a => identity (next a) :=
  onPart_bind program next

theorem meets_lookup (i : ℕ) (username : String) (t : Enrolling settings) :
    Meets (Elapsed i) (Enrolls i) (fun result t' => result = .ok [] → LookedUp i username t')
      ((identity (proxyPathRequest username (activeTokens username))).watch (noteLookup i))
      t := by
  have hattempts : ∀ attempts (t : Enrolling settings),
      Meets (Elapsed i) (Enrolls i)
        (fun result t' => result = .ok [] → LookedUp i username t')
        ((identity (proxyAttempts (activeTokens username) attempts)).watch
          (noteLookup i)) t := by
    intro attempts
    induction attempts with
    | zero =>
        intro t t' _ hnever
        cases hnever
    | succ attempts ih =>
        intro t
        rw [proxyAttempts, identity_bind, watch_bind]
        apply meets_bind
        refine (meets_lookupAttempt i username t).mono fun result t' hlooked => ?_
        cases result with
        | error e =>
            intro hnever
            cases hnever
        | ok answer =>
            cases answer with
            | none => exact ih t'
            | some rows =>
                intro t'' helapsed hnil
                have hrows : rows = [] := Except.ok.inj hnil
                exact (hlooked (by rw [hrows])).elapsed helapsed
  unfold proxyPathRequest
  split_ifs
  · intro t' _ hnever
    cases hnever
  · exact hattempts 3 t

/-! ## The storing -/

/-- At most one token is stored, for the user. -/
structure StoresFor (username : String) (s s' : IdentityState settings) : Prop where
  now : s'.now = s.now
  tokens : s'.tokens = s.tokens ∨
    ∃ row ∉ s.tokens, row.username = username ∧ s'.tokens = row :: s.tokens

theorem id_le_foldr {row : TokenRow} {rows : List TokenRow} (hrow : row ∈ rows) :
    row.id ≤ (rows.map TokenRow.id).foldr max 0 := by
  induction rows with
  | nil => cases hrow
  | cons first rows ih =>
      rw [List.map_cons, List.foldr_cons]
      rcases List.mem_cons.mp hrow with rfl | hrow
      · exact le_max_left _ _
      · exact (ih hrow).trans (le_max_right _ _)

/-- `Create` stores the token it answers with, under a new id. -/
theorem createToken_stores {username : String} {ttlMinutes : ℤ} {oneTime : Bool}
    {s : IdentityState settings} {token : String} {expiresAt : Option ℤ}
    (hcreate : (createToken username ttlMinutes oneTime s).1 = some (token, expiresAt)) :
    ∃ row ∉ s.tokens, row.username = username ∧ row.tokenPlain = token ∧
      (createToken username ttlMinutes oneTime s).2.tokens = row :: s.tokens := by
  unfold createToken at hcreate ⊢
  split_ifs at hcreate ⊢ with hblank
  obtain ⟨rfl, -⟩ := Prod.mk.inj (Option.some.inj hcreate)
  refine ⟨_, fun hmem => ?_, rfl, rfl, rfl⟩
  have hle := id_le_foldr hmem
  dsimp only at hle
  omega

theorem storesFor_createToken (username : String) (ttlMinutes : ℤ) (oneTime : Bool)
    (s : IdentityState settings) :
    StoresFor username s (createToken username ttlMinutes oneTime s).2 := by
  cases hcreate : (createToken username ttlMinutes oneTime s).1 with
  | none =>
      unfold createToken at hcreate ⊢
      split_ifs at hcreate ⊢
      exact ⟨rfl, Or.inl rfl⟩
  | some answer =>
      obtain ⟨row, hnew, hname, -, htokens⟩ := createToken_stores hcreate
      refine ⟨?_, Or.inr ⟨row, hnew, hname, htokens⟩⟩
      unfold createToken
      split_ifs <;> rfl

/-- After a lookup that found none, the storing of a token, with its retries. -/
theorem meets_create {i : ℕ} {username : String} {ttlMinutes : ℤ} {oneTime : Bool}
    {t : Enrolling settings} (hlooked : LookedUp i username t) :
    Meets (Elapsed i) (Enrolls i) (fun _ _ => True)
      ((identity (proxyRequest (createToken username ttlMinutes oneTime))).watch noteStored)
      t := by
  have hid : Respects (StoresFor username) (fun _ => True)
      (proxyRequest (createToken username ttlMinutes oneTime) : IdProg settings _) := by
    apply respects_attempts (fun _ => ⟨rfl, Or.inl rfl⟩)
    intro s
    have hstores := storesFor_createToken username ttlMinutes oneTime
      { s with proxy := s.proxy.tail }
    exact ⟨hstores.now, hstores.tokens⟩
  have hworld : Respects (fun w w' : World settings => StoresFor username w.identity w'.identity)
      (fun _ => True) (identity (proxyRequest (createToken username ttlMinutes oneTime))) :=
    hid.onPart fun _ _ h => h
  have hsteps : ∀ t t' : Enrolling settings, LookedUp i username t →
      StoresFor username t.1.identity t'.1.identity ∧ t'.2 = noteStored t.1 t'.1 t.2 →
      Enrolls i t t' ∧ LookedUp i username t' := by
    rintro t t' hlooked ⟨hstores, hmemory⟩
    have helapsed : Elapsed i t t' :=
      elapsed_of_remembered hstores.now.ge (congrFun hmemory i)
    refine ⟨⟨hstores.now, ?_, fun j _ => congrFun hmemory j⟩, hlooked.elapsed helapsed⟩
    rcases hstores.tokens with hsame | ⟨row, hnew, rfl, htokens⟩
    · exact Or.inl hsame
    · exact Or.inr ⟨row, hnew, htokens, hlooked⟩
  exact ((hworld.watch noteStored).meets_of (fun _ _ h helapsed => h.elapsed helapsed) hsteps
    hlooked).mono fun _ _ _ => trivial

/-! ## Enrollments among others -/

theorem meets_recordedToken (i : ℕ) (userId : ℤ) (t : Enrolling settings) :
    Meets (Elapsed i) (Enrolls i) (fun _ _ => True) (recordedToken i userId) t := by
  have hname : Respects SameTokens (fun username => settings.numericId username = userId)
      (identity (requireUsername .users userId) : Handler settings String) :=
    quiet_identity (respects_requireUsername .users userId)
  apply meets_bind
  refine (meets_sameTokens hname t).mono fun result t₁ _ => ?_
  cases result with
  | error e => trivial
  | ok username =>
      apply meets_bind
      refine (meets_lookup i username t₁).mono fun result t₂ hlooked => ?_
      cases result with
      | error e => trivial
      | ok rows =>
          cases rows with
          | nil => exact meets_create (hlooked rfl)
          | cons row rows => exact meets_pure fun _ _ => trivial

theorem meets_recordedEnroll (i : ℕ) (userId : ℤ) (t : Enrolling settings) :
    Meets (Elapsed i) (Enrolls i) (fun _ _ => True) (recordedEnroll i userId) t := by
  apply meets_bind
  refine (meets_sameTokens (quiet_requireUser userId) t).mono fun result t₁ _ => ?_
  cases result with
  | error e => trivial
  | ok user =>
      dsimp only
      split_ifs
      · apply meets_bind
        refine (meets_recordedToken i userId t₁).mono fun result t₂ _ => ?_
        cases result with
        | error e => trivial
        | ok token => exact meets_pure fun _ _ => trivial
      · exact fun _ _ => trivial

/-! ## Where a token comes from -/

theorem proxyAttempts_ne_done
    (request : IdentityState settings → Option α × IdentityState settings) (attempts : ℕ)
    (a : α) : proxyAttempts request attempts ≠ done (.ok a) := by
  intro h
  cases attempts with
  | zero => cases h
  | succ attempts => cases h

/-- The attempt that is answered is the last one. -/
theorem concludes_proxyAttempts
    {request : IdentityState settings → Option α × IdentityState settings}
    {ends : IdentityState settings → IdentityState settings → α → Prop}
    (hrequest : ∀ s a, (request { s with proxy := s.proxy.tail }).1 = some a →
      ends s (request { s with proxy := s.proxy.tail }).2 a) (attempts : ℕ) :
    Concludes ends (proxyAttempts request attempts) := by
  have hattempt : Concludes (fun s s' answer => ∀ a, answer = some a → ends s s' a)
      (atomic (proxyAttempt request)) := by
    apply concludes_atomic
    rintro s answer hanswer a rfl
    unfold proxyAttempt at hanswer ⊢
    cases hverdict : nextVerdict s.proxy with
    | runs =>
        have hends := hrequest s a
        rw [hverdict] at hanswer
        dsimp only at hanswer ⊢
        rcases hrun : request { s with proxy := s.proxy.tail } with ⟨_ | b, s'⟩
        all_goals rw [hrun] at hanswer hends
        · cases hanswer
        · exact hends (Except.ok.inj hanswer)
    | fails applied =>
        rw [hverdict] at hanswer
        cases hanswer
    | raises applied =>
        rw [hverdict] at hanswer
        cases hanswer
  induction attempts with
  | zero => trivial
  | succ attempts ih =>
      refine concludes_bind (hattempt.mono fun s s' answer hends a hnext => ?_)
        (respects_true _) ?_
      · cases answer with
        | none => exact absurd hnext (proxyAttempts_ne_done request attempts a)
        | some b => exact hends a (by cases hnext; rfl)
      · intro answer _
        cases answer with
        | none => exact ih
        | some b => trivial

/-- With its last request, an enrollment finds or stores a token of the user. -/
def Obtains (userId : ℤ) (t t' : Enrolling settings) (token : String) : Prop :=
  ∃ row ∈ t'.1.identity.tokens, row.tokenPlain = token ∧
    settings.numericId row.username = userId ∧
    (row ∈ t.1.active row.username ∨ row ∉ t.1.identity.tokens)

theorem concludes_lookup (i : ℕ) (username : String) :
    Concludes (fun t t' rows => rows = t.1.active username ∧
        t'.1.identity.tokens = t.1.identity.tokens)
      ((identity (proxyPathRequest username (activeTokens username)) :
        Handler settings _).watch (noteLookup i)) := by
  have hid : Concludes (fun s s' rows => rows = getActive username ⌊s.now⌋ s.tokens ∧
      s'.tokens = s.tokens)
      (proxyPathRequest username (activeTokens username) : IdProg settings _) := by
    unfold proxyPathRequest
    split_ifs
    · trivial
    · apply concludes_proxyAttempts
      intro s rows hrows
      exact ⟨(Option.some.inj hrows).symm, rfl⟩
  have hworld : Concludes (fun w w' rows => rows = World.active w username ∧
      w'.identity.tokens = w.identity.tokens)
      (identity (proxyPathRequest username (activeTokens username)) : Handler settings _) :=
    hid.onPart fun _ _ _ h => h
  exact hworld.watch (noteLookup i)

theorem concludes_create {userId : ℤ} {username : String}
    (hname : settings.numericId username = userId) (ttlMinutes : ℤ) (oneTime : Bool) :
    Concludes (fun t t' answer => Obtains userId t t' answer.1)
      ((identity (proxyRequest (createToken username ttlMinutes oneTime)) :
        Handler settings _).watch noteStored) := by
  have hid : Concludes (fun s s' answer => ∃ row ∉ s.tokens, row.username = username ∧
      row.tokenPlain = answer.1 ∧ s'.tokens = row :: s.tokens)
      (proxyRequest (createToken username ttlMinutes oneTime) : IdProg settings _) := by
    apply concludes_proxyAttempts
    intro s answer hanswer
    exact createToken_stores hanswer
  have hworld : Concludes (fun w w' answer => ∃ row ∉ w.identity.tokens,
      row.username = username ∧ row.tokenPlain = answer.1 ∧
      w'.identity.tokens = row :: w.identity.tokens)
      (identity (proxyRequest (createToken username ttlMinutes oneTime)) :
        Handler settings _) := hid.onPart fun _ _ _ h => h
  refine (hworld.watch noteStored).mono ?_
  rintro t t' answer ⟨row, hnew, rfl, htoken, htokens⟩
  refine ⟨row, ?_, htoken, hname, Or.inr hnew⟩
  rw [htokens]
  exact List.mem_cons_self

theorem concludes_recordedToken (i : ℕ) (userId : ℤ) :
    Concludes (fun t t' answer => Obtains userId t t' answer.1)
      (recordedToken i userId : Prog Exn (Enrolling settings) _) := by
  have hname : Respects (fun _ _ => True) (fun username => settings.numericId username = userId)
      ((identity (requireUsername .users userId) : Handler settings String).watch
        noteStored) := by
    have hquiet : Respects SameTokens (fun username => settings.numericId username = userId)
        (identity (requireUsername .users userId) : Handler settings String) :=
      quiet_identity (respects_requireUsername .users userId)
    exact (hquiet.watch noteStored).mono (fun _ _ _ => trivial) fun _ h => h
  have hlookup : ∀ (username : String) (rows : List TokenRow),
      ((identity (proxyPathRequest username (activeTokens username)) :
        Handler settings _).watch (noteLookup i)) ≠ done (.ok rows) := by
    intro username rows h
    have hid := onPart_eq_done (watch_eq_done h)
    unfold proxyPathRequest at hid
    split_ifs at hid
    · cases hid
    · exact proxyAttempts_ne_done _ _ _ hid
  refine concludes_bind (concludes_of_forall ?_ _) hname ?_
  · intro t t' username answer hnext
    obtain ⟨rows, hrows, -⟩ := bind_eq_done hnext
    exact absurd hrows (hlookup username rows)
  · intro username hname
    refine concludes_bind ((concludes_lookup i username).mono ?_) (respects_true _) ?_
    · rintro t t' rows ⟨hrows, htokens⟩ answer hnext
      cases rows with
      | nil =>
          have hid := onPart_eq_done (watch_eq_done hnext)
          exact absurd hid (proxyAttempts_ne_done _ _ _)
      | cons row rows =>
          cases hnext
          have hactive : row ∈ t.1.active username := by
            rw [← hrows]
            exact List.mem_cons_self
          obtain ⟨hmem, rfl, -⟩ := mem_active_iff.mp hactive
          refine ⟨row, ?_, rfl, hname, Or.inl hactive⟩
          rw [htokens]
          exact hmem
    · intro rows _
      cases rows with
      | nil => exact concludes_create hname _ _
      | cons row rows => trivial

theorem recordedToken_ne_done (i : ℕ) (userId : ℤ) (answer : String × Option ℤ) :
    (recordedToken i userId : Prog Exn (Enrolling settings) _) ≠ done (.ok answer) := by
  intro h
  obtain ⟨username, hname, -⟩ := bind_eq_done h
  obtain ⟨found, hfound, -⟩ := bind_eq_done (onPart_eq_done (watch_eq_done hname))
  obtain ⟨known, hknown, -⟩ := bind_eq_done hfound
  cases hknown

/-- The token of an answer is the one found or stored last. -/
theorem concludes_recordedEnroll (i : ℕ) (userId : ℤ) :
    Concludes (fun t t' response => ∀ name token expiresAt,
        response = .enrollment name token expiresAt → Obtains userId t t' token)
      (recordedEnroll i userId : Prog Exn (Enrolling settings) Response) := by
  refine concludes_bind (concludes_of_forall ?_ _) (respects_true _) ?_
  · intro t t' user response hnext
    dsimp only at hnext
    split_ifs at hnext
    · obtain ⟨answer, hanswer, -⟩ := bind_eq_done hnext
      exact absurd hanswer (recordedToken_ne_done i userId answer)
    · cases hnext
  · intro user _
    dsimp only
    split_ifs
    · refine concludes_bind ((concludes_recordedToken i userId).mono ?_) (respects_true _)
        fun _ _ => trivial
      intro t t' answer hobtains response hnext name token expiresAt henrollment
      cases hnext
      obtain ⟨-, rfl, -⟩ := Response.enrollment.inj henrollment
      exact hobtains
    · trivial

/-! ## Interleavings -/

/-- The enrollments that may run. -/
def EnrollsAs (userIds : ℕ → ℤ) (i : ℕ) (p : Prog Exn (Enrolling settings) Response) : Prop :=
  p = recordedEnroll i (userIds i)

/-- Time passes, and tokens are used or deleted. -/
structure TokensLeave (t t' : Enrolling settings) : Prop where
  now : t.1.identity.now ≤ t'.1.identity.now
  tokens : t'.1.identity.tokens.Sublist t.1.identity.tokens
  memory : t'.2 = t.2

/-- Whoever stores a token for the user has seen no other one stored since the lookup that is
still active. -/
def StoresAlone (username : String) (i : ℕ) (t t' : Enrolling settings) : Prop :=
  ∀ row ∈ stored t.1 t'.1, row.username = username → ∀ old ∈ t.2 i, old ∉ t.1.active username

instance (username : String) (i : ℕ) (t t' : Enrolling settings) :
    Decidable (StoresAlone username i t t') :=
  inferInstanceAs (Decidable (∀ row ∈ stored t.1 t'.1, row.username = username →
    ∀ old ∈ t.2 i, old ∉ t.1.active username))

/-- The user has at most one active token. -/
def OneActive (username : String) (t : Enrolling settings) : Prop :=
  (t.1.active username).length ≤ 1

theorem cooperates_recordedEnroll (userIds : ℕ → ℤ) :
    Pool.Cooperates (fun _ _ => True) Elapsed Enrolls (@EnrollsAs settings userIds)
      TokensLeave where
  starts := by
    rintro i p rfl t _
    exact meets_recordedEnroll i (userIds i) t
  fresh := fun _ _ _ _ _ => trivial
  env := fun i t t' hleave => {
    now := hleave.now
    tokens := fun _ h => Or.inl (hleave.tokens.subset h)
    since := by rw [hleave.memory]; exact fun _ h => h }
  others := fun _ _ hne _ _ henrolls => henrolls.elapsed hne.symm

theorem TokensLeave.oneActive {username : String} {t t' : Enrolling settings}
    (hleave : TokensLeave t t') (hone : OneActive username t) : OneActive username t' := by
  have hfiltered := hleave.tokens.filter fun row =>
    row.username == username && row.isLive ⌊t'.1.identity.now⌋
  have hearlier : (t.1.identity.tokens.filter fun row =>
      row.username == username && row.isLive ⌊t'.1.identity.now⌋).Sublist
      (t.1.active username) := by
    apply List.monotone_filter_right
    intro row hrow
    rw [Bool.and_eq_true] at hrow ⊢
    exact ⟨hrow.1, isLive_of_le (Int.floor_le_floor hleave.now) hrow.2⟩
  exact (hfiltered.trans hearlier).length_le.trans hone

/-- A token that is stored alone finds no other one active. -/
theorem Enrolls.active_eq_nil {i : ℕ} {username : String} {t t' : Enrolling settings}
    (henrolls : Enrolls i t t') (halone : StoresAlone username i t t') {row : TokenRow}
    (hrow : row ∈ t'.1.identity.tokens) (hnew : row ∉ t.1.identity.tokens)
    (hname : row.username = username) : t.1.active username = [] := by
  rcases henrolls.stores with hsame | ⟨row', -, htokens, hlooked⟩
  · rw [hsame] at hrow
    exact absurd hrow hnew
  · rw [htokens] at hrow
    obtain rfl : row = row' := (List.mem_cons.mp hrow).resolve_right hnew
    rw [hname] at hlooked
    apply List.eq_nil_iff_forall_not_mem.mpr
    intro old hold
    have hstored : row ∈ stored t.1 t'.1 := by
      rw [mem_stored_iff, htokens]
      exact ⟨List.mem_cons_self, hnew⟩
    exact halone row hstored hname old (hlooked old hold) hold

theorem Enrolls.oneActive {i : ℕ} {username : String} {t t' : Enrolling settings}
    (henrolls : Enrolls i t t') (halone : StoresAlone username i t t')
    (hone : OneActive username t) : OneActive username t' := by
  have hactive : t'.1.active username =
      getActive username ⌊t.1.identity.now⌋ t'.1.identity.tokens := by
    rw [World.active, henrolls.now]
  rw [OneActive, hactive]
  rcases henrolls.stores with hsame | ⟨row, hnew, htokens, -⟩
  · rw [hsame]
    exact hone
  · have hmem : row ∈ t'.1.identity.tokens := by
      rw [htokens]
      exact List.mem_cons_self
    rw [htokens, getActive, List.filter_cons]
    split_ifs with hlive
    · rw [Bool.and_eq_true, beq_iff_eq] at hlive
      have hnil := henrolls.active_eq_nil halone hmem hnew hlive.1
      rw [World.active, getActive] at hnil
      rw [hnil]
      exact le_refl 1
    · exact hone

/-- The last request of the program finds or stores the token it answers with. -/
def ObtainsLast (userIds : ℕ → ℤ) (i : ℕ) (p : Prog Exn (Enrolling settings) Response) : Prop :=
  Concludes (fun t t' response => ∀ name token expiresAt,
    response = .enrollment name token expiresAt → Obtains (userIds i) t t' token) p

theorem obtainsLast_of_runs {userIds : ℕ → ℤ} {username : String} {t : Enrolling settings}
    {pool : Pool Exn (Enrolling settings) Response}
    (hruns : Pool.Runs (EnrollsAs userIds) TokensLeave (StoresAlone username) (.idle t) pool)
    {i : ℕ} {p : Prog Exn (Enrolling settings) Response}
    (hthread : pool.threads i = some p) : ObtainsLast userIds i p := by
  have hstarts : ∀ i p, EnrollsAs userIds i p → @ObtainsLast settings userIds i p := by
    rintro i p rfl
    exact concludes_recordedEnroll i (userIds i)
  have hrest : ∀ i effect rest, @ObtainsLast settings userIds i (.act effect rest) →
      ∀ t, ObtainsLast userIds i (rest t) := fun _ _ _ hp t => (hp t).2
  exact Pool.threads_of_runs hstarts hrest hruns hthread

theorem eq_of_length_le_one {l : List α} (hone : l.length ≤ 1) {a b : α} (ha : a ∈ l)
    (hb : b ∈ l) : a = b := by
  rcases l with - | ⟨c, - | ⟨d, l⟩⟩
  · cases ha
  · rw [List.mem_singleton.mp ha, List.mem_singleton.mp hb]
  · simp only [List.length_cons] at hone
    omega

/-- **One token.**  However any number of enrollments interleave, while time passes and tokens
are used or deleted: if nobody stores a token for the user beside one stored since the lookup
that is still active, then the user has at most one active token at every moment, and an
enrollment that obtains a token while one is active obtains that one. -/
theorem one_token_of_run (userIds : ℕ → ℤ) {username : String} {w : World settings}
    (hstart : OneActive username (w, fun _ => []))
    {pool : Pool Exn (Enrolling settings) Response}
    (hruns : Pool.Runs (EnrollsAs userIds) TokensLeave (StoresAlone username)
      (.idle (w, fun _ => [])) pool) :
    OneActive username pool.state ∧
    ∀ i effect rest name token expiresAt, pool.threads i = some (.act effect rest) →
      StoresAlone username i pool.state (effect pool.state) →
      rest pool.state = .done (.ok (.enrollment name token expiresAt)) →
      ∃ row ∈ (effect pool.state).1.identity.tokens, row.tokenPlain = token ∧
        settings.numericId row.username = userIds i ∧
        (row.username = username → ∀ old ∈ pool.state.1.active username, old = row) := by
  obtain ⟨hone, hmeets⟩ := Pool.runs_invariant (cooperates_recordedEnroll userIds)
    (fun _ _ hone hleave => hleave.oneActive hone)
    (fun _ _ _ hone henrolls halone => henrolls.oneActive halone hone)
    hstart (fun _ => trivial) hruns
  refine ⟨hone, ?_⟩
  intro i effect rest name token expiresAt hthread halone hlast
  have henrolls := (hmeets.started i _ hthread _ (refl_of (Elapsed i) _)).1
  have hobtains := obtainsLast_of_runs hruns hthread
  obtain ⟨row, hrow, htoken, hid, hfrom⟩ :=
    (hobtains pool.state).1 _ hlast name token expiresAt rfl
  refine ⟨row, hrow, htoken, hid, ?_⟩
  rintro rfl old hold
  rcases hfrom with hactive | hnew
  · exact eq_of_length_le_one hone hold hactive
  · rw [henrolls.active_eq_nil halone hrow hnew rfl] at hold
    cases hold

/-- The service with the user "kim", who has no token. -/
def enrollWorld : World Settings.small where
  identity := .start (Directory.createUser "kim" "Kim" .empty).2 1000
  pki := .empty
  revocations := []

/-- Two enrollments of the user have started. -/
def enrollPool : Pool Exn (Enrolling Settings.small) Response :=
  ((Pool.idle (enrollWorld, fun _ => [])).setThread 0
    (recordedEnroll 0 (Settings.small.numericId "kim"))).setThread 1
      (recordedEnroll 1 (Settings.small.numericId "kim"))

theorem runs_enrollPool
    {admits : ℕ → Enrolling Settings.small → Enrolling Settings.small → Prop} :
    Pool.Runs (EnrollsAs fun _ => Settings.small.numericId "kim") TokensLeave admits
      (.idle (enrollWorld, fun _ => [])) enrollPool :=
  .trans (.single (.start 0 rfl rfl)) (.single (.start 1 rfl rfl))

/-- The second enrollment runs between the lookup and the storing of the first one. -/
def crossedPool : Pool Exn (Enrolling Settings.small) Response :=
  enrollPool.play (List.replicate 8 0 ++ List.replicate 12 1 ++ List.replicate 4 0)

/-- Both enrollments succeed, and the user has two active tokens. -/
theorem crossed_enrollments_store_two :
    Pool.Runs (EnrollsAs fun _ => Settings.small.numericId "kim") TokensLeave
      (fun _ _ _ => True) (.idle (enrollWorld, fun _ => [])) crossedPool ∧
    OneActive "kim" (enrollWorld, fun _ => []) ∧
    crossedPool.returned 0 ∧ crossedPool.returned 1 ∧
    (crossedPool.state.1.active "kim").map TokenRow.tokenPlain = ["token-1", "token-0"] ∧
    ¬ OneActive "kim" crossedPool.state := by
  refine ⟨?_, by unfold OneActive; decide +kernel, by decide +kernel, by decide +kernel,
    by decide +kernel, by unfold OneActive; decide +kernel⟩
  exact .trans runs_enrollPool
    (Pool.runs_play (Pool.plays_of_forall (fun _ _ _ => trivial) _ _))

/-- One after the other, the enrollments share a token. -/
theorem enrollments_in_turn_share :
    OneActive "kim" (enrollPool.play (List.replicate 12 0 ++ List.replicate 12 1)).state := by
  have hstart : OneActive "kim" (enrollWorld, fun _ => []) := by
    unfold OneActive
    decide +kernel
  exact (one_token_of_run _ hstart
    (.trans runs_enrollPool (Pool.runs_play (by decide +kernel)))).1

end FastTAK.Api
