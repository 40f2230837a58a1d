import FastTAK.Api.Deeds
import FastTAK.Base.Pool

/-!
# Renewals during a tick

A tick of the scheduler lists the users whose lifetime is over and then turns to them
one by one, while requests to the API go on.  This file watches any number of ticks
and requests interleave, and shows that a tick turns to a user whose lifetime is not
over only where the renewal has come after its listing.
-/

namespace FastTAK.Api

open FastTAK.Effect FastTAK.Effect.Prog FastTAK.Certs FastTAK.Identity

variable {settings : Settings} {α : Type}

/-! ## Lifetimes -/

/-- The expiry that is stored for a user. -/
def World.expiryOf (w : World settings) (username : String) : Option ℤ :=
  (w.identity.directory.attributesOf username).bind Attributes.expires

/-- The expiry is set and not in the future. -/
def isDue (now : ℚ) : Option ℤ → Bool
  | none => false
  | some expires => (expires : ℚ) ≤ now

def World.isDue (w : World settings) (username : String) : Bool :=
  Api.isDue w.identity.now (w.expiryOf username)

theorem isDue_mono {now now' : ℚ} {expires : Option ℤ} (hdue : isDue now expires)
    (hnow : now ≤ now') : isDue now' expires := by
  cases expires with
  | none => exact hdue
  | some expires => exact decide_eq_true ((of_decide_eq_true hdue).trans hnow)

/-- The users whose expiry is cleared or moved into the future. -/
def renewals (w w' : World settings) : List String :=
  (w.identity.directory.accounts.keys ++ w'.identity.directory.accounts.keys).filter
    fun username => w'.expiryOf username != w.expiryOf username && !w'.isDue username

theorem expiryOf_of_notMem {w : World settings} {username : String}
    (hmissing : username ∉ w.identity.directory.accounts.keys) : w.expiryOf username = none := by
  have hnone : w.identity.directory.attributesOf username = none :=
    Directory.attributesOf_eq_none fun hmem => hmissing (AList.mem_keys.mp hmem)
  rw [World.expiryOf, hnone]
  rfl

/-- Any other user keeps the expiry, or has one that is over. -/
theorem expiryOf_of_notMem_renewals {w w' : World settings} {username : String}
    (hrenewals : username ∉ renewals w w') :
    w'.expiryOf username = w.expiryOf username ∨ w'.isDue username := by
  by_contra hneither
  push Not at hneither
  apply hrenewals
  refine List.mem_filter.mpr ⟨?_, by simpa using hneither⟩
  by_contra hmissing
  rw [List.mem_append, not_or] at hmissing
  exact hneither.1 ((expiryOf_of_notMem hmissing.2).trans (expiryOf_of_notMem hmissing.1).symm)

/-! ## Memory -/

/-- A tick turns to a user, who has this expiry at this time. -/
structure Turn where
  tick : ℕ
  username : String
  expires : Option ℤ
  now : ℚ
  deriving DecidableEq

/-- The lifetime of the user is over. -/
def Turn.isDue (turn : Turn) : Bool := Api.isDue turn.now turn.expires

/-- What is remembered of a run: for each tick the users who were renewed since its listing,
and the turns of all ticks. -/
structure TickMemory where
  renewed : ℕ → List String
  turns : List Turn

def TickMemory.empty : TickMemory := ⟨fun _ => [], []⟩

/-- The state with the memory. -/
abbrev Recorded (settings : Settings) : Type := World settings × TickMemory

/-- A request. -/
def note (w w' : World settings) (memory : TickMemory) : TickMemory :=
  { memory with renewed := fun i => memory.renewed i ++ renewals w w' }

/-- A request of tick `i` that lists the users. -/
def noteListing (i : ℕ) (w w' : World settings) (memory : TickMemory) : TickMemory :=
  { memory with renewed := fun j =>
      if j = i then [] else memory.renewed j ++ renewals w w' }

/-- A request of tick `i` for a user: the first one is where the tick turns to the user. -/
def noteTurn (i : ℕ) (username : String) (w w' : World settings) (memory : TickMemory) :
    TickMemory :=
  let noted := note w w' memory
  if memory.turns.any fun turn => turn.tick == i && turn.username == username then noted
  else { noted with
    turns := ⟨i, username, w.expiryOf username, w.identity.now⟩ :: memory.turns }

/-- `get_users_pending_expiry` after its query. -/
def pendingOf (client : Client) (users : List Directory.UserView) :
    IdProg settings (List UserRecord) := do
  let now ← atomic (Call.read IdentityState.now)
  mapList (formatUser client)
    (users.filter fun u => pendingExpiry now (parseAttributes u.attributes))

/-- The listing of tick `i`. -/
def recordedPending (i : ℕ) : Prog Exn (Recorded settings) (List UserRecord) := do
  let users ← (identity (query Directory.users)).watch (noteListing i)
  (identity (pendingOf .scheduler users)).watch note

/-- Tick `i` with its memory. -/
def recordedTick (i : ℕ) : Prog Exn (Recorded settings) Unit := do
  let pending ← tryExcept (fun _ => pure []) (recordedPending i)
  forList (fun user : UserRecord =>
    (expireUser user).watch (noteTurn i user.username)) pending

/-- Program `i` with its memory. -/
def recorded (requests : ℕ → Request) (i : ℕ) : Prog Exn (Recorded settings) Response :=
  match requests i with
  | .checkUserExpiry => do
      recordedTick i
      return .success
  | request => request.handler.watch note

/-- The memory does not change what a request does. -/
theorem erases_recorded (requests : ℕ → Request) (i : ℕ) :
    Erases (recorded requests i) ((requests i).handler : Handler settings Response) := by
  have hpending : Erases (recordedPending i)
      (identity (getUsersPendingExpiry .scheduler) : Handler settings _) := by
    have hsplit : (identity (getUsersPendingExpiry .scheduler) : Handler settings _) =
        identity (query Directory.users) >>= fun users =>
          identity (pendingOf .scheduler users) := onPart_bind _ _
    rw [hsplit]
    exact erases_bind (erases_watch _ _) fun users => erases_watch _ _
  have htick : Erases (recordedTick i) (checkUserExpiry : Handler settings Unit) :=
    erases_bind (erases_tryExcept hpending fun _ => rfl)
      fun pending => erases_forList (fun user => erases_watch _ _) pending
  unfold recorded
  cases requests i with
  | checkUserExpiry => exact erases_bind htick fun _ => rfl
  | _ => exact erases_watch _ _

/-! ## What the others do -/

/-- What the others do to tick `i`: time passes, and who is not renewed keeps the expiry or
has one that is over. -/
structure Passes (i : ℕ) (t t' : Recorded settings) : Prop where
  now : t.1.identity.now ≤ t'.1.identity.now
  renewed : ∀ username ∉ t'.2.renewed i, username ∉ t.2.renewed i ∧
    (t'.1.expiryOf username = t.1.expiryOf username ∨ t'.1.isDue username)

instance (i : ℕ) : IsPreorder (Recorded settings) (Passes i) where
  refl _ := ⟨le_refl _, fun _ h => ⟨h, Or.inl rfl⟩⟩
  trans t t' t'' hfirst hsecond := by
    refine ⟨hfirst.now.trans hsecond.now, fun username h => ?_⟩
    obtain ⟨hmiddle, hlast⟩ := hsecond.renewed username h
    obtain ⟨hbefore, hearlier⟩ := hfirst.renewed username hmiddle
    refine ⟨hbefore, ?_⟩
    rcases hlast with hsame | hdue
    · rcases hearlier with hsame' | hdue'
      · exact Or.inl (hsame.trans hsame')
      · right
        rw [World.isDue, hsame]
        exact isDue_mono hdue' hsecond.now
    · exact Or.inr hdue

theorem passes_of_renewals {i : ℕ} {t t' : Recorded settings}
    (hnow : t.1.identity.now ≤ t'.1.identity.now)
    (hrenewed : t'.2.renewed i = t.2.renewed i ++ renewals t.1 t'.1) : Passes i t t' where
  now := hnow
  renewed := by
    intro username h
    rw [hrenewed, List.mem_append, not_or] at h
    exact ⟨h.1, expiryOf_of_notMem_renewals h.2⟩

/-- Unless the user was renewed since the listing of tick `i`, the lifetime is over. -/
def StillDue (i : ℕ) (username : String) (t : Recorded settings) : Prop :=
  username ∉ t.2.renewed i → t.1.isDue username

theorem StillDue.passes {i : ℕ} {username : String} {t t' : Recorded settings}
    (hdue : StillDue i username t) (hpasses : Passes i t t') : StillDue i username t' := by
  intro h
  obtain ⟨hbefore, hlast⟩ := hpasses.renewed username h
  rcases hlast with hsame | hdue'
  · rw [World.isDue, hsame]
    exact isDue_mono (hdue hbefore) hpasses.now
  · exact hdue'

/-- A request of program `i`: it takes no time, tells the ticks of the others whom it renews,
and if it is where a tick turns to a user, then the lifetime is over or the user was renewed. -/
structure Notes (i : ℕ) (t t' : Recorded settings) : Prop where
  now : t'.1.identity.now = t.1.identity.now
  renewed : ∀ j ≠ i, t'.2.renewed j = t.2.renewed j ++ renewals t.1 t'.1
  turns : ∀ turn ∈ t'.2.turns, turn ∈ t.2.turns ∨
    turn.tick = i ∧ (turn.username ∉ t.2.renewed i → turn.isDue)

theorem notes_of_note {i : ℕ} {t t' : Recorded settings}
    (hnow : t'.1.identity.now = t.1.identity.now) (hmemory : t'.2 = note t.1 t'.1 t.2) :
    Notes i t t' ∧ Passes i t t' := by
  refine ⟨⟨hnow, ?_, ?_⟩, passes_of_renewals hnow.ge ?_⟩
  · intro j _
    rw [hmemory]
    rfl
  · intro turn hturn
    rw [hmemory] at hturn
    exact Or.inl hturn
  · rw [hmemory]
    rfl

theorem notes_of_noteTurn {i : ℕ} {username : String} {t t' : Recorded settings}
    (hdue : StillDue i username t) (hnow : t'.1.identity.now = t.1.identity.now)
    (hmemory : t'.2 = noteTurn i username t.1 t'.1 t.2) : Notes i t t' ∧ Passes i t t' := by
  have hrenewed : ∀ j, t'.2.renewed j = t.2.renewed j ++ renewals t.1 t'.1 := by
    intro j
    rw [hmemory, noteTurn]
    split_ifs <;> rfl
  refine ⟨⟨hnow, fun j _ => hrenewed j, ?_⟩, passes_of_renewals hnow.ge (hrenewed i)⟩
  intro turn hturn
  rw [hmemory, noteTurn] at hturn
  split_ifs at hturn
  · exact Or.inl hturn
  · rcases List.mem_cons.mp hturn with rfl | hold
    · exact Or.inr ⟨rfl, hdue⟩
    · exact Or.inl hold

/-! ## Requests -/

theorem deed_now {request : Request} {w w' : World settings} (h : Deed request w w') :
    w'.identity.now = w.identity.now := by
  cases h with
  | identity h =>
      cases h with
      | quiet h => exact h.now
      | mutation hm => rfl
      | createToken username =>
          change (createToken username _ _ w.identity).2.now = w.identity.now
          unfold createToken
          split_ifs <;> rfl
      | deleteTokens username => rfl
  | revokes h => rfl
  | revokeAll username =>
      rw [identity_revokeAll]
  | flagCertadmin certId => rfl
  | generates hfor h => rfl

/-- No request of a handler takes time. -/
theorem respects_now {request : Request} {handler : Handler settings α}
    (hdoes : Does request handler) :
    Respects (fun w w' => w'.identity.now = w.identity.now) (fun _ => True) handler := by
  refine hdoes.mono (fun w w' hdeeds => ?_) fun _ _ => trivial
  induction hdeeds with
  | refl => rfl
  | tail _ hlast ih => exact (deed_now hlast).trans ih

/-- A program that is watched by `note` keeps what passing time and requests keep. -/
theorem meets_note {i : ℕ} {P : α → Prop} {handler : Handler settings α}
    (hnow : Respects (fun w w' => w'.identity.now = w.identity.now) P handler)
    {keeps : Recorded settings → Prop} (hkeeps : ∀ t t', keeps t → Passes i t t' → keeps t')
    {t : Recorded settings} (ht : keeps t) :
    Meets (Passes i) (Notes i) (fun result t' => (∀ a, result = .ok a → P a) ∧ keeps t')
      (handler.watch note) t := by
  refine (hnow.watch note).meets_of hkeeps (fun t t' ht h => ?_) ht
  obtain ⟨hnotes, hpasses⟩ := notes_of_note (i := i) h.1 h.2
  exact ⟨hnotes, hkeeps t t' ht hpasses⟩

/-! ## The listing -/

/-- Unless a listed user was renewed since, the expiry is the one listed, or is over. -/
def Listed (i : ℕ) (users : List Directory.UserView) (t : Recorded settings) : Prop :=
  ∀ u ∈ users, u.id ∉ t.2.renewed i →
    t.1.expiryOf u.id = (parseAttributes u.attributes).expires ∨ t.1.isDue u.id

theorem Listed.passes {i : ℕ} {users : List Directory.UserView} {t t' : Recorded settings}
    (hlisted : Listed i users t) (hpasses : Passes i t t') : Listed i users t' := by
  intro u hu h
  obtain ⟨hbefore, hlast⟩ := hpasses.renewed u.id h
  rcases hlast with hsame | hdue
  · rcases hlisted u hu hbefore with hfound | hdue
    · exact Or.inl (hsame.trans hfound)
    · right
      rw [World.isDue, hsame]
      exact isDue_mono hdue hpasses.now
  · exact Or.inr hdue

theorem expiryOf_of_mem_users {w : World settings} {u : Directory.UserView}
    (hu : u ∈ w.identity.directory.users) :
    w.expiryOf u.id = (parseAttributes u.attributes).expires := by
  rw [Directory.mem_users_iff] at hu
  obtain ⟨account, haccount, hview⟩ := Option.map_eq_some_iff.mp hu
  rw [World.expiryOf, Directory.attributesOf, haccount, ← hview]
  rfl

/-- An attempt of a query takes from the queue, and that is all it does. -/
theorem attempt_query (f : Directory → α) (s : IdentityState settings) :
    graphqlAttempt (fun dir => (.data (f dir), dir)) s =
      (match nextVerdict s.lldap with
        | .runs => .ok (some (.data (f s.directory)))
        | .fails _ => .ok none
        | .raises _ => .error .external, withQueue s.lldap.tail s) := by
  unfold graphqlAttempt
  cases nextVerdict s.lldap with
  | runs => rfl
  | fails applied =>
      dsimp only
      split_ifs <;> rfl
  | raises applied =>
      dsimp only
      split_ifs <;> rfl

/-- The listing forgets the renewals before it. -/
theorem meets_listing (i : ℕ) (t : Recorded settings) :
    Meets (Passes i) (Notes i) (fun result t' => ∀ users, result = .ok users → Listed i users t')
      ((identity (query Directory.users)).watch (noteListing i)) t := by
  have hattempts : ∀ attempts (t : Recorded settings), Meets (Passes i) (Notes i)
      (fun result t' => ∀ users, result = .ok users → Listed i users t')
      ((identity (graphqlAttempts (raise .typeError)
        (fun dir : Directory => (.data dir.users, dir)) attempts)).watch (noteListing i)) t := by
    intro attempts
    induction attempts with
    | zero => exact fun t t' _ users h => by cases h
    | succ attempts ih =>
        intro t
        rw [graphqlAttempts, identity, onPart_bind, watch_bind]
        apply meets_bind
        intro t₁ _
        have hsame : (graphqlAttempt (fun dir : Directory => (.data dir.users, dir))
            t₁.1.identity).2 = withQueue t₁.1.identity.lldap.tail t₁.1.identity := by
          rw [attempt_query]
        have hnow : (graphqlAttempt (fun dir : Directory => (.data dir.users, dir))
            t₁.1.identity).2.now = t₁.1.identity.now := by
          rw [hsame]
          rfl
        refine ⟨⟨hnow, fun j hj => if_neg hj, fun _ h => Or.inl h⟩, fun t₂ hpasses => ?_⟩
        -- The directory is as the attempt has found it.
        have hlisted : Listed i t₁.1.identity.directory.users t₂ := by
          refine Listed.passes (fun u hu _ => Or.inl (expiryOf_of_mem_users ?_)) hpasses
          change u ∈ (graphqlAttempt _ t₁.1.identity).2.directory.users
          rw [hsame]
          exact hu
        simp only [attempt_query]
        cases nextVerdict t₁.1.identity.lldap with
        | runs =>
            intro t₃ hpasses' users husers
            obtain rfl := Except.ok.inj husers
            exact hlisted.passes hpasses'
        | fails _ => exact ih t₂
        | raises _ => exact fun users h => by cases h
  exact hattempts 3 t

theorem isDue_of_pendingExpiry {now : ℚ} {attrs : Attributes}
    (hpending : pendingExpiry now attrs) : isDue now attrs.expires := by
  obtain ⟨_ | expires, certsRevoked, isActive, userType⟩ := attrs
  · cases hpending
  · exact (Bool.and_eq_true_iff.mp hpending).2

/-- The users a tick is about to turn to are due, unless they are renewed. -/
theorem meets_pendingOf {i : ℕ} {users : List Directory.UserView} {t : Recorded settings}
    (hlisted : Listed i users t) :
    Meets (Passes i) (Notes i) (fun result t' => ∀ pending, result = .ok pending →
      ∀ user ∈ pending, StillDue i user.username t')
      ((identity (pendingOf .scheduler users)).watch note) t := by
  rw [pendingOf, identity, onPart_bind, watch_bind]
  apply meets_bind
  intro t₁ hpasses
  obtain ⟨hnotes, hkept⟩ : Notes i t₁ (t₁.1, note t₁.1 t₁.1 t₁.2) ∧
      Passes i t₁ (t₁.1, note t₁.1 t₁.1 t₁.2) := notes_of_note rfl rfl
  refine ⟨hnotes, fun t₂ hpasses' => ?_⟩
  dsimp only [Call.read]
  generalize hfound : users.filter (fun u =>
    pendingExpiry t₁.1.identity.now (parseAttributes u.attributes)) = found
  have hdue : ∀ u ∈ found, StillDue i u.id t₂ := by
    intro u hu
    rw [← hfound, List.mem_filter] at hu
    have hfirst : StillDue i u.id t₁ := by
      intro h
      rcases hlisted.passes hpasses u hu.1 h with hsame | hdue
      · rw [World.isDue, hsame]
        exact isDue_of_pendingExpiry hu.2
      · exact hdue
    exact (hfirst.passes hkept).passes hpasses'
  have hformat : Respects Quiet (fun records => ∀ user ∈ records, ∃ u ∈ found,
      user.username = u.id)
      (mapList (formatUser .scheduler) found : IdProg settings (List UserRecord)) := by
    refine respects_mapList _ fun u hu => (respects_formatUser .scheduler u).mono
      (fun _ _ h => h) ?_
    rintro user ⟨-, rfl⟩
    exact ⟨u, hu, rfl⟩
  have hnow : Respects (fun w w' : World settings => w'.identity.now = w.identity.now)
      (fun records => ∀ user ∈ records, ∃ u ∈ found, user.username = u.id)
      (identity (mapList (formatUser .scheduler) found)) :=
    hformat.onPart fun w s h => h.now
  have hkeeps : ∀ t t' : Recorded settings, (∀ u ∈ found, StillDue i u.id t) →
      Passes i t t' → ∀ u ∈ found, StillDue i u.id t' :=
    fun t t' h hpasses u hu => (h u hu).passes hpasses
  refine (meets_note hnow hkeeps hdue).mono ?_
  rintro result t₃ ⟨hrecords, hdue⟩ pending rfl user huser
  obtain ⟨u, hu, hname⟩ := hrecords pending rfl user huser
  rw [hname]
  exact hdue u hu

/-! ## Programs among others -/

theorem meets_recordedPending (i : ℕ) (t : Recorded settings) :
    Meets (Passes i) (Notes i) (fun result t' => ∀ pending, result = .ok pending →
      ∀ user ∈ pending, StillDue i user.username t') (recordedPending i) t := by
  apply meets_bind
  refine (meets_listing i t).mono fun result t' hlisted => ?_
  cases result with
  | error e => exact fun pending h => by cases h
  | ok users => exact meets_pendingOf (hlisted users rfl)

theorem meets_recordedTick (i : ℕ) (t : Recorded settings) :
    Meets (Passes i) (Notes i) (fun _ _ => True) (recordedTick i) t := by
  apply meets_bind
  apply meets_tryExcept
  refine (meets_recordedPending i t).mono fun result t' hpending => ?_
  have hloop : ∀ (pending : List UserRecord) (t : Recorded settings),
      (∀ user ∈ pending, StillDue i user.username t) →
      Meets (Passes i) (Notes i) (fun _ _ => True) (forList (fun user : UserRecord =>
        (expireUser user).watch (noteTurn i user.username)) pending) t := by
    intro pending t hdue
    have hkeeps : ∀ t t' : Recorded settings, (∀ user ∈ pending, StillDue i user.username t) →
        Passes i t t' → ∀ user ∈ pending, StillDue i user.username t' :=
      fun t t' h hpasses user huser => (h user huser).passes hpasses
    refine (meets_forList hkeeps (fun user huser t hdue => ?_) hdue).mono fun _ _ _ => trivial
    have hnow : Respects (fun w w' : World settings => w'.identity.now = w.identity.now)
        (fun _ => True) (expireUser user) :=
      respects_now (respects_expireUser .checkUserExpiry user)
    refine ((hnow.watch _).meets_of hkeeps (fun t t' hdue h => ?_) hdue).mono fun _ _ h => h.2
    obtain ⟨hnotes, hpasses⟩ := notes_of_noteTurn (hdue user huser) h.1 h.2
    exact ⟨hnotes, hkeeps t t' hdue hpasses⟩
  cases result with
  | error e => exact meets_pure fun t'' _ => hloop [] t'' (by simp)
  | ok pending => exact hloop pending t' (hpending pending rfl)

/-- Every program does what the others rely on. -/
theorem meets_recorded (requests : ℕ → Request) (i : ℕ) (t : Recorded settings) :
    Meets (Passes i) (Notes i) (fun _ _ => True) (recorded requests i) t := by
  have hhandler : ∀ request : Request, Meets (Passes i) (Notes i) (fun _ _ => True)
      ((request.handler : Handler settings Response).watch note) t := fun request =>
    (meets_note (respects_now (does_handler request)) (fun _ _ _ _ => trivial) trivial).mono
      fun _ _ _ => trivial
  unfold recorded
  cases requests i with
  | checkUserExpiry =>
      apply meets_bind
      refine (meets_recordedTick i t).mono fun result t' _ => ?_
      cases result with
      | error e => trivial
      | ok _ => exact meets_pure fun _ _ => trivial
  | _ => exact hhandler _

/-! ## Interleavings -/

/-- The programs that may run. -/
def StartsRecorded (requests : ℕ → Request) (i : ℕ)
    (p : Prog Exn (Recorded settings) Response) : Prop :=
  p = recorded requests i

/-- Time passes, and the surroundings do anything that is remembered. -/
def TimePasses (t t' : Recorded settings) : Prop :=
  t.1.identity.now ≤ t'.1.identity.now ∧ t'.2 = note t.1 t'.1 t.2

/-- Where a tick turns to a user, no renewal has come after its listing. -/
def TurnsToUnrenewed (_ : ℕ) (t t' : Recorded settings) : Prop :=
  ∀ turn ∈ t'.2.turns, turn ∉ t.2.turns → turn.username ∉ t.2.renewed turn.tick

instance (i : ℕ) (t t' : Recorded settings) : Decidable (TurnsToUnrenewed i t t') :=
  inferInstanceAs (Decidable (∀ turn ∈ t'.2.turns, turn ∉ t.2.turns →
    turn.username ∉ t.2.renewed turn.tick))

/-- Whenever a tick has turned to a user, the lifetime was over. -/
def TurnsDue (t : Recorded settings) : Prop := ∀ turn ∈ t.2.turns, turn.isDue

instance (t : Recorded settings) : Decidable (TurnsDue t) :=
  inferInstanceAs (Decidable (∀ turn ∈ t.2.turns, turn.isDue))

theorem cooperates_recorded (requests : ℕ → Request) :
    Pool.Cooperates (fun _ _ => True) Passes Notes
      (@StartsRecorded settings requests) TimePasses where
  starts := by
    rintro i p rfl t _
    exact meets_recorded requests i t
  fresh := fun _ _ _ _ _ => trivial
  env := by
    rintro i t t' ⟨hnow, hmemory⟩
    apply passes_of_renewals hnow
    rw [hmemory]
    rfl
  others := fun i j hne t t' hnotes => passes_of_renewals hnotes.now.ge (hnotes.renewed j hne.symm)

/-- **Renewal beats expiry.**  However any number of ticks and requests interleave: as long
as no tick turns to a user who was renewed after its listing, it turns only to users whose
lifetime is over, and so neither deactivates a renewed user nor revokes certificates. -/
theorem turnsDue_of_unrenewed (requests : ℕ → Request) (w : World settings)
    {pool : Pool Exn (Recorded settings) Response}
    (hruns : Pool.Runs (StartsRecorded requests) TimePasses TurnsToUnrenewed
      (.idle (w, .empty)) pool) :
    TurnsDue pool.state := by
  have hstart : TurnsDue (w, TickMemory.empty) := by simp [TurnsDue, TickMemory.empty]
  refine (Pool.runs_invariant (cooperates_recorded requests) ?_ ?_ hstart
    (fun _ => trivial) hruns).1
  · rintro t t' hdue ⟨-, hmemory⟩
    unfold TurnsDue
    rw [hmemory]
    exact hdue
  · intro i t t' hdue hnotes hadmits turn hturn
    by_cases hold : turn ∈ t.2.turns
    · exact hdue turn hold
    · rcases hnotes.turns turn hturn with hold' | ⟨rfl, hnew⟩
      · exact absurd hold' hold
      · exact hnew (hadmits turn hturn hold)

/-- A service at time 1200 with a user whose lifetime is over at 1000, and one certificate. -/
def kimWorld : World Settings.small where
  identity := .start (Directory.updateUser "kim" none
    (buildCustomAttributes ⟨some 1000, some false, none, some "user"⟩)
    (Directory.createUser "kim" "Kim" .empty).2).2 1200
  pki := Pki.empty.writeFile "kim-phone.pem" (.certificate ⟨7, "kim", 365⟩) (.user "kim" "phone")
  revocations := []

/-- Program 0 is a tick, the others renew the user. -/
def tickAndRenewal : ℕ → Request
  | 0 => .checkUserExpiry
  | _ => .updateUser (Settings.small.numericId "kim") ⟨none, none, some (some 24)⟩

/-- Both programs have started. -/
def tickPool : Pool Exn (Recorded Settings.small) Response :=
  ((Pool.idle (kimWorld, .empty)).setThread 0 (recorded tickAndRenewal 0)).setThread 1
    (recorded tickAndRenewal 1)

/-- The tick has listed the users, and then the renewal has run. -/
def renewedPool : Pool Exn (Recorded Settings.small) Response :=
  tickPool.play (0 :: List.replicate 30 1)

theorem runs_tickPool {admits : ℕ → Recorded Settings.small → Recorded Settings.small → Prop} :
    Pool.Runs (StartsRecorded tickAndRenewal) TimePasses admits (.idle (kimWorld, .empty))
      tickPool :=
  .trans (.single (.start 0 rfl rfl)) (.single (.start 1 rfl rfl))

/-- The renewal has completed before the tick turns to the user, who is deactivated all the
same, and the certificate is revoked. -/
theorem renewed_user_deactivated :
    Pool.Runs (StartsRecorded tickAndRenewal) TimePasses (fun _ _ _ => True)
      (.idle (kimWorld, .empty)) (renewedPool.play (List.replicate 30 0)) ∧
    renewedPool.returned 1 ∧ renewedPool.state.2.turns = [] ∧
    renewedPool.state.1.expiryOf "kim" = some 87600 ∧
    renewedPool.state.1.pki.crl = [] ∧
    (renewedPool.play (List.replicate 30 0)).state.1.pki.crl = [7] ∧
    (renewedPool.play (List.replicate 30 0)).state.1.identity.directory.attributesOf "kim" =
      some ⟨some 87600, some true, some false, some "user"⟩ ∧
    ¬ TurnsDue (renewedPool.play (List.replicate 30 0)).state := by
  have hadmits : ∀ (schedule : List ℕ) (pool : Pool Exn (Recorded Settings.small) Response),
      Pool.Plays (fun _ _ _ => True) schedule pool :=
    Pool.plays_of_forall fun _ _ _ => trivial
  refine ⟨?_, by decide +kernel, by decide +kernel, by decide +kernel, by decide +kernel,
    by decide +kernel, by decide +kernel, by decide +kernel⟩
  exact .trans (.trans runs_tickPool (Pool.runs_play (hadmits _ _)))
    (Pool.runs_play (hadmits _ _))

/-- Without the renewal, the tick turns to the user. -/
theorem expired_user_turnsDue :
    (tickPool.play (List.replicate 30 0)).state.2.turns = [⟨0, "kim", some 1000, 1200⟩] ∧
      TurnsDue (tickPool.play (List.replicate 30 0)).state :=
  ⟨by decide +kernel, turnsDue_of_unrenewed tickAndRenewal kimWorld
    (.trans runs_tickPool (Pool.runs_play (by decide +kernel)))⟩

end FastTAK.Api
