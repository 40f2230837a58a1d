import FastTAK.Api.Enrollment
import FastTAK.Proxy.TokenApi

/-!
# Deactivation and the tokens of before

Deleting a user and the expiry check deactivate the account and leave its enrollment tokens in
the store.  This file remembers, beside any interleaving of enrollments, deletions, ticks and
binds, which tokens were minted before the user was deactivated, and shows that none of them is
good for anything if none was active at that moment.
-/

namespace FastTAK.Api

open FastTAK.Effect FastTAK.Effect.Prog FastTAK.Certs FastTAK.Identity FastTAK.Proxy
open FastTAK.Bind FastTAK.Verify

variable {settings : Settings} {α : Type}

/-! ## Memory -/

/-- `is_active`, which an account without the attribute is. -/
def World.isActive (w : World settings) (username : String) : Bool :=
  ((w.identity.directory.attributesOf username).bind Attributes.isActive).getD true

/-- What is remembered of a run: all tokens minted, and those minted for the user before the
deactivation that stands. -/
structure Mint where
  minted : List TokenRow
  barred : List TokenRow

def Mint.empty : Mint := ⟨[], []⟩

/-- The state with the memory. -/
abbrev Minting (settings : Settings) : Type := World settings × Mint

def noteMint (username : String) (w w' : World settings) (mint : Mint) : Mint where
  minted := stored w w' ++ mint.minted
  barred :=
    if w'.isActive username then []
    else if w.isActive username then
      (stored w w' ++ mint.minted).filter fun row => row.username = username
    else mint.barred

/-! ## What programs do to the store -/

/-- The store is the same. -/
structure SameStore (s s' : IdentityState settings) : Prop where
  now : s'.now = s.now
  tokens : s'.tokens = s.tokens
  minted : s'.minted = s.minted

instance : Identity.Tolerant (@SameStore settings) where
  refl _ := ⟨rfl, rfl, rfl⟩
  trans _ _ _ hfirst hsecond := ⟨hsecond.now.trans hfirst.now,
    hsecond.tokens.trans hfirst.tokens, hsecond.minted.trans hfirst.minted⟩
  quiet _ _ hquiet := ⟨hquiet.now, hquiet.tokens, hquiet.minted⟩

/-- The row is the next token that is minted. -/
structure IsNext (s : IdentityState settings) (row : TokenRow) : Prop where
  plain : row.tokenPlain = settings.token s.minted
  hash : row.tokenHash = settings.tokenHash (settings.token s.minted)

/-- A token is minted, and the directory is the same. -/
structure Mints (s s' : IdentityState settings) : Prop where
  now : s'.now = s.now
  directory : s'.directory = s.directory
  row : ∃ row, IsNext s row ∧ s'.tokens = row :: s.tokens
  minted : s'.minted = s.minted + 1

/-- A request of any of the programs. -/
def Handles (w w' : World settings) : Prop :=
  SameStore w.identity w'.identity ∨ Mints w.identity w'.identity

/-- The store is the same all over the service. -/
def KeepsStore (w w' : World settings) : Prop := SameStore w.identity w'.identity

instance : Tolerant (@KeepsStore settings) where
  refl w := refl_of SameStore w.identity
  trans _ _ _ hfirst hsecond := trans_of SameStore hfirst hsecond
  quiet _ _ hquiet := Identity.Tolerant.quiet _ _ hquiet

section Programs

theorem keepsStore_identity {P : α → Prop} {program : IdProg settings α}
    (hprogram : Respects SameStore P program) :
    Respects KeepsStore P (identity program) :=
  hprogram.onPart fun _ _ hsame => hsame

theorem keepsStore_deactivateUser (client : Client) (userId : ℤ) :
    Respects KeepsStore (fun _ => True)
      (identity (deactivateUser client userId) : Handler settings Unit) :=
  keepsStore_identity (respects_deactivateUser fun _ _ _ => ⟨rfl, rfl, rfl⟩)

theorem keepsStore_markCertsRevoked (client : Client) (userId : ℤ) :
    Respects KeepsStore (fun _ => True)
      (identity (markCertsRevoked client userId) : Handler settings Unit) :=
  keepsStore_identity (respects_markCertsRevoked fun _ _ _ _ => ⟨rfl, rfl, rfl⟩)

theorem keepsStore_revokeAll (username : String) :
    Respects KeepsStore (fun _ => True) (revokeAll username : Handler settings Bool) := by
  apply respects_revokeAll_of
  intro w w' hidentity
  rw [KeepsStore, hidentity]
  exact refl_of SameStore w.identity

theorem mints_createToken {username : String} {ttlMinutes : ℤ} {oneTime : Bool}
    (s : IdentityState settings) :
    SameStore s (createToken username ttlMinutes oneTime s).2 ∨
      Mints s (createToken username ttlMinutes oneTime s).2 := by
  unfold createToken
  split_ifs
  · exact Or.inl (refl_of SameStore s)
  · exact Or.inr ⟨rfl, rfl, ⟨_, ⟨rfl, rfl⟩, rfl⟩, rfl⟩

theorem handles_enrollUser (userId : ℤ) :
    Respects Handles (fun _ => True) (Api.enrollUser userId : Handler settings Response) := by
  have hkeeps : ∀ {β : Type} {P : β → Prop} {p : Handler settings β},
      Respects KeepsStore P p → Respects Handles P p :=
    fun hp => hp.mono (fun _ _ hsame => Or.inl hsame) fun _ h => h
  have hcreate : ∀ username : String, Respects Handles (fun _ => True)
      (identity (proxyRequest (createToken username settings.enrollmentTokenTtlMinutes
        settings.enrollmentTokenOneTime)) : Handler settings _) := by
    intro username
    have hid : Respects (fun s s' : IdentityState settings => SameStore s s' ∨ Mints s s')
        (fun _ => True) (proxyRequest (createToken username
          settings.enrollmentTokenTtlMinutes settings.enrollmentTokenOneTime)) := by
      apply respects_attempts (fun _ => Or.inl ⟨rfl, rfl, rfl⟩)
      intro s
      rcases mints_createToken { s with proxy := s.proxy.tail } with hsame | hmints
      · exact Or.inl ⟨hsame.now, hsame.tokens, hsame.minted⟩
      · obtain ⟨row, hnext, htokens⟩ := hmints.row
        exact Or.inr ⟨hmints.now, hmints.directory, ⟨row, ⟨hnext.plain, hnext.hash⟩, htokens⟩,
          hmints.minted⟩
    exact hid.onPart fun _ _ h => h
  have htoken : Respects Handles (fun _ => True)
      (identity (getOrCreateEnrollmentToken .users userId settings.enrollmentTokenTtlMinutes
        settings.enrollmentTokenOneTime) : Handler settings _) := by
    rw [getOrCreateEnrollmentToken, identity_bind]
    apply respects_bind (hkeeps (keepsStore_identity (respects_requireUsername .users userId)))
    intro username _
    rw [identity_bind]
    have hlookup : Respects SameStore (fun _ => True)
        (proxyPathRequest username (activeTokens username) : IdProg settings _) :=
      respects_proxyPathRequest (fun s => refl_of SameStore s) fun _ _ _ => trivial
    apply respects_bind (hkeeps (keepsStore_identity hlookup))
    intro rows _
    cases rows with
    | nil => exact hcreate username
    | cons row rows => exact respects_pure trivial
  apply respects_bind (hkeeps (quiet_requireUser userId))
  intro user _
  dsimp only
  split_ifs
  · exact respects_bind htoken fun _ _ => respects_pure trivial
  · exact respects_raise _

end Programs

/-! ## Interleavings -/

/-- Enrollments, deletions and ticks. -/
def Request.enrollsOrEnds : Request → Bool
  | .enrollUser _ | .deleteUser _ | .checkUserExpiry => true
  | _ => false

theorem handles_handler {request : Request} (hrequest : request.enrollsOrEnds) :
    Respects Handles (fun _ => True) (request.handler : Handler settings Response) := by
  have hkeeps : ∀ {p : Handler settings Response},
      Respects KeepsStore (fun _ => True) p → Respects Handles (fun _ => True) p :=
    fun hp => hp.mono (fun _ _ hsame => Or.inl hsame) fun _ h => h
  cases request with
  | enrollUser userId => exact handles_enrollUser userId
  | deleteUser userId =>
      exact hkeeps (respects_deleteUser_of keepsStore_deactivateUser keepsStore_markCertsRevoked
        keepsStore_revokeAll userId)
  | checkUserExpiry =>
      exact hkeeps (respects_bind (respects_checkUserExpiry_of keepsStore_deactivateUser
        keepsStore_markCertsRevoked keepsStore_revokeAll) fun _ _ => respects_pure trivial)
  | _ => cases hrequest

/-- The programs that may run, with the memory. -/
def Remembers (username : String) (requests : ℕ → Request) (i : ℕ)
    (p : Prog Exn (Minting settings) Response) : Prop :=
  (requests i).enrollsOrEnds ∧ p = (requests i).handler.watch (noteMint username)

/-- Time passes, tokens are used or deleted, and the directory changes but for deactivating the
user. -/
structure Surrounds (username : String) (t t' : Minting settings) : Prop where
  now : t.1.identity.now ≤ t'.1.identity.now
  tokens : t'.1.identity.tokens ⊆ t.1.identity.tokens
  minted : t'.1.identity.minted = t.1.identity.minted
  active : t.1.isActive username → t'.1.isActive username
  memory : t'.2 = noteMint username t.1 t'.1 t.2

/-- Where the user is deactivated, there is no active token. -/
def EndsUntokened (username : String) (_ : ℕ) (t t' : Minting settings) : Prop :=
  t.1.isActive username → ¬ t'.1.isActive username → t.1.active username = []

instance (username : String) (i : ℕ) (t t' : Minting settings) :
    Decidable (EndsUntokened username i t t') :=
  inferInstanceAs (Decidable (t.1.isActive username → ¬ t'.1.isActive username →
    t.1.active username = []))

/-- The tokens are the ones remembered, no two of which have a hash in common, and none of those
of before the deactivation is active. -/
structure Barred (username : String) (t : Minting settings) : Prop where
  plain : ∀ row ∈ t.2.minted, ∃ n < t.1.identity.minted,
    row.tokenPlain = settings.token n ∧ row.tokenHash = settings.tokenHash (settings.token n)
  distinct : ∀ row ∈ t.2.minted, ∀ other ∈ t.2.minted,
    row.tokenHash = other.tokenHash → row = other
  known : t.1.identity.tokens ⊆ t.2.minted
  barred : ∀ row ∈ t.2.barred, row ∈ t.2.minted ∧ row.username = username ∧
    row ∉ t.1.active username

theorem stored_of_subset {w w' : World settings}
    (hsubset : w'.identity.tokens ⊆ w.identity.tokens) : stored w w' = [] := by
  rw [stored, List.filter_eq_nil_iff]
  intro row hrow
  simpa using hsubset hrow

theorem active_subset {w w' : World settings} (hnow : w.identity.now ≤ w'.identity.now)
    (hsubset : w'.identity.tokens ⊆ w.identity.tokens) (username : String) :
    w'.active username ⊆ w.active username := by
  intro row hrow
  obtain ⟨hmem, hname, hlive⟩ := mem_active_iff.mp hrow
  exact mem_active_iff.mpr ⟨hsubset hmem, hname, isLive_of_le (Int.floor_le_floor hnow) hlive⟩

/-- A step that mints nothing, and deactivates the user only without active tokens. -/
theorem Barred.of_subset {username : String} {t t' : Minting settings}
    (hbarred : Barred username t) (hnow : t.1.identity.now ≤ t'.1.identity.now)
    (hsubset : t'.1.identity.tokens ⊆ t.1.identity.tokens)
    (hminted : t'.1.identity.minted = t.1.identity.minted)
    (hmemory : t'.2 = noteMint username t.1 t'.1 t.2)
    (hends : t.1.isActive username → ¬ t'.1.isActive username → t.1.active username = []) :
    Barred username t' := by
  have hstored := stored_of_subset hsubset
  have hkept : t'.2.minted = t.2.minted := by
    rw [hmemory, noteMint, hstored]
    rfl
  have hactive := active_subset hnow hsubset username
  refine ⟨?_, ?_, ?_, ?_⟩
  · rw [hkept, hminted]
    exact hbarred.plain
  · rw [hkept]
    exact hbarred.distinct
  · rw [hkept]
    exact fun _ h => hbarred.known (hsubset h)
  · intro row hrow
    rw [hmemory, noteMint, hstored] at hrow
    rw [hkept]
    dsimp only at hrow
    split_ifs at hrow with hafter hbefore
    · cases hrow
    · obtain ⟨hmem, hname⟩ := List.mem_filter.mp hrow
      refine ⟨hmem, of_decide_eq_true hname, fun hold => ?_⟩
      have hnone := hends hbefore hafter
      rw [List.eq_nil_iff_forall_not_mem] at hnone
      exact hnone row (hactive hold)
    · obtain ⟨hmem, hname, hout⟩ := hbarred.barred row hrow
      exact ⟨hmem, hname, fun hold => hout (hactive hold)⟩

/-- A new token is none of those of before. -/
theorem Barred.of_mints {username : String} {t t' : Minting settings}
    (hfresh : Function.Injective fun n => settings.tokenHash (settings.token n))
    (hbarred : Barred username t) (hmints : Mints t.1.identity t'.1.identity)
    (hmemory : t'.2 = noteMint username t.1 t'.1 t.2) : Barred username t' := by
  obtain ⟨row, hnext, htokens⟩ := hmints.row
  have hother : ∀ old ∈ t.2.minted, row.tokenHash ≠ old.tokenHash := by
    intro old hold hsame
    obtain ⟨n, hn, -, hhash⟩ := hbarred.plain old hold
    have hboth : settings.tokenHash (settings.token t.1.identity.minted) =
        settings.tokenHash (settings.token n) := by
      rw [← hnext.hash, hsame, hhash]
    exact absurd (hfresh hboth) (Nat.ne_of_gt hn)
  have hnew : row ∉ t.1.identity.tokens := fun hmem => hother row (hbarred.known hmem) rfl
  have hstored : stored t.1 t'.1 = [row] := by
    rw [stored, htokens, List.filter_cons_of_pos (by simpa using hnew)]
    congr 1
    rw [List.filter_eq_nil_iff]
    intro old hold
    simpa using hold
  have hkept : t'.2.minted = row :: t.2.minted := by
    rw [hmemory, noteMint, hstored]
    rfl
  have hactive : t'.1.isActive username = t.1.isActive username := by
    rw [World.isActive, World.isActive, hmints.directory]
  refine ⟨?_, ?_, ?_, ?_⟩
  · rw [hkept, hmints.minted]
    intro old hold
    rcases List.mem_cons.mp hold with rfl | hold
    · exact ⟨_, Nat.lt_succ_self _, hnext.plain, hnext.hash⟩
    · obtain ⟨n, hn, hplain⟩ := hbarred.plain old hold
      exact ⟨n, Nat.lt_succ_of_lt hn, hplain⟩
  · rw [hkept]
    intro a ha b hb hsame
    rcases List.mem_cons.mp ha with rfl | hamem
    · rcases List.mem_cons.mp hb with rfl | hbmem
      · rfl
      · exact absurd hsame (hother b hbmem)
    · rcases List.mem_cons.mp hb with rfl | hbmem
      · exact absurd hsame.symm (hother a hamem)
      · exact hbarred.distinct a hamem b hbmem hsame
  · rw [hkept, htokens]
    exact List.cons_subset_cons row hbarred.known
  · intro old hold
    rw [hmemory, noteMint, hactive] at hold
    dsimp only at hold
    split_ifs at hold with hstill
    · cases hold
    · obtain ⟨hmem, hname, hout⟩ := hbarred.barred old hold
      rw [hkept]
      refine ⟨List.mem_cons_of_mem _ hmem, hname, fun hlive => ?_⟩
      obtain ⟨hstore, -, hlive⟩ := mem_active_iff.mp hlive
      rw [htokens] at hstore
      rcases List.mem_cons.mp hstore with rfl | hstore
      · exact hother old hmem rfl
      · rw [hmints.now] at hlive
        exact hout (mem_active_iff.mpr ⟨hstore, hname, hlive⟩)

/-! ## What a token opens -/

/-- `Verify` only takes tokens out of the store. -/
theorem verify_subset (hash : GoString → String) (name password : GoString) (now : ℤ)
    (rows : List TokenRow) : (TokenStore.verify hash name password now rows).2 ⊆ rows := by
  unfold TokenStore.verify
  dsimp only
  split
  · exact List.filter_subset_self _
  · split_ifs
    · exact fun _ h => List.mem_of_mem_filter (List.mem_of_mem_filter h)
    · exact List.filter_subset_self _

/-- What `Verify` answers now. -/
def World.vouches (hash : GoString → String) (w : World settings) (name password : GoString) :
    Bool :=
  (TokenStore.verify hash name password ⌊w.identity.now⌋ w.identity.tokens).1

/-- The token opens nothing: `Verify` refuses it under every name, and `HandleBind` and
`HandleVerify` answer as they do without any token. -/
structure OpensNothing (hash : GoString → String) (w : World settings) (token : String) :
    Prop where
  verify : ∀ name, w.vouches hash name (lit token) = false
  bind : ∀ unicode baseDN dials accepts bindDN,
    handleBind unicode baseDN ⟨w.vouches hash, dials, accepts⟩ bindDN (lit token) =
      handleBind unicode baseDN ⟨fun _ _ => false, dials, accepts⟩ bindDN (lit token)
  header : ∀ unicode baseDN lldap authHeader name,
    basicCredentials authHeader = some (name, lit token) →
    handleVerify unicode baseDN lldap (w.vouches hash) authHeader =
      handleVerify unicode baseDN lldap (fun _ _ => false) authHeader

theorem handleBind_of_refused {unicode : Unicode} {baseDN bindDN password : GoString}
    {verify : GoString → GoString → Bool} (hrefused : ∀ name, verify name password = false)
    (dials : Bool) (accepts : GoString → GoString → Bool) :
    handleBind unicode baseDN ⟨verify, dials, accepts⟩ bindDN password =
      handleBind unicode baseDN ⟨fun _ _ => false, dials, accepts⟩ bindDN password := by
  simp only [handleBind, hrefused]

/-- A token that `Verify` refuses opens nothing. -/
theorem opensNothing_of_refused {hash : GoString → String} {w : World settings} {token : String}
    (hrefused : ∀ name, w.vouches hash name (lit token) = false) :
    OpensNothing hash w token where
  verify := hrefused
  bind := fun _ _ dials accepts _ => handleBind_of_refused hrefused dials accepts
  header := by
    intro unicode baseDN lldap authHeader name hcredentials
    have hbind : ∀ bindDN : GoString,
        handleBind unicode baseDN (backend lldap (w.vouches hash)) bindDN (lit token) =
          handleBind unicode baseDN (backend lldap fun _ _ => false) bindDN (lit token) :=
      fun _ => handleBind_of_refused hrefused lldap.dials lldap.accepts
    simp only [handleVerify, hcredentials, hbind]

theorem Barred.refused {username : String} {t : Minting settings} {hash : GoString → String}
    (hhash : ∀ token, hash (lit token) = settings.tokenHash token)
    (hbarred : Barred username t) {row : TokenRow} (hrow : row ∈ t.2.barred) (name : GoString) :
    t.1.vouches hash name (lit row.tokenPlain) = false := by
  obtain ⟨hmem, hname, hout⟩ := hbarred.barred row hrow
  obtain ⟨n, -, hplain, hrowHash⟩ := hbarred.plain row hmem
  have hnone : (t.1.identity.tokens.filter fun row =>
      !row.isExpired ⌊t.1.identity.now⌋).find?
      (·.admits name (hash (lit row.tokenPlain)) ⌊t.1.identity.now⌋) = none := by
    rw [List.find?_eq_none]
    intro found hfound hadmits
    simp only [TokenRow.admits, Bool.and_eq_true, beq_iff_eq] at hadmits
    have hstore := List.mem_of_mem_filter hfound
    have hsame : row.tokenHash = found.tokenHash := by
      rw [hadmits.1.2, hhash, hrowHash, hplain]
    obtain rfl := hbarred.distinct row hmem found (hbarred.known hstore) hsame
    exact hout (mem_active_iff.mpr ⟨hstore, hname, hadmits.2⟩)
  rw [World.vouches, TokenStore.verify, hnone]

/-- **Deactivation cuts off enrollment.**  However enrollments, deletions, ticks and binds
interleave: if the user has no active token where the account is deactivated, then no token
minted before opens anything until the account is active again. -/
theorem barred_tokens_open_nothing (requests : ℕ → Request) {hash : GoString → String}
    (hhash : ∀ token, hash (lit token) = settings.tokenHash token)
    (hfresh : Function.Injective fun n => settings.tokenHash (settings.token n))
    {username : String} {w : World settings} (hstart : w.identity.tokens = [])
    {pool : Pool Exn (Minting settings) Response}
    (hruns : Pool.Runs (Remembers username requests) (Surrounds username)
      (EndsUntokened username) (.idle (w, .empty)) pool) :
    ∀ row ∈ pool.state.2.barred, OpensNothing hash pool.state.1 row.tokenPlain := by
  have hrespects : ∀ (i : ℕ) (p : Prog Exn (Minting settings) Response),
      Remembers username requests i p →
      Respects (fun t t' : Minting settings => Handles t.1 t'.1 ∧
        t'.2 = noteMint username t.1 t'.1 t.2) (fun _ => True) p := by
    rintro i p ⟨hrequest, rfl⟩
    exact (handles_handler hrequest).watch (noteMint username)
  have henv : ∀ t t' : Minting settings, Barred username t → Surrounds username t t' →
      Barred username t' := fun t t' hbarred h =>
    hbarred.of_subset h.now h.tokens h.minted h.memory
      fun hbefore hafter => absurd (h.active hbefore) hafter
  have hguar : ∀ (i : ℕ) (t t' : Minting settings), Barred username t →
      (Handles t.1 t'.1 ∧ t'.2 = noteMint username t.1 t'.1 t.2) →
      EndsUntokened username i t t' → Barred username t' := by
    rintro i t t' hbarred ⟨hsame | hmints, hmemory⟩ hends
    · exact hbarred.of_subset hsame.now.ge (by rw [hsame.tokens]; exact fun _ h => h)
        hsame.minted hmemory hends
    · exact hbarred.of_mints hfresh hmints hmemory
  have hinit : Barred username ((w, .empty) : Minting settings) := by
    refine ⟨?_, ?_, ?_, ?_⟩
    · intro row hrow
      cases hrow
    · intro row hrow
      cases hrow
    · rw [hstart]
      exact fun _ h => h
    · intro row hrow
      cases hrow
  have hbarred := Pool.invariant_of_respects hrespects henv hguar hinit hruns
  exact fun row hrow => opensNothing_of_refused fun name => hbarred.refused hhash hrow name

/-! ## A user who is deleted after enrolling -/

/-- The characters of a string; in place of SHA-256 it hashes a token to itself. -/
def readableHash (g : GoString) : String :=
  .ofList (g.filterMap fun
    | .char c => some c
    | .byte _ => none)

theorem readableHash_lit (token : String) :
    readableHash (lit token) = Settings.small.tokenHash token := by
  have hchars : ∀ cs : List Char, (cs.map Rune.char).filterMap (fun
      | .char c => some c
      | .byte _ => none) = cs := by
    intro cs
    induction cs with
    | nil => rfl
    | cons c cs ih => simp [ih]
  rw [readableHash, lit, hchars, String.ofList_toList]
  rfl

theorem small_token_injective :
    Function.Injective fun n => Settings.small.tokenHash (Settings.small.token n) := by
  intro n m hsame
  have htail : (toString n).toList = (toString m).toList := by
    have hlist := congrArg String.toList hsame
    simpa [Settings.small, String.toList_append] using hlist
  exact Nat.repr_injective (String.toList_injective htail)

/-- The user enrolls and is deleted. -/
def cutoffRequests : ℕ → Request
  | 0 => .enrollUser (Settings.small.numericId "kim")
  | _ => .deleteUser (Settings.small.numericId "kim")

def cutoffPool (t : Minting Settings.small) : Pool Exn (Minting Settings.small) Response :=
  ((Pool.idle t).setThread 0 ((cutoffRequests 0).handler.watch (noteMint "kim"))).setThread 1
    ((cutoffRequests 1).handler.watch (noteMint "kim"))

theorem runs_cutoffPool (t : Minting Settings.small)
    {admits : ℕ → Minting Settings.small → Minting Settings.small → Prop} :
    Pool.Runs (Remembers "kim" cutoffRequests) (Surrounds "kim") admits (.idle t)
      (cutoffPool t) :=
  .trans (.single (.start 0 ⟨rfl, rfl⟩ rfl)) (.single (.start 1 ⟨rfl, rfl⟩ rfl))

/-- The enrollment runs to its end, and then the deletion does. -/
def cutoffPlayed : Pool Exn (Minting Settings.small) Response :=
  (cutoffPool (enrollWorld, .empty)).play (List.replicate 16 0 ++ List.replicate 24 1)

/-- Both succeed, the user is inactive, and the token of before still opens everything. -/
theorem deleted_user_token_still_opens :
    Pool.Runs (Remembers "kim" cutoffRequests) (Surrounds "kim") (fun _ _ _ => True)
      (.idle (enrollWorld, .empty)) cutoffPlayed ∧
    cutoffPlayed.returned 0 ∧ cutoffPlayed.returned 1 ∧
    cutoffPlayed.state.1.isActive "kim" = false ∧
    cutoffPlayed.state.2.barred.map TokenRow.tokenPlain = ["token-0"] ∧
    cutoffPlayed.state.1.vouches readableHash (lit "kim") (lit "token-0") = true ∧
    ¬ OpensNothing readableHash cutoffPlayed.state.1 "token-0" := by
  have hvouches :
      cutoffPlayed.state.1.vouches readableHash (lit "kim") (lit "token-0") = true := by
    decide +kernel
  refine ⟨?_, by decide +kernel, by decide +kernel, by decide +kernel, by decide +kernel,
    hvouches, ?_⟩
  · exact .trans (runs_cutoffPool _)
      (Pool.runs_play (Pool.plays_of_forall (fun _ _ _ => trivial) _ _))
  · intro hnothing
    rw [hnothing.verify] at hvouches
    cases hvouches

/-- Time passes. -/
def passTime (now : ℚ) (t : Minting Settings.small) : Minting Settings.small :=
  let w := { t.1 with identity := { t.1.identity with now := now } }
  (w, noteMint "kim" t.1 w t.2)

/-- After the enrollment, the token expires. -/
def expiredPool : Pool Exn (Minting Settings.small) Response :=
  let pool := (cutoffPool (enrollWorld, .empty)).play (List.replicate 16 0)
  { pool with state := passTime 2000 pool.state }

/-- A user who is deleted after the token has expired is cut off. -/
theorem expired_token_opens_nothing :
    (expiredPool.play (List.replicate 24 1)).returned 1 ∧
    (expiredPool.play (List.replicate 24 1)).state.2.barred.map TokenRow.tokenPlain =
      ["token-0"] ∧
    ∀ row ∈ (expiredPool.play (List.replicate 24 1)).state.2.barred,
      OpensNothing readableHash (expiredPool.play (List.replicate 24 1)).state.1
        row.tokenPlain := by
  have henrolls : Pool.Runs (Remembers "kim" cutoffRequests) (Surrounds "kim")
      (EndsUntokened "kim") (cutoffPool (enrollWorld, .empty))
      ((cutoffPool (enrollWorld, .empty)).play (List.replicate 16 0)) :=
    Pool.runs_play (by decide +kernel)
  have hpasses : Pool.Runs (Remembers "kim" cutoffRequests) (Surrounds "kim")
      (EndsUntokened "kim") ((cutoffPool (enrollWorld, .empty)).play (List.replicate 16 0))
      expiredPool :=
    .single (.env ⟨by decide +kernel, fun _ h => h, rfl, fun h => h, rfl⟩)
  have hdeletes : Pool.Runs (Remembers "kim" cutoffRequests) (Surrounds "kim")
      (EndsUntokened "kim") expiredPool (expiredPool.play (List.replicate 24 1)) :=
    Pool.runs_play (by decide +kernel)
  have hruns := (((runs_cutoffPool _).trans henrolls).trans hpasses).trans hdeletes
  exact ⟨by decide +kernel, by decide +kernel,
    barred_tokens_open_nothing cutoffRequests readableHash_lit small_token_injective rfl hruns⟩

end FastTAK.Api
