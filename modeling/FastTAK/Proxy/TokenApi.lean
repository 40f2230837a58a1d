import FastTAK.Proxy.Tokens
import FastTAK.Proxy.Verify

/-!
# Creating and checking a token

`POST /tokens` computes the expiry of a token twice, with a clock reading of its own each time
and in the arithmetic of `int64`: once for the row and once for its answer.  The row then decides
which binds succeed.
-/

namespace FastTAK.Proxy

open FastTAK.Bind FastTAK.Verify

/-! ## The store -/

/-- `hex.EncodeToString`. -/
def hexEncode (bytes : List UInt8) : String :=
  String.ofList (bytes.flatMap fun b =>
    [Nat.digitChar (b.toNat / 16), Nat.digitChar (b.toNat % 16)])

/-- What `TokenStore.Create` meets: the bytes of `generateToken`, the clock, and the id SQLite
gives to the row.  Without bytes or without an id it fails. -/
structure Creation where
  random : Option (Fin 32 → UInt8)
  now : ℤ
  id : Option ℤ

/-- `TokenStore.Create`: the plaintext and the row. -/
def TokenStore.create (hash : GoString → String) (username : String) (ttlMinutes : ℤ)
    (oneTime : Bool) (creation : Creation) : Option (String × TokenRow) := do
  let bytes ← creation.random
  let plaintext := hexEncode (List.ofFn bytes)
  let id ← creation.id
  return (plaintext,
    { id, username, tokenHash := hash (lit plaintext), tokenPlain := plaintext
      expiresAt := newExpiry creation.now ttlMinutes, oneTime, createdAt := creation.now })

/-- `username = ? AND token_hash = ? AND (expires_at IS NULL OR expires_at > ?)` of a name
that may hold any bytes. -/
def TokenRow.admits (username : GoString) (tokenHash : String) (now : ℤ) (row : TokenRow) :
    Bool :=
  lit row.username == username && row.tokenHash == tokenHash && row.isLive now

/-- `TokenStore.Verify` without others around it. -/
def TokenStore.verify (hash : GoString → String) (username password : GoString) (now : ℤ)
    (rows : List TokenRow) : Bool × List TokenRow :=
  let kept := rows.filter fun row => !row.isExpired now
  match kept.find? (·.admits username (hash password) now) with
  | none => (false, kept)
  | some row => (true, if row.oneTime then kept.filter (·.id != row.id) else kept)

/-! ## The endpoint -/

/-- The body of `POST /tokens`.  Numbers that do not fit into an `int` are not decoded. -/
structure CreateTokenRequest where
  username : String
  ttlMinutes : Option ℤ
  oneTime : Option Bool

structure CreateTokenResponse where
  token : String
  expiresAt : Option ℤ
  oneTime : Bool
  username : String
  deriving DecidableEq, Repr

structure TokensApi where
  defaultTtl : ℤ
  defaultOneTime : Bool

/-- An answer with an error: its status and text. -/
structure HttpError where
  status : ℕ
  text : String
  deriving DecidableEq, Repr

/-- `handleCreate`.  `answered` is the clock when the answer is made up. -/
def TokensApi.handleCreate (unicode : Unicode) (hash : GoString → String) (api : TokensApi)
    (body : Option CreateTokenRequest) (creation : Creation) (answered : ℤ)
    (rows : List TokenRow) : Except HttpError CreateTokenResponse × List TokenRow :=
  match body with
  | none => (.error ⟨400, "\x7b\"error\": \"invalid JSON\"\x7d"⟩, rows)
  | some req =>
      if trimSpace unicode (lit req.username) = [] then
        (.error ⟨400, "\x7b\"error\": \"username required\"\x7d"⟩, rows)
      else
        let ttl := req.ttlMinutes.getD api.defaultTtl
        let oneTime := req.oneTime.getD api.defaultOneTime
        match TokenStore.create hash req.username ttl oneTime creation with
        | none => (.error ⟨500, "\x7b\"error\": \"internal error\"\x7d"⟩, rows)
        | some (plaintext, row) =>
            (.ok
              { token := plaintext
                expiresAt := newExpiry answered ttl
                oneTime := oneTime
                username := req.username }, row :: rows)

/-! ## What is created -/

section Created

variable {unicode : Unicode} {hash : GoString → String} {api : TokensApi}
  {req : CreateTokenRequest} {creation : Creation} {answered : ℤ} {rows : List TokenRow}
  {response : CreateTokenResponse} {row : TokenRow} {rest : List TokenRow}

/-- The answer and the row of a request that succeeds. -/
theorem handleCreate_eq_ok
    (hcreate : api.handleCreate unicode hash (some req) creation answered rows =
      (.ok response, row :: rest)) :
    row.username = req.username ∧ row.tokenHash = hash (lit response.token) ∧
      row.expiresAt = newExpiry creation.now (req.ttlMinutes.getD api.defaultTtl) ∧
      response.expiresAt = newExpiry answered (req.ttlMinutes.getD api.defaultTtl) ∧
      (lit response.token).length = 64 := by
  rw [TokensApi.handleCreate] at hcreate
  dsimp only at hcreate
  split_ifs at hcreate
  · simp at hcreate
  cases hrandom : creation.random with
  | none => simp [TokenStore.create, hrandom] at hcreate
  | some bytes =>
      cases hid : creation.id with
      | none => simp [TokenStore.create, hrandom, hid] at hcreate
      | some id =>
          simp only [TokenStore.create, hrandom, hid, Option.bind_eq_bind, Option.bind_some,
            Option.pure_def, Prod.mk.injEq, Except.ok.injEq, List.cons.injEq] at hcreate
          obtain ⟨rfl, rfl, -⟩ := hcreate
          refine ⟨rfl, rfl, rfl, rfl, ?_⟩
          simp [lit, hexEncode]

/-- A name of blanks only is not served. -/
theorem username_ne_nil
    (hcreate : api.handleCreate unicode hash (some req) creation answered rows =
      (.ok response, rest)) : lit req.username ≠ [] := by
  intro hnil
  have hblank : trimSpace unicode (lit req.username) = [] := by
    rw [hnil]
    rfl
  simp [TokensApi.handleCreate, hblank] at hcreate

/-- A password that only one row fits is accepted as long as that row is live. -/
theorem verify_iff {username : GoString} {password : GoString} {now : ℤ} {table : List TokenRow}
    (hkept : row ∈ table) (hhash : row.tokenHash = hash password)
    (hothers : ∀ other ∈ table, other.tokenHash = hash password → other = row) :
    (TokenStore.verify hash username password now table).1 = true ↔
      lit row.username = username ∧ row.isLive now = true := by
  have hfound : ((table.filter fun row => !row.isExpired now).find?
      (·.admits username (hash password) now)).isSome = true ↔
      lit row.username = username ∧ row.isLive now = true := by
    rw [List.find?_isSome]
    constructor
    · rintro ⟨other, hmem, hadmits⟩
      simp only [TokenRow.admits, Bool.and_eq_true, beq_iff_eq] at hadmits
      obtain rfl := hothers other (List.mem_of_mem_filter hmem) hadmits.1.2
      exact ⟨hadmits.1.1, hadmits.2⟩
    · rintro ⟨hname, hlive⟩
      refine ⟨row, List.mem_filter.mpr ⟨hkept, ?_⟩, ?_⟩
      · simp [TokenRow.isExpired_eq_not_isLive, hlive]
      · simp [TokenRow.admits, hname, hhash, hlive]
  rw [← hfound, TokenStore.verify]
  cases (table.filter fun row => !row.isExpired now).find?
    (·.admits username (hash password) now) <;> simp

end Created

/-! ## Expiry -/

/-- The numbers of an `int64`. -/
def IsInt64 (n : ℤ) : Prop := -2 ^ 63 ≤ n ∧ n < 2 ^ 63

theorem wrap64_eq_self_iff (n : ℤ) : wrap64 n = n ↔ IsInt64 n := by
  rw [wrap64, IsInt64, Int.bmod_def]
  norm_num
  split_ifs <;> omega

/-- An expiry that is computed step by step, each in `int64`. -/
theorem newExpiry_of_pos {now ttlMinutes : ℤ} (hpos : 0 < ttlMinutes) :
    newExpiry now ttlMinutes = some (wrap64 (now + 60 * ttlMinutes)) := by
  rw [newExpiry, if_pos hpos]
  apply congrArg some
  rw [wrap64, wrap64, wrap64, Int.add_bmod_bmod, mul_comm]

theorem wrap64_add_inj {a b n : ℤ} (ha : IsInt64 a) (hb : IsInt64 b) :
    wrap64 (a + n) = wrap64 (b + n) ↔ a = b := by
  constructor
  · intro h
    rw [wrap64, wrap64, Int.bmod_def, Int.bmod_def] at h
    rw [IsInt64] at ha hb
    norm_num at h ha hb
    split_ifs at h <;> omega
  · exact congrArg fun a => wrap64 (a + n)

/-- The row of a token without expiry is always live, any other until its time. -/
theorem isLive_iff {row : TokenRow} {t : ℤ} :
    row.isLive t = true ↔ ∀ expiry ∈ row.expiresAt, t < expiry := by
  rw [TokenRow.isLive]
  cases row.expiresAt <;> simp

/-- What is promised of a token of `POST /tokens`: it is accepted until its lifetime is over, a
negative lifetime is over some time, and the answer tells the stored expiry. -/
structure KeepsExpiry (accepted : ℤ → Bool) (ttlMinutes created : ℤ) (stored told : Option ℤ) :
    Prop where
  accepted_iff : ∀ t, accepted t = true ↔ ttlMinutes = 0 ∨ t < created + 60 * ttlMinutes
  ends : ttlMinutes < 0 → ∃ t, accepted t = false
  told_eq : told = stored

theorem keepsExpiry_iff {accepted : ℤ → Bool} {ttlMinutes created answered : ℤ}
    (hcreated : IsInt64 created) (hanswered : IsInt64 answered)
    (haccepted : ∀ t, accepted t = true ↔ ∀ expiry ∈ newExpiry created ttlMinutes, t < expiry) :
    KeepsExpiry accepted ttlMinutes created (newExpiry created ttlMinutes)
        (newExpiry answered ttlMinutes) ↔
      ttlMinutes = 0 ∨
        0 < ttlMinutes ∧ created + 60 * ttlMinutes < 2 ^ 63 ∧ answered = created := by
  rcases lt_trichotomy ttlMinutes 0 with hneg | rfl | hpos
  · -- A negative lifetime is stored like none at all.
    have hforever : accepted (created + 60 * ttlMinutes) = true := by
      rw [haccepted, newExpiry, if_neg (by omega)]
      simp
    constructor
    · intro hkeeps
      have hiff := (hkeeps.accepted_iff _).mp hforever
      omega
    · intro hcondition
      omega
  · have hnever : ∀ now, newExpiry now 0 = none := fun now => if_neg (by omega)
    simp only [true_or, iff_true]
    refine ⟨?_, fun hneg => absurd hneg (by omega), by rw [hnever, hnever]⟩
    intro t
    rw [haccepted, hnever]
    simp
  · have hexpiry : ∀ t, accepted t = true ↔ t < wrap64 (created + 60 * ttlMinutes) := by
      intro t
      rw [haccepted, newExpiry_of_pos hpos]
      simp
    have hfits : IsInt64 (created + 60 * ttlMinutes) ↔ created + 60 * ttlMinutes < 2 ^ 63 := by
      rw [IsInt64] at hcreated ⊢
      omega
    have htold : newExpiry answered ttlMinutes = newExpiry created ttlMinutes ↔
        answered = created := by
      rw [newExpiry_of_pos hpos, newExpiry_of_pos hpos, Option.some_inj]
      exact wrap64_add_inj hanswered hcreated
    rw [← hfits, ← wrap64_eq_self_iff]
    constructor
    · intro hkeeps
      refine Or.inr ⟨hpos, ?_, htold.mp hkeeps.told_eq⟩
      have hat : ∀ t, t < wrap64 (created + 60 * ttlMinutes) ↔ t < created + 60 * ttlMinutes := by
        intro t
        rw [← hexpiry, hkeeps.accepted_iff]
        omega
      apply le_antisymm
      · exact not_lt.mp fun h => lt_irrefl _ ((hat _).mp h)
      · exact not_lt.mp fun h => lt_irrefl _ ((hat _).mpr h)
    · intro hcondition
      obtain ⟨-, hwrap, hsame⟩ := hcondition.resolve_left (by omega)
      refine ⟨?_, fun hneg => absurd hneg (by omega), htold.mpr hsame⟩
      intro t
      rw [hexpiry, hwrap]
      omega

/-- A token of `POST /tokens` keeps what is promised exactly if it has no expiry, or a positive
lifetime whose end fits into an `int64` and an answer from the second of its creation. -/
theorem created_keepsExpiry_iff {unicode : Unicode} {hash : GoString → String} {api : TokensApi}
    {req : CreateTokenRequest} {creation : Creation} {answered : ℤ} {rows rest : List TokenRow}
    {response : CreateTokenResponse} {row : TokenRow}
    (hcreate : api.handleCreate unicode hash (some req) creation answered rows =
      (.ok response, row :: rest))
    (hcreated : IsInt64 creation.now) (hanswered : IsInt64 answered)
    {table : List TokenRow} (hkept : row ∈ table)
    (hothers : ∀ other ∈ table, other.tokenHash = hash (lit response.token) → other = row) :
    let ttlMinutes := req.ttlMinutes.getD api.defaultTtl
    KeepsExpiry
        (fun t => (TokenStore.verify hash (lit req.username) (lit response.token) t table).1)
        ttlMinutes creation.now row.expiresAt response.expiresAt ↔
      ttlMinutes = 0 ∨
        0 < ttlMinutes ∧ creation.now + 60 * ttlMinutes < 2 ^ 63 ∧ answered = creation.now := by
  obtain ⟨hname, hhash, hstored, htold, -⟩ := handleCreate_eq_ok hcreate
  have haccepted : ∀ t,
      (TokenStore.verify hash (lit req.username) (lit response.token) t table).1 = true ↔
        ∀ expiry ∈ newExpiry creation.now (req.ttlMinutes.getD api.defaultTtl), t < expiry := by
    intro t
    rw [verify_iff hkept hhash hothers, hname, isLive_iff, hstored]
    exact and_iff_right rfl
  intro ttlMinutes
  rw [hstored, htold]
  exact keepsExpiry_iff hcreated hanswered haccepted

/-! ## A negative lifetime -/

/-- The token of 32 zero bytes. -/
def zeroToken : String := hexEncode (List.replicate 32 0)

/-- The hash of that token; others are not asked for. -/
def zeroTokenHash (password : GoString) : String :=
  if password = lit zeroToken then
    "60e05bd1b195af2f94112fa7197a5c88289058840ce7c6df9693756bc6250f55"
  else ""

def zeroCreation (now : ℤ) : Creation := ⟨some fun _ => 0, now, some 1⟩

/-- A reusable token of `kim` with the lifetime, and the answer of the second it was made in. -/
def kimsToken (ttlMinutes : ℤ) : Except HttpError CreateTokenResponse × List TokenRow :=
  TokensApi.handleCreate asciiTable zeroTokenHash ⟨15, true⟩
    (some ⟨"kim", some ttlMinutes, some false⟩) (zeroCreation 1000) 1000 []

theorem kimsToken_negative :
    ¬ KeepsExpiry
        (fun t => (TokenStore.verify zeroTokenHash (lit "kim") (lit zeroToken) t
          (kimsToken (-1)).2).1) (-1) 1000 none none := by
  intro hkeeps
  have haccepted : (TokenStore.verify zeroTokenHash (lit "kim") (lit zeroToken) 1000
      (kimsToken (-1)).2).1 = true := by decide +kernel
  have hiff := (hkeeps.accepted_iff 1000).mp haccepted
  omega

/-- The row and the answer for a lifetime of 15 minutes. -/
def kimsRow : TokenRow :=
  ⟨1, "kim", zeroTokenHash (lit zeroToken), zeroToken, some 1900, false, 1000⟩

def kimsResponse : CreateTokenResponse := ⟨zeroToken, some 1900, false, "kim"⟩

theorem kimsToken_fifteen :
    KeepsExpiry
      (fun t => (TokenStore.verify zeroTokenHash (lit "kim") (lit zeroToken) t [kimsRow]).1)
      15 1000 (some 1900) (some 1900) := by
  have hcreate : TokensApi.handleCreate asciiTable zeroTokenHash ⟨15, true⟩
      (some ⟨"kim", some 15, some false⟩) (zeroCreation 1000) 1000 [] =
        (.ok kimsResponse, [kimsRow]) := by
    rfl
  have hothers : ∀ other ∈ [kimsRow],
      other.tokenHash = zeroTokenHash (lit kimsResponse.token) → other = kimsRow := by
    intro other hmem _
    exact List.mem_singleton.mp hmem
  have hint : IsInt64 1000 := by
    rw [IsInt64]
    norm_num
  exact (created_keepsExpiry_iff hcreate hint hint List.mem_cons_self hothers).mpr
    (Or.inr (by decide))

end FastTAK.Proxy
