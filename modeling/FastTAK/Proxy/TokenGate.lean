import FastTAK.Proxy.TokenApi

/-!
# The gate of the token API

`/tokens` creates and shows credentials for any user.  Its three routes stand behind a shared
secret; binds only look tokens up.
-/

namespace FastTAK.Proxy

open FastTAK.Bind FastTAK.Verify

/-! ## The routes -/

/-- `requireBearer`: the header has the prefix, and the rest is the secret. -/
def authorized (secret authorization : GoString) : Bool :=
  lit "Bearer " <+: authorization && authorization.drop 7 == secret

/-- A request to one of the routes, with what the handler meets: whether the store fails, and what
the clock says.  A name in a path may hold any bytes. -/
inductive TokensCall where
  | create (body : Option CreateTokenRequest) (creation : Creation) (answered : ℤ)
  | getActive (username : GoString) (now : ℤ) (fails : Bool)
  | delete (username : GoString) (fails : Bool)

structure TokenEntry where
  id : ℤ
  token : String
  expiresAt : Option ℤ
  oneTime : Bool
  createdAt : ℤ

inductive TokensAnswer where
  | failed (error : HttpError)
  | created (response : CreateTokenResponse)
  | active (tokens : List TokenEntry)
  | deleted (count : ℕ)

def TokenRow.entry (row : TokenRow) : TokenEntry where
  id := row.id
  token := row.tokenPlain
  expiresAt := row.expiresAt
  oneTime := row.oneTime
  createdAt := row.createdAt

def unauthorized : TokensAnswer := .failed ⟨401, "\x7b\"error\": \"unauthorized\"\x7d"⟩

def internalError : TokensAnswer := .failed ⟨500, "\x7b\"error\": \"internal error\"\x7d"⟩

def TokenRow.isOf (username : GoString) (row : TokenRow) : Bool := lit row.username == username

/-- What `handleCreate` answers with. -/
def createAnswer : Except HttpError CreateTokenResponse → TokensAnswer
  | .error error => .failed error
  | .ok response => .created response

/-- `handleGetActive`. -/
def handleGetActive (username : GoString) (now : ℤ) (fails : Bool) (rows : List TokenRow) :
    TokensAnswer :=
  if fails then internalError
  else .active ((rows.filter fun row => row.isOf username && row.isLive now).map TokenRow.entry)

/-- `handleDelete`. -/
def handleDelete (username : GoString) (fails : Bool) (rows : List TokenRow) :
    TokensAnswer × List TokenRow :=
  if fails then (internalError, rows)
  else (.deleted (rows.countP (TokenRow.isOf username)), rows.filter fun row => !row.isOf username)

/-- What the proxy serves from. -/
structure TokensServer where
  unicode : Unicode
  hash : GoString → String
  api : TokensApi
  secret : GoString

/-- The handler of a route. -/
def TokensServer.handle (server : TokensServer) (call : TokensCall) (rows : List TokenRow) :
    TokensAnswer × List TokenRow :=
  match call with
  | .create body creation answered =>
      let handled :=
        server.api.handleCreate server.unicode server.hash body creation answered rows
      (createAnswer handled.1, handled.2)
  | .getActive username now fails => (handleGetActive username now fails rows, rows)
  | .delete username fails => handleDelete username fails rows

/-- A request to a route behind `requireBearer`. -/
def TokensServer.serve (server : TokensServer) (authorization : GoString) (call : TokensCall)
    (rows : List TokenRow) : TokensAnswer × List TokenRow :=
  if authorized server.secret authorization then server.handle call rows
  else (unauthorized, rows)

/-! ## Runs -/

/-- What happens to the store: a request, or the look at the tokens in a bind. -/
inductive StoreEvent where
  | request (authorization : GoString) (call : TokensCall)
  | bind (username password : GoString) (now : ℤ)

inductive StoreAnswer where
  | answer (answer : TokensAnswer)
  | verified (accepted : Bool)

def TokensServer.step (server : TokensServer) (rows : List TokenRow) :
    StoreEvent → StoreAnswer × List TokenRow
  | .request authorization call =>
      let served := server.serve authorization call rows
      (.answer served.1, served.2)
  | .bind username password now =>
      let verified := TokenStore.verify server.hash username password now rows
      (.verified verified.1, verified.2)

structure Entry where
  event : StoreEvent
  answer : StoreAnswer

/-- The rows after some events, and the events with their answers. -/
def TokensServer.run (server : TokensServer) :
    List TokenRow → List StoreEvent → List TokenRow × List Entry
  | rows, [] => (rows, [])
  | rows, event :: events =>
      let stepped := server.step rows event
      let rest := server.run stepped.2 events
      (rest.1, ⟨event, stepped.1⟩ :: rest.2)

/-- Requests to `/tokens` have to carry the secret. -/
def TokensServer.permits (server : TokensServer) : StoreEvent → Bool
  | .request authorization _ => authorized server.secret authorization
  | .bind _ _ _ => true

/-- The entry is of a request with the secret, answered with a token for the name whose hash is
stored in the row. -/
def TokensServer.Mints (server : TokensServer) (row : TokenRow) (entry : Entry) : Prop :=
  ∃ req creation answered response,
    entry.event = .request (lit "Bearer " ++ server.secret) (.create (some req) creation answered) ∧
    entry.answer = .answer (.created response) ∧ req.username = row.username ∧
    server.hash (lit response.token) = row.tokenHash

section Gate

variable {server : TokensServer} {authorization secret username password : GoString} {now : ℤ}
  {call : TokensCall} {rows : List TokenRow} {event : StoreEvent} {row : TokenRow}

theorem authorized_iff : authorized secret authorization = true ↔
    authorization = lit "Bearer " ++ secret := by
  have hlength : (lit "Bearer ").length = 7 := by rfl
  rw [authorized, Bool.and_eq_true, decide_eq_true_iff, beq_iff_eq]
  constructor
  · intro h
    obtain ⟨rest, rfl⟩ := h.1
    rw [← h.2, ← hlength, List.drop_left]
  · intro h
    rw [h, ← hlength, List.drop_left]
    exact ⟨List.prefix_append _ _, rfl⟩

/-- A request without the secret changes nothing. -/
theorem step_denied (hdenied : server.permits event = false) :
    server.step rows event = (.answer unauthorized, rows) := by
  cases event with
  | request authorization call =>
      rw [TokensServer.permits] at hdenied
      rw [TokensServer.step, TokensServer.serve, hdenied]
      rfl
  | bind username password now => cases hdenied

/-- `handleCreate` fails or adds one row. -/
theorem handleCreate_some (unicode : Unicode) (hash : GoString → String) (api : TokensApi)
    (req : CreateTokenRequest) (creation : Creation) (answered : ℤ) (rows : List TokenRow) :
    (api.handleCreate unicode hash (some req) creation answered rows).2 = rows ∨
      ∃ response row, api.handleCreate unicode hash (some req) creation answered rows =
        (.ok response, row :: rows) := by
  rw [TokensApi.handleCreate]
  dsimp only
  split_ifs
  · exact Or.inl rfl
  · cases TokenStore.create hash req.username (req.ttlMinutes.getD api.defaultTtl)
      (req.oneTime.getD api.defaultOneTime) creation with
    | none => exact Or.inl rfl
    | some created => exact Or.inr ⟨_, created.2, rfl⟩

theorem mem_of_mem_handleDelete {fails : Bool}
    (hrow : row ∈ (handleDelete username fails rows).2) : row ∈ rows := by
  rw [handleDelete] at hrow
  split_ifs at hrow
  · exact hrow
  · exact List.mem_of_mem_filter hrow

theorem mem_of_mem_verify {hash : GoString → String}
    (hrow : row ∈ (TokenStore.verify hash username password now rows).2) : row ∈ rows := by
  rw [TokenStore.verify] at hrow
  cases hfound : (rows.filter fun row => !row.isExpired now).find?
      (·.admits username (hash password) now) with
  | none =>
      rw [hfound] at hrow
      exact List.mem_of_mem_filter hrow
  | some found =>
      rw [hfound] at hrow
      dsimp only at hrow
      split_ifs at hrow
      · exact List.mem_of_mem_filter (List.mem_of_mem_filter hrow)
      · exact List.mem_of_mem_filter hrow

/-- A row is there before a step, or minted in it. -/
theorem mem_step (hrow : row ∈ (server.step rows event).2) :
    row ∈ rows ∨ server.Mints row ⟨event, (server.step rows event).1⟩ := by
  cases event with
  | bind username password now => exact Or.inl (mem_of_mem_verify hrow)
  | request authorization call =>
      cases hauthorized : authorized server.secret authorization with
      | false =>
          have hdenied : server.permits (.request authorization call) = false := hauthorized
          rw [step_denied hdenied] at hrow
          exact Or.inl hrow
      | true =>
          have hstep : server.step rows (.request authorization call) =
              (.answer (server.handle call rows).1, (server.handle call rows).2) := by
            rw [TokensServer.step, TokensServer.serve, hauthorized]
            rfl
          rw [hstep] at hrow ⊢
          rw [authorized_iff.mp hauthorized]
          cases call with
          | getActive username now fails => exact Or.inl hrow
          | delete username fails => exact Or.inl (mem_of_mem_handleDelete hrow)
          | create body creation answered =>
              cases body with
              | none => exact Or.inl hrow
              | some req =>
                  rcases handleCreate_some server.unicode server.hash server.api req creation
                    answered rows with hsame | ⟨response, made, hmade⟩
                  · rw [TokensServer.handle, hsame] at hrow
                    exact Or.inl hrow
                  · rw [TokensServer.handle, hmade] at hrow ⊢
                    apply (List.mem_cons.mp hrow).symm.imp_right
                    rintro rfl
                    obtain ⟨hname, hhash, -⟩ := handleCreate_eq_ok hmade
                    exact ⟨req, creation, answered, response, rfl, rfl, hname.symm, hhash.symm⟩

/-- Every row at the end of a run was there at its start or minted in it. -/
theorem mem_run (server : TokensServer) (start : List TokenRow) (events : List StoreEvent) :
    ∀ row ∈ (server.run start events).1,
      row ∈ start ∨ ∃ entry ∈ (server.run start events).2, server.Mints row entry := by
  induction events generalizing start with
  | nil => exact fun row hrow => Or.inl hrow
  | cons event events ih =>
      intro row hrow
      rcases ih _ row hrow with hstepped | ⟨entry, hentry, hmints⟩
      · apply (mem_step hstepped).imp_right
        exact fun hmints => ⟨_, List.mem_cons_self, hmints⟩
      · exact Or.inr ⟨entry, List.mem_cons_of_mem _ hentry, hmints⟩

theorem exists_of_verify {hash : GoString → String}
    (haccepted : (TokenStore.verify hash username password now rows).1 = true) :
    ∃ row ∈ rows, row.admits username (hash password) now = true := by
  rw [TokenStore.verify] at haccepted
  cases hfound : (rows.filter fun row => !row.isExpired now).find?
      (·.admits username (hash password) now) with
  | none =>
      rw [hfound] at haccepted
      cases haccepted
  | some row =>
      exact ⟨row, List.mem_of_mem_filter (List.mem_of_find?_eq_some hfound),
        List.find?_some hfound⟩

end Gate

/-! ## A token that is minted -/

def kimsServer : TokensServer := ⟨asciiTable, zeroTokenHash, ⟨15, true⟩, lit "shared"⟩

/-- A request with the secret and one without. -/
def kimsEvents : List StoreEvent :=
  [.request (lit "Bearer shared")
    (.create (some ⟨"kim", some 15, some false⟩) (zeroCreation 1000) 1000),
    .request (lit "Bearer guessed") (.delete (lit "kim") false)]

end FastTAK.Proxy
