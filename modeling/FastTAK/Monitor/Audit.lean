import FastTAK.Base.Loop
import FastTAK.Base.PyJson

/-!
# The audit trail

`AuditMiddleware` records a row for every mutating request that succeeds, with the body of the
request in it.  The body is read by a reader and written by a writer that know more than JSON;
the database takes only JSON, and a row that it refuses is dropped.
-/

namespace FastTAK.Monitor

open FastTAK.PyJson

/-! ## Redaction -/

def redactFields : List Str :=
  ["password", "passcode", "token", "secret", "api_key", "p12", "private_key"].map str

/-- `k.lower()`, as far as letters of ASCII come out of it. -/
def lower (k : Str) : Str :=
  k.flatMap fun c =>
    if 0x41 ≤ c ∧ c ≤ 0x5a then [c + 0x20]
    else if c = 0x130 then [0x69, 0x307]
    else if c = 0x212a then [0x6b]
    else [c]

/-- `any(s in k.lower() for s in REDACT_FIELDS)`. -/
def isRedacted (k : Str) : Bool := redactFields.any fun s => s <:+: lower k

/-- `_sanitise`, which can call itself so many times before Python raises. -/
def sanitise : ℕ → Value → Option Value
  | 0, _ => none
  | calls + 1, .dict fields =>
      (fields.mapM fun field =>
        if isRedacted field.1 then some (field.1, Value.str (str "[redacted]"))
        else (sanitise calls field.2).map fun value => (field.1, value)).map .dict
  | calls + 1, .list items => (items.mapM (sanitise calls)).map .list
  | _ + 1, value => some value

/-! ## The row -/

/-- What the database makes of a piece of JSON text. -/
def jsonbTakes : Piece → Bool
  | .nan | .infinity => false
  | .string units => paired units && !units.contains 0
  | .word _ | .number => true

/-- A row of `fastak_events`, with the text of its detail. -/
structure Event where
  source : Str
  actor : Str
  action : Str
  detail : List Piece
  ip : Option Str
deriving DecidableEq

/-- The rows that `record_event` inserts.  An insert that raises inserts none. -/
def recordEvent (inet : Str → Bool) (source actor action : Str) (detail : Value)
    (ip : Option Str) : List Event :=
  let event : Event := ⟨source, actor, action, dumps detail, ip⟩
  if [source, actor, action].all plain && event.detail.all jsonbTakes && ip.all inet then [event]
  else []

/-! ## The middleware -/

def mutatingMethods : List Str := ["POST", "PUT", "PATCH", "DELETE"].map str

/-- What the middleware sees of a request.  There is no path if the URL cannot be split. -/
structure Request where
  method : Str
  body : List ℕ
  path : Option Str
  username : Option Str
  clientIp : Option Str

/-- How deep the reader and `_sanitise` may go. -/
structure Limits where
  scan : ℕ
  calls : ℕ

/-- `_sanitise(json.loads(body_bytes))`. -/
def readBody (limits : Limits) (body : List ℕ) : Option Value :=
  (loads limits.scan body).bind (sanitise limits.calls)

def requestBody (limits : Limits) (body : List ℕ) : Value :=
  if body.isEmpty then .null
  else (readBody limits body).getD (.str (str "<non-json or binary>"))

def isNull : Value → Bool
  | .null => true
  | _ => false

def detail (limits : Limits) (request : Request) (path : Str) (status : ℤ) : Value :=
  let body := requestBody limits request.body
  .dict ([(str "method", .str request.method), (str "path", .str path),
    (str "status", .int status)] ++ if isNull body then [] else [(str "request_body", body)])

/-- The rows that `AuditMiddleware.dispatch` inserts around a request that the application
answers with a status. -/
def dispatch (limits : Limits) (inet : Str → Bool) (request : Request) (status : ℤ) :
    List Event :=
  if request.method ∉ mutatingMethods then []
  else if 400 ≤ status then []
  else
    match request.path with
    | none => []
    | some path =>
        recordEvent inet (str "audit") (request.username.getD (str "unknown"))
          (request.method ++ str " " ++ path) (detail limits request path status)
          request.clientIp

/-! ## What the database takes -/

def textTaken (s : Str) : Bool := jsonbTakes (.string (units s))

mutual

/-- Outside redacted fields there is no number that JSON does not have, and no text with a NUL
or with half a surrogate pair. -/
def clean : Value → Bool
  | .float f => jsonbTakes (floatPiece f)
  | .str s => textTaken s
  | .list items => cleanItems items
  | .dict fields => cleanFields fields
  | .null | .bool _ | .int _ => true

def cleanItems : List Value → Bool
  | [] => true
  | item :: items => clean item && cleanItems items

def cleanFields : List (Str × Value) → Bool
  | [] => true
  | (key, value) :: fields => textTaken key && (isRedacted key || clean value) && cleanFields fields

end

def taken (value : Value) : Bool := (dumps value).all jsonbTakes

section Taken

theorem taken_str (s : Str) : taken (.str s) = textTaken s := by
  simp [taken, dumps, textTaken]

theorem taken_list (items : List Value) : taken (.list items) = items.all taken := by
  have hitems : (dumpsItems items).all jsonbTakes = items.all taken := by
    induction items with
    | nil => rfl
    | cons item items ih =>
        rw [dumpsItems, List.all_append, List.all_append, ih, List.all_cons, taken]
        split_ifs <;> simp [jsonbTakes]
  rw [← hitems]
  simp [taken, dumps, jsonbTakes]

theorem taken_dict (fields : List (Str × Value)) :
    taken (.dict fields) = fields.all fun field => textTaken field.1 && taken field.2 := by
  have hfields : (dumpsFields fields).all jsonbTakes =
      fields.all fun field => textTaken field.1 && taken field.2 := by
    induction fields with
    | nil => rfl
    | cons field fields ih =>
        obtain ⟨key, value⟩ := field
        rw [dumpsFields, List.all_append, ih, List.all_cons]
        split_ifs <;> simp [taken, textTaken, jsonbTakes, Bool.and_assoc]
  rw [← hfields]
  simp [taken, dumps, jsonbTakes]

theorem cleanItems_eq (items : List Value) : cleanItems items = items.all clean := by
  induction items with
  | nil => rfl
  | cons item items ih => rw [cleanItems, ih, List.all_cons]

theorem cleanFields_eq (fields : List (Str × Value)) :
    cleanFields fields =
      fields.all fun field => textTaken field.1 && (isRedacted field.1 || clean field.2) := by
  induction fields with
  | nil => rfl
  | cons field fields ih => rw [cleanFields, ih, List.all_cons]

/-- The database takes what comes out of `_sanitise` just if what goes in is clean. -/
theorem taken_of_sanitise {calls : ℕ} {value sanitised : Value}
    (hsanitise : sanitise calls value = some sanitised) : taken sanitised = clean value := by
  induction calls generalizing value sanitised with
  | zero => cases hsanitise
  | succ calls ih =>
      cases value with
      | list items =>
          obtain ⟨items', hitems, rfl⟩ := Option.map_eq_some_iff.mp hsanitise
          rw [taken_list, clean, cleanItems_eq]
          exact Loop.all_of_mapM hitems fun _ _ h => ih h
      | dict fields =>
          obtain ⟨fields', hfields, rfl⟩ := Option.map_eq_some_iff.mp hsanitise
          rw [taken_dict, clean, cleanFields_eq]
          apply Loop.all_of_mapM hfields
          intro field field' hfield
          split_ifs at hfield with hredacted
          · obtain rfl := Option.some.inj hfield
            have hplaceholder : taken (.str (str "[redacted]")) := by decide +kernel
            simp [hredacted, hplaceholder]
          · obtain ⟨value, hvalue, rfl⟩ := Option.map_eq_some_iff.mp hfield
            simp [hredacted, ih hvalue]
      | _ =>
          obtain rfl := Option.some.inj hsanitise
          simp [taken, dumps, clean, textTaken, jsonbTakes]

end Taken

/-! ## Completeness -/

/-- The body is empty, cannot be read, or is clean. -/
def bodyTaken (limits : Limits) (body : List ℕ) : Bool :=
  body.isEmpty ||
    match loads limits.scan body with
    | none => true
    | some value => (sanitise limits.calls value).isNone || clean value

/-- What the row of a request needs: a URL that can be split, text without NUL, an address, and
a body that the database takes. -/
def recordable (limits : Limits) (inet : Str → Bool) (request : Request) : Bool :=
  request.path.any plain && plain (request.username.getD (str "unknown")) &&
    request.clientIp.all inet && bodyTaken limits request.body

section Completeness

variable {limits : Limits} {inet : Str → Bool} {request : Request} {status : ℤ}

theorem textTaken_of_plain {s : Str} (hs : plain s) : textTaken s := by
  have hzero := zero_not_mem_units hs
  simp [textTaken, jsonbTakes, paired_units hs, hzero]

theorem taken_requestBody (body : List ℕ) :
    taken (requestBody limits body) = bodyTaken limits body := by
  rw [requestBody, bodyTaken]
  by_cases hempty : body.isEmpty
  · simp only [hempty, if_true, Bool.true_or]
    rfl
  · simp only [hempty, if_false, Bool.false_or, Bool.false_eq_true, readBody]
    have hplaceholder : taken (.str (str "<non-json or binary>")) = true := by decide +kernel
    cases hloads : loads limits.scan body with
    | none => exact hplaceholder
    | some value =>
        simp only [Option.bind_some]
        cases hsanitise : sanitise limits.calls value with
        | none => exact hplaceholder
        | some sanitised => simp [taken_of_sanitise hsanitise]

theorem taken_of_isNull {value : Value} (hnull : isNull value) : taken value := by
  cases value with
  | null => rfl
  | _ => cases hnull

theorem taken_detail {path : Str} (hmethod : plain request.method) (hpath : plain path) :
    taken (detail limits request path status) = bodyTaken limits request.body := by
  have hkeys : textTaken (str "method") && textTaken (str "path") && textTaken (str "status") &&
      textTaken (str "request_body") := by
    decide +kernel
  simp only [Bool.and_eq_true] at hkeys
  obtain ⟨⟨⟨hmethodKey, hpathKey⟩, hstatusKey⟩, hbodyKey⟩ := hkeys
  have htakenMethod : taken (.str request.method) := by
    rw [taken_str]
    exact textTaken_of_plain hmethod
  have htakenPath : taken (.str path) := by
    rw [taken_str]
    exact textTaken_of_plain hpath
  have htakenStatus : taken (.int status) := rfl
  rw [← taken_requestBody, detail, taken_dict]
  by_cases hnull : isNull (requestBody limits request.body)
  · simp [hnull, hmethodKey, hpathKey, hstatusKey, htakenMethod, htakenPath, htakenStatus,
      taken_of_isNull hnull]
  · simp [hnull, hmethodKey, hpathKey, hstatusKey, hbodyKey, htakenMethod, htakenPath,
      htakenStatus]

theorem plain_append {s t : Str} : plain (s ++ t) = (plain s && plain t) := List.all_append

theorem plain_of_mutating {method : Str} (hmutating : method ∈ mutatingMethods) :
    plain method := by
  have hall : mutatingMethods.all plain := by decide +kernel
  exact List.all_eq_true.mp hall method hmutating

theorem length_recordEvent {source actor action : Str} {value : Value} {ip : Option Str} :
    (recordEvent inet source actor action value ip).length = 1 ↔
      plain source ∧ plain actor ∧ plain action ∧ taken value ∧ ip.all inet := by
  rw [recordEvent]
  split_ifs with h
  · simpa [taken, and_assoc] using h
  · simpa [taken, and_assoc] using h

/-- **The audit trail is complete for what the database takes.**  A mutating request that
succeeds has its row just if its URL can be split, its text has no NUL, its address is one, and
its body is empty, cannot be read, or is clean outside redacted fields. -/
theorem row_inserted_iff (hmutating : request.method ∈ mutatingMethods) (hstatus : status < 400) :
    (dispatch limits inet request status).length = 1 ↔ recordable limits inet request := by
  have hmethod := plain_of_mutating hmutating
  have hsource : plain (str "audit") := by decide +kernel
  have hspace : plain (str " ") := by decide +kernel
  rw [dispatch, if_neg (not_not.mpr hmutating), if_neg (not_le.mpr hstatus), recordable]
  cases hpath : request.path with
  | none => simp
  | some path =>
      dsimp only
      rw [length_recordEvent, plain_append, plain_append, hmethod, hspace]
      by_cases hplain : plain path
      · rw [taken_detail hmethod hplain]
        simp only [hsource, hplain, Bool.and_self, true_and, Option.any_some, Bool.true_and,
          Bool.and_eq_true]
        tauto
      · simp [hplain]

/-- No request has more than one row. -/
theorem length_dispatch_le (limits : Limits) (inet : Str → Bool) (request : Request)
    (status : ℤ) : (dispatch limits inet request status).length ≤ 1 := by
  have hrecord : ∀ source actor action value ip,
      (recordEvent inet source actor action value ip).length ≤ 1 := by
    intro source actor action value ip
    rw [recordEvent]
    split_ifs <;> simp
  rw [dispatch]
  split_ifs
  · simp
  · cases request.path with
    | none => simp
    | some path => exact hrecord _ _ _ _ _
  · simp

end Completeness

/-! ## A note that is not a number -/

def bytes (s : String) : List ℕ := s.toList.map Char.toNat

/-- An admin makes a group. -/
def groupRequest (body : String) : Request where
  method := str "POST"
  body := bytes body
  path := some (str "/api/groups")
  username := some (str "alice")
  clientIp := some (str "10.0.0.5")

def pythonLimits : Limits := ⟨1000, 900⟩

/-- A field that the handler ignores keeps the row out. -/
theorem nan_leaves_no_row :
    let request := groupRequest "\x7b\"name\": \"blue\", \"note\": NaN\x7d"
    request.body ≠ [] ∧ request.method ∈ mutatingMethods ∧
      (dispatch pythonLimits (fun _ => true) request 200).length = 0 := by
  decide +kernel

theorem group_leaves_row :
    (dispatch pythonLimits (fun _ => true)
      (groupRequest "\x7b\"name\": \"blue\", \"password\": NaN\x7d") 200).length = 1 := by
  apply (row_inserted_iff _ _).mpr
  · decide +kernel
  · decide +kernel
  · decide

end FastTAK.Monitor
