import FastTAK.Base.Latest
import FastTAK.Base.Like
import FastTAK.Identity.HiddenPrefixes
import FastTAK.Monitor.Events

/-!
# Contacts and clients with their positions

The positions of `cot_router` joined with the rosters of the TAK Server: `/api/tak/contacts/recent`
goes from the positions to the roster, `/api/tak/clients` from the subscriptions to the positions.
-/

namespace FastTAK.Contacts

open FastTAK.Events FastTAK.Identity FastTAK.Latest FastTAK.Like FastTAK.PyJson FastTAK.Text

/-- A text of the `cot` database. -/
abbrev Bytes := List (Fin 256)

/-- UTF-8, in which parameters go to the database. -/
def encode (text : String) : Bytes := text.toByteArray.data.toList.map UInt8.toFin

/-! ## Details -/

inductive Element
  | mk (tag : String) (attrib : List (String × String)) (children : List Element)

def Element.tag : Element → String
  | mk tag _ _ => tag

def Element.get (key : String) : Element → Option String
  | mk _ attrib _ => (attrib.find? fun pair => pair.1 = key).map Prod.snd

mutual

/-- The element and those under it, in the order of the document. -/
def iter : Element → List Element
  | .mk tag attrib children => .mk tag attrib children :: iterAll children

def iterAll : List Element → List Element
  | [] => []
  | element :: elements => iter element ++ iterAll elements

end

/-- `root if root.tag == tag else root.find(".//" + tag)`. -/
def findTag (tag : String) (root : Element) : Option Element :=
  (iter root).find? fun element => element.tag = tag

/-- `_decode` and what `ET.fromstring` makes of a text, if it is well formed. -/
structure Reading where
  decode : Bytes → String
  decode_encode : ∀ text, decode (encode text) = text
  fromstring : String → Option Element

/-- Valid texts are read, and no XML. -/
instance : Inhabited Reading where
  default :=
    { decode := fun bytes => (String.fromUTF8? ⟨(bytes.map UInt8.ofFin).toArray⟩).getD ""
      decode_encode := by
        intro text
        have hbytes : (encode text).map UInt8.ofFin = text.toByteArray.data.toList := by
          simp [encode, Function.comp_def]
        have harray : (⟨text.toByteArray.data.toList.toArray⟩ : ByteArray) = text.toByteArray := by
          simp
        rw [hbytes, harray, String.fromUTF8?]
        simp [text.isValidUTF8, String.fromUTF8]
      fromstring := fun _ => none }

/-- A value that an `if` takes. -/
def truthy (text : Option String) : Option String := text.filter (· ≠ "")

structure Detail where
  callsign : Option String
  endpoint : Option String
  team : Option String
  role : Option String

def Detail.none : Detail := ⟨Option.none, Option.none, Option.none, Option.none⟩

def detailOf (root : Element) : Detail where
  callsign := (findTag "contact" root).bind fun contact => truthy (contact.get "callsign")
  endpoint := (findTag "contact" root).bind fun contact => truthy (contact.get "endpoint")
  team := (findTag "__group" root).bind fun group => truthy (group.get "name")
  role := (findTag "__group" root).bind fun group => truthy (group.get "role")

/-- `_parse_detail`. -/
def parseDetail (reading : Reading) : Option Bytes → Detail
  | some (byte :: bytes) =>
      ((reading.fromstring (reading.decode (byte :: bytes))).map detailOf).getD .none
  | _ => .none

/-! ## Positions -/

/-- A row of `cot_router`, where the coordinates are numbers of some kind. -/
structure CotRow (ν : Type) where
  uid : Bytes
  lat : Option ν
  lon : Option ν
  hae : Option ν
  servertime : Timestamp
  cotType : Bytes
  detail : Option Bytes

structure Position (ν : Type) where
  uid : String
  lat : Option ν
  lon : Option ν
  hae : Option ν
  servertime : List Char
  cotType : String

variable {ν : Type}

/-- `_row_to_position`. -/
def rowToPosition (reading : Reading) (row : CotRow ν) : Position ν where
  uid := reading.decode row.uid
  lat := row.lat
  lon := row.lon
  hae := row.hae
  servertime := row.servertime.isoformat
  cotType := reading.decode row.cotType

def CotRow.time (row : CotRow ν) : ℕ := row.servertime.key

/-- `SELECT DISTINCT ON (uid) … ORDER BY uid, servertime DESC`. -/
def newestOf (rows : List (CotRow ν)) : List (CotRow ν) := distinctOn CotRow.uid CotRow.time rows

/-- A dict that is filled in the order of the list. -/
def lookup {β : Type} (pairs : List (String × β)) (key : String) : Option β :=
  (pairs.reverse.find? fun pair => pair.1 = key).map Prod.snd

/-- `get_lkp_for_uids`, where there is no table if the query fails. -/
def getLkpForUids (reading : Reading) (table : Option (List (CotRow ν))) (uids : List String) :
    List (String × Position ν) :=
  if uids = [] then []
  else
    let wanted := uids.map encode
    let rows := (table.map fun rows => newestOf (rows.filter fun row => row.uid ∈ wanted)).getD []
    rows.map fun row => (reading.decode row.uid, rowToPosition reading row)

/-- The letters of `ILIKE` in `SQL_ASCII`. -/
def ascii : Alphabet (Fin 256) where
  many := 37
  one := 95
  escape := 92
  fold := fun c => if 65 ≤ c ∧ c ≤ 90 then c + 32 else c

/-- A row that is not too old and of one of the types. -/
def isRecent (now : Timestamp) (maxAge : ℤ) (prefixes : List String)
    (row : CotRow ν) : Bool :=
  (now.key : ℤ) - maxAge * 1000000 ≤ row.time &&
    (prefixes.map fun p => encode (p ++ "%")).any fun pattern =>
      ascii.ilike pattern row.cotType

/-- `get_recent_lkp`, with the positions and the details. -/
def getRecentLkp (reading : Reading) (now : Timestamp) (table : Option (List (CotRow ν)))
    (maxAge : ℤ) (prefixes : List String) : Option (List (Position ν × Detail)) :=
  if prefixes = [] then some []
  else
    table.map fun rows =>
      (newestOf (rows.filter (isRecent now maxAge prefixes))).map fun row =>
        (rowToPosition reading row, parseDetail reading row.detail)

/-! ## The rosters -/

/-- An entry of `/Marti/api/contacts/all`. -/
structure Contact extends MartiEntry where
  uid : Option String
  callsign : Option String
  team : Option String
  role : Option String
  takv : Option Value
  filterGroups : Option Value

/-- An entry of `/Marti/api/subscriptions/all`, with what else is in it. -/
structure Client extends MartiEntry where
  uid : Option String
  others : List (Str × Value)

structure Settings where
  lowering : Lowering
  usersHiddenPrefixes : String
  lkpCotTypePrefixes : String
  lkpRequireTakClient : Bool

/-- `lkp_cot_type_prefixes_list`, which is made like `_hidden_prefixes()`. -/
def Settings.lkpCotTypePrefixesList (settings : Settings) : List String :=
  (hiddenPrefixes settings.lowering settings.lkpCotTypePrefixes).map String.ofList

def Settings.hides (settings : Settings) (entry : MartiEntry) : Bool :=
  isServiceAccount settings.lowering settings.usersHiddenPrefixes entry

/-- `contacts_by_uid`. -/
def contactsByUid (contacts : List Contact) : List (String × Contact) :=
  contacts.filterMap fun contact => (truthy contact.uid).map fun uid => (uid, contact)

structure RecentContact (ν : Type) where
  uid : String
  callsign : Option String
  team : Option String
  role : Option String
  takv : Option Value
  filterGroups : Option Value
  notes : Option String
  lkp : Position ν

def recentContact (contact : Option Contact) (detail : Detail) (position : Position ν) :
    RecentContact ν where
  uid := position.uid
  callsign := (contact.bind fun c => truthy c.callsign).or detail.callsign
  team := (contact.bind fun c => truthy c.team).or detail.team
  role := (contact.bind fun c => truthy c.role).or detail.role
  takv := contact.bind Contact.takv
  filterGroups := contact.bind Contact.filterGroups
  notes := contact.bind fun c => c.notes
  lkp := position

/-- The loop over the positions. -/
def contactRows (settings : Settings) (includeService requireTakClient : Bool)
    (byUid : List (String × Contact)) : List (Position ν × Detail) → List (RecentContact ν)
  | [] => []
  | (position, detail) :: positions =>
      let rest := contactRows settings includeService requireTakClient byUid positions
      let contact := lookup byUid position.uid
      if !includeService && contact.any fun c => settings.hides c.toMartiEntry then rest
      else if requireTakClient && contact.isNone && detail.endpoint.isNone then rest
      else recentContact contact detail position :: rest

/-- `_build_recent_contacts_response`, where there is no roster if no client is configured. -/
def buildRecentContacts (settings : Settings) (reading : Reading) (now : Timestamp)
    (table : Option (List (CotRow ν))) (roster : Option (List Contact)) (maxAge : Option ℤ)
    (includeService : Bool) (requireTakClient : Option Bool) : Option (List (RecentContact ν)) :=
  (getRecentLkp reading now table (maxAge.getD 86400) settings.lkpCotTypePrefixesList).map
    (contactRows settings includeService (requireTakClient.getD settings.lkpRequireTakClient)
      (contactsByUid (roster.getD [])))

/-- A client and, if it was asked for, its position. -/
structure ClientEntry (ν : Type) where
  client : Client
  lkp : Option (Option (Position ν))

/-- `_build_clients_response` of the clients that the TAK Server lists. -/
def buildClients (settings : Settings) (reading : Reading) (table : Option (List (CotRow ν)))
    (clients : List Client) (includeLkp includeService : Bool) : List (ClientEntry ν) :=
  let kept := if includeService then clients
    else clients.filter fun client => !settings.hides client.toMartiEntry
  if includeLkp then
    let positions := getLkpForUids reading table (kept.filterMap fun client => truthy client.uid)
    kept.map fun client => ⟨client, some (client.uid.bind (lookup positions))⟩
  else kept.map fun client => ⟨client, none⟩

/-! ## What is shown -/

/-- A row is shown unless its user is a hidden service account in the roster, or it is neither in
the roster nor from a client with an endpoint while that is asked for. -/
def shown (settings : Settings) (reading : Reading) (includeService requireTakClient : Bool)
    (byUid : List (String × Contact)) (row : CotRow ν) : Bool :=
  (includeService || (lookup byUid (reading.decode row.uid)).all fun c =>
      !settings.hides c.toMartiEntry) &&
    (!requireTakClient || (lookup byUid (reading.decode row.uid)).isSome ||
      (parseDetail reading row.detail).endpoint.isSome)

/-- What is shown of a row. -/
def shownAs (reading : Reading) (byUid : List (String × Contact)) (row : CotRow ν) :
    RecentContact ν :=
  recentContact (lookup byUid (reading.decode row.uid)) (parseDetail reading row.detail)
    (rowToPosition reading row)

/-- One of the latest rows of the client, if it has a uid and there is a row of it. -/
inductive LatestOf (reading : Reading) (rows : List (CotRow ν)) (uid : Option String) :
    Option (Position ν) → Prop
  | none : (∀ name, truthy uid = some name → ∀ row ∈ rows, row.uid ≠ encode name) →
      LatestOf reading rows uid none
  | some {name : String} {row : CotRow ν} : truthy uid = some name → row ∈ rows →
      row.uid = encode name →
      (∀ other ∈ rows, other.uid = row.uid → other.time ≤ row.time) →
      LatestOf reading rows uid (some (rowToPosition reading row))

section Shown

variable {settings : Settings} {reading : Reading} {includeService requireTakClient : Bool}
  {byUid : List (String × Contact)} {rows : List (CotRow ν)} {row : CotRow ν} {name : String}

theorem contactRows_map (chosen : List (CotRow ν)) :
    contactRows settings includeService requireTakClient byUid
        (chosen.map fun row => (rowToPosition reading row, parseDetail reading row.detail)) =
      (chosen.filter (shown settings reading includeService requireTakClient byUid)).map
        (shownAs reading byUid) := by
  induction chosen with
  | nil => rfl
  | cons row chosen ih =>
      have huid : (rowToPosition reading row).uid = reading.decode row.uid := rfl
      rw [List.map_cons, contactRows, ih, huid]
      by_cases hservice : (!includeService && (lookup byUid (reading.decode row.uid)).any fun c =>
          settings.hides c.toMartiEntry) = true
      · have hshown :
            shown settings reading includeService requireTakClient byUid row = false := by
          rw [Bool.and_eq_true, Bool.not_eq_true', Option.any_eq_true] at hservice
          obtain ⟨hinclude, contact, hcontact, hhides⟩ := hservice
          simp [shown, hinclude, hcontact, hhides]
        rw [if_pos hservice, List.filter_cons_of_neg (by simp [hshown])]
      · have hkept : (includeService || (lookup byUid (reading.decode row.uid)).all fun c =>
            !settings.hides c.toMartiEntry) = true := by
          cases includeService with
          | true => rfl
          | false =>
              cases hcontact : lookup byUid (reading.decode row.uid) with
              | none => rfl
              | some contact => simpa [hcontact] using hservice
        rw [if_neg hservice]
        by_cases hgate : (requireTakClient && (lookup byUid (reading.decode row.uid)).isNone &&
            (parseDetail reading row.detail).endpoint.isNone) = true
        · have hshown :
              shown settings reading includeService requireTakClient byUid row = false := by
            rw [Bool.and_eq_true, Bool.and_eq_true, Option.isNone_iff_eq_none,
              Option.isNone_iff_eq_none] at hgate
            simp [shown, hgate]
          rw [if_pos hgate, List.filter_cons_of_neg (by simp [hshown])]
        · have hshown :
              shown settings reading includeService requireTakClient byUid row = true := by
            rw [shown, hkept, Bool.true_and]
            rw [Bool.not_eq_true, Bool.and_eq_false_iff, Bool.and_eq_false_iff,
              Option.isNone_eq_false_iff, Option.isNone_eq_false_iff] at hgate
            rcases hgate with (hgate | hgate) | hgate
            · rw [hgate]
              rfl
            · rw [hgate, Bool.or_true]
              rfl
            · rw [hgate, Bool.or_true]
          rw [if_neg hgate, List.filter_cons_of_pos hshown, List.map_cons]
          rfl

theorem encode_append (text rest : String) :
    encode (text ++ rest) = encode text ++ encode rest := by
  simp [encode, String.toByteArray_append]

/-- The types that are asked for begin with one of the prefixes, whatever the case. -/
theorem isRecent_iff {now : Timestamp} {maxAge : ℤ} {prefixes : List String}
    (hplain : ∀ p ∈ prefixes, ascii.IsPlain (encode p)) (row : CotRow ν) :
    isRecent now maxAge prefixes row = true ↔
      (now.key : ℤ) - maxAge * 1000000 ≤ row.time ∧
        ∃ p ∈ prefixes, (encode p).map ascii.fold <+: row.cotType.map ascii.fold := by
  have hpercent : encode "%" = [ascii.many] := by decide
  rw [isRecent, Bool.and_eq_true, decide_eq_true_iff, List.any_map, List.any_eq_true]
  apply and_congr_right'
  apply exists_congr
  intro p
  apply and_congr_right
  intro hp
  rw [Function.comp_apply, encode_append, hpercent, ilike_plain_many (hplain p hp)]

/-- The answer has one of the latest of the recent rows for each uid, less those that are not
shown. -/
theorem buildRecentContacts_latest (settings : Settings) (reading : Reading) (now : Timestamp)
    (rows : List (CotRow ν)) (roster : Option (List Contact)) (maxAge : Option ℤ)
    (includeService : Bool) (requireTakClient : Option Bool) :
    ∃ chosen,
      IsLatest CotRow.uid CotRow.time (rows.filter (isRecent now (maxAge.getD 86400)
        settings.lkpCotTypePrefixesList)) chosen ∧
      buildRecentContacts settings reading now (some rows) roster maxAge includeService
          requireTakClient =
        some ((chosen.filter (shown settings reading includeService
          (requireTakClient.getD settings.lkpRequireTakClient)
          (contactsByUid (roster.getD [])))).map
            (shownAs reading (contactsByUid (roster.getD [])))) := by
  have hlatest := isLatest_distinctOn CotRow.uid CotRow.time (rows.filter (isRecent now
    (maxAge.getD 86400) settings.lkpCotTypePrefixesList))
  refine ⟨_, hlatest, ?_⟩
  rw [buildRecentContacts, getRecentLkp, ← contactRows_map]
  split_ifs with hnone
  · have hrows : rows.filter (isRecent now (maxAge.getD 86400)
        settings.lkpCotTypePrefixesList) = [] := by
      rw [List.filter_eq_nil_iff]
      intro row _
      simp [isRecent, hnone]
    rw [hrows]
    rfl
  · rfl

theorem mem_of_lookup {β : Type} {pairs : List (String × β)} {key : String} {value : β}
    (h : lookup pairs key = some value) : (key, value) ∈ pairs := by
  obtain ⟨pair, hpair, rfl⟩ := Option.map_eq_some_iff.mp h
  have hkey := List.find?_some hpair
  rw [← of_decide_eq_true hkey]
  exact List.mem_reverse.mp (List.mem_of_find?_eq_some hpair)

theorem lookup_eq_none {β : Type} {pairs : List (String × β)} {key : String} :
    lookup pairs key = none ↔ ∀ pair ∈ pairs, pair.1 ≠ key := by
  simp [lookup]

/-- The position that is found for one of the uids asked for. -/
theorem latestOf_lookup {uids : List String} {uid : Option String}
    (huids : ∀ name, truthy uid = some name → name ∈ uids) (hne : "" ∉ uids) :
    LatestOf reading rows uid (uid.bind (lookup (getLkpForUids reading (some rows) uids))) := by
  have hlatest := isLatest_distinctOn CotRow.uid CotRow.time
    (rows.filter fun row => row.uid ∈ uids.map encode)
  have hmem : ∀ pair ∈ getLkpForUids reading (some rows) uids,
      ∃ row ∈ newestOf (rows.filter fun row => row.uid ∈ uids.map encode),
        pair = (reading.decode row.uid, rowToPosition reading row) := by
    intro pair hpair
    rw [getLkpForUids] at hpair
    split_ifs at hpair
    · cases hpair
    · obtain ⟨row, hrow, rfl⟩ := List.mem_map.mp hpair
      exact ⟨row, hrow, rfl⟩
  cases hfound : uid.bind (lookup (getLkpForUids reading (some rows) uids)) with
  | none =>
      apply LatestOf.none
      intro name hname row hrow heq
      have hwanted : row ∈ rows.filter fun row => row.uid ∈ uids.map encode := by
        rw [List.mem_filter]
        exact ⟨hrow, decide_eq_true (heq ▸ List.mem_map_of_mem (huids name hname))⟩
      obtain ⟨found, hchosen, hsame⟩ := hlatest.complete row hwanted
      have hpositions : (reading.decode found.uid, rowToPosition reading found) ∈
          getLkpForUids reading (some rows) uids := by
        rw [getLkpForUids, if_neg (List.ne_nil_of_mem (huids name hname))]
        exact List.mem_map_of_mem hchosen
      have huid : uid = some name := (Option.filter_eq_some_iff.mp hname).1
      rw [huid, Option.bind_some, lookup_eq_none] at hfound
      apply hfound _ hpositions
      rw [hsame, heq, reading.decode_encode]
  | some position =>
      obtain ⟨name, rfl, hlookup⟩ := Option.bind_eq_some_iff.mp hfound
      obtain ⟨row, hchosen, heq⟩ := hmem _ (mem_of_lookup hlookup)
      obtain ⟨rfl, rfl⟩ := Prod.mk.inj heq
      obtain ⟨hrow, hwanted⟩ := List.mem_filter.mp (hlatest.mem row hchosen)
      obtain ⟨asked, hasked, hencode⟩ := List.mem_map.mp (of_decide_eq_true hwanted)
      have hdecode : reading.decode row.uid = asked := by rw [← hencode, reading.decode_encode]
      have hname : truthy (some (reading.decode row.uid)) = some asked := by
        rw [hdecode, truthy, Option.filter_some, if_pos]
        exact decide_eq_true fun hempty => hne (hempty ▸ hasked)
      apply LatestOf.some hname hrow hencode.symm
      intro other hother hsame
      apply hlatest.latest row hchosen other _ hsame
      rw [List.mem_filter, hsame]
      exact ⟨hother, hwanted⟩

/-- Every client that is listed has its latest position, if it has one. -/
theorem buildClients_latest (settings : Settings) (reading : Reading) (rows : List (CotRow ν))
    (clients : List Client) (includeService : Bool) :
    (buildClients settings reading (some rows) clients true includeService).map
        ClientEntry.client =
      clients.filter (fun client => includeService || !settings.hides client.toMartiEntry) ∧
    ∀ entry ∈ buildClients settings reading (some rows) clients true includeService,
      ∃ lkp, entry.lkp = some lkp ∧ LatestOf reading rows entry.client.uid lkp := by
  have hkept : (if includeService then clients
      else clients.filter fun client => !settings.hides client.toMartiEntry) =
      clients.filter (fun client => includeService || !settings.hides client.toMartiEntry) := by
    cases includeService <;> simp
  rw [buildClients, hkept]
  constructor
  · rw [if_pos rfl, List.map_map]
    exact List.map_id _
  · rw [if_pos rfl]
    intro entry hentry
    obtain ⟨client, hclient, rfl⟩ := List.mem_map.mp hentry
    refine ⟨_, rfl, latestOf_lookup ?_ ?_⟩
    · intro name hname
      exact List.mem_filterMap.mpr ⟨client, hclient, hname⟩
    · intro hempty
      obtain ⟨other, -, hother⟩ := List.mem_filterMap.mp hempty
      exact absurd (Option.filter_eq_some_iff.mp hother).2 (by simp)

end Shown

end FastTAK.Contacts
