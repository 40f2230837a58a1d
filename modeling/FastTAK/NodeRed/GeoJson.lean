import FastTAK.Backup.Names
import FastTAK.NodeRed.Js

/-!
# GeoJSON to CoT

The subflow at the end of every pipeline: each feature of a payload that can be drawn becomes a CoT
event.  `none` is an exception.
-/

namespace FastTAK.NodeRed.GeoJson

open FastTAK.Backup

/-! ## Numbers and names -/

/-- The characters of a number's text. -/
def isNumeral (s : String) : Bool := s.toList.all fun c => c.isAlphanum || c ∈ ['+', '-', '.']

/-- What JavaScript makes of numbers, given by the text that `String` makes of each, and of a name
that a value has no property of its own for.  A function is given by its text. -/
structure Runtime where
  number : String → String
  add : String → String → String
  divide : String → ℕ → String
  below : String → ℕ → Bool
  inherited : Js → String → Js
  number_numeral : ∀ s, isNumeral (number s)
  add_numeral : ∀ s t, isNumeral (add s t)
  divide_numeral : ∀ s n, isNumeral (divide s n)
  inherited_text : ∀ x name, (inherited x name).text.isSome

/-- `x[name]`. -/
def member (rt : Runtime) (name : String) (x : Js) : Js :=
  match x with
  | .obj fields => (fields.lookup name).getD (rt.inherited x name)
  | _ => rt.inherited x name

/-- `Number(x)`. -/
def numberOf (rt : Runtime) : Js → Option String
  | .undefined => some "NaN"
  | .null => some "0"
  | .bool b => some (if b then "1" else "0")
  | .num text => some text
  | x => x.text.map rt.number

/-- `Number.isFinite`. -/
def isFinite (n : String) : Bool := n ∉ ["NaN", "Infinity", "-Infinity"]

/-- `num(v, null)`. -/
def finiteOf (rt : Runtime) (v : Js) : Option (Option String) :=
  (numberOf rt v).map fun n => if isFinite n then some n else none

/-- `num`. -/
def num (rt : Runtime) (v : Js) (fallback : String) : Option String :=
  (finiteOf rt v).map fun n => n.getD fallback

/-! ## Dates -/

/-- The white space that `parseInt` skips. -/
def isSpace (c : Char) : Bool :=
  c.toNat ∈ [9, 10, 11, 12, 13, 32, 0xa0, 0x1680, 0x2028, 0x2029, 0x202f, 0x205f, 0x3000, 0xfeff] ||
    (0x2000 ≤ c.toNat && c.toNat ≤ 0x200a)

def digitsValue (digits : List Char) : ℕ :=
  digits.foldl (fun n c => 10 * n + (c.toNat - '0'.toNat)) 0

/-- `parseInt(s, 10)`, if it is a number. -/
def parseInt (s : String) : Option ℤ :=
  let text := s.toList.dropWhile isSpace
  let negative := text.head? = some '-'
  let digits := (if negative || text.head? = some '+' then text.tail else text).takeWhile Char.isDigit
  if digits = [] then none
  else some (if negative then -(digitsValue digits : ℤ) else digitsValue digits)

/-- The year, month and day that are so many days after 1970-01-01. -/
def civil (days : ℤ) : ℤ × ℕ × ℕ :=
  let z := days + 719468
  let era := z / 146097
  let doe := (z % 146097).toNat
  let yoe := (doe - doe / 1460 + doe / 36524 - doe / 146096) / 365
  let doy := doe - (365 * yoe + yoe / 4 - yoe / 100)
  let mp := (5 * doy + 2) / 153
  let month := if mp < 10 then mp + 3 else mp - 9
  (era * 400 + yoe + (if month ≤ 2 then 1 else 0), month, doy - (153 * mp + 2) / 5 + 1)

def yearText (year : ℤ) : List Char :=
  if 0 ≤ year ∧ year ≤ 9999 then digitsOf 4 year.toNat
  else (if year < 0 then '-' else '+') :: digitsOf 6 year.natAbs

/-- `iso`. -/
def iso (ms : ℤ) : Option (List Char) :=
  if ms.natAbs ≤ 8640000000000000 then
    let date := civil (ms / 86400000)
    let time := (ms % 86400000).toNat
    some (yearText date.1 ++ '-' :: (digitsOf 2 date.2.1 ++ '-' :: (digitsOf 2 date.2.2 ++
      'T' :: (digitsOf 2 (time / 3600000) ++ ':' :: (digitsOf 2 (time / 60000 % 60) ++
        ':' :: (digitsOf 2 (time / 1000 % 60) ++ '.' :: (digitsOf 3 (time % 1000) ++ ['Z'])))))))
  else none

/-! ## Settings -/

structure Config where
  cotType : String
  uidPrefix : String
  staleSeconds : String
  callsignProp : String
  remarksProp : String
  altitudeProp : String
  speedProp : String
  courseProp : String

/-- The settings of an environment, in which a variable that is not set is empty. -/
def Config.ofEnv (env : String → String) : Config :=
  let get := fun name fallback => if env name = "" then fallback else env name
  { cotType := get "COT_TYPE" "a-u-G"
    uidPrefix := get "UID_PREFIX" "geojson"
    staleSeconds := get "STALE_SECONDS" "300"
    callsignProp := get "CALLSIGN_PROP" "name"
    remarksProp := get "REMARKS_PROP" "description"
    altitudeProp := get "ALTITUDE_PROP" ""
    speedProp := get "SPEED_PROP" ""
    courseProp := get "COURSE_PROP" "" }

/-! ## Events -/

structure Link where
  lat : String
  lon : String
  hae : String
deriving DecidableEq

/-- What an event has in its detail, besides the callsign and the remarks. -/
inductive Drawing
  | marker (track : Option (String × String))
  | shape (links : List Link)

structure Cot where
  uid : String
  type : String
  lat : String
  lon : String
  hae : String
  callsign : String
  remarks : String
  drawing : Drawing

def escapeChar (c : Char) : List Char :=
  if c = '<' then "&lt;".toList
  else if c = '>' then "&gt;".toList
  else if c = '&' then "&amp;".toList
  else if c = '"' then "&quot;".toList
  else if c = '\'' then "&apos;".toList
  else [c]

/-- `xmlEsc` of a string. -/
def xmlEsc (s : String) : List Char := s.toList.flatMap escapeChar

def renderLink (link : Link) : List Char :=
  "<link point=\"".toList ++ link.lat.toList ++ ",".toList ++ link.lon.toList ++ ",".toList ++
    link.hae.toList ++ "\"/>".toList

def renderTrack : Option (String × String) → List Char
  | none => []
  | some (course, speed) =>
      "<track course=\"".toList ++ course.toList ++ "\" speed=\"".toList ++ speed.toList ++
        "\"/>".toList

/-- The detail up to the remarks. -/
def renderDetail (cot : Cot) : List Char :=
  match cot.drawing with
  | .marker track =>
      "<contact callsign=\"".toList ++ xmlEsc cot.callsign ++ "\"/>".toList ++ renderTrack track
  | .shape links =>
      links.flatMap renderLink ++ "<strokeColor value=\"-65536\"/>".toList ++
        "<strokeWeight value=\"2.0\"/>".toList ++ "<fillColor value=\"1073741824\"/>".toList ++
        "<labels_on value=\"true\"/>".toList ++ "<contact callsign=\"".toList ++
        xmlEsc cot.callsign ++ "\"/>".toList

def render (now stale : List Char) (cot : Cot) : List Char :=
  "<?xml version=\"1.0\" encoding=\"UTF-8\" standalone=\"yes\"?>\n".toList ++
    "<event version=\"2.0\" uid=\"".toList ++ xmlEsc cot.uid ++ "\" type=\"".toList ++
    xmlEsc cot.type ++ "\" how=\"m-g\" time=\"".toList ++ now ++ "\" start=\"".toList ++ now ++
    "\" stale=\"".toList ++ stale ++ "\"><point lat=\"".toList ++ cot.lat.toList ++
    "\" lon=\"".toList ++ cot.lon.toList ++ "\" hae=\"".toList ++ cot.hae.toList ++
    "\" ce=\"9999999.0\" le=\"9999999.0\"/><detail>".toList ++ renderDetail cot ++
    "<remarks>".toList ++ xmlEsc cot.remarks ++ "</remarks></detail></event>".toList

/-! ## Features -/

def isString (s : String) : Js → Bool
  | .str t => s == t
  | _ => false

def propertiesOf (feature : Js) : Js := (feature.prop "properties").orElse (.obj [])

/-- The id that `stableUid` takes. -/
def idOf (feature : Js) (idx : ℕ) : Js :=
  let properties := feature.prop "properties"
  if !(feature.prop "id").isNullish then feature.prop "id"
  else if properties.truthy && !(properties.prop "id").isNullish then properties.prop "id"
  else .num (toString idx)

def stableUid (config : Config) (feature : Js) (idx : ℕ) : Option String :=
  (idOf feature idx).text.map fun id => config.uidPrefix ++ "-" ++ id

/-- `props[name] || ''` as text. -/
def label (rt : Runtime) (name : String) (props : Js) : Option String :=
  ((member rt name props).orElse (.str "")).text

/-- A speed or a course, if it is there and finite. -/
def tracked (rt : Runtime) (name : String) (props : Js) : Option (Option String) :=
  if name = "" || (member rt name props).isNullish then some none
  else finiteOf rt (member rt name props)

/-- `trackElement`: course and speed. -/
def trackElement (rt : Runtime) (config : Config) (props : Js) :
    Option (Option (String × String)) := do
  let speed ← tracked rt config.speedProp props
  let course ← tracked rt config.courseProp props
  return if speed.isNone && course.isNone then none else some (course.getD "0", speed.getD "0")

/-- `hae` of a point. -/
def haeOf (rt : Runtime) (config : Config) (props : Js) (coordHae : String) : Option String :=
  if config.altitudeProp = "" then some coordHae
  else num rt (member rt config.altitudeProp props) coordHae

/-- `pointCot` from the height on. -/
def placedCot (rt : Runtime) (config : Config) (feature : Js) (idx : ℕ) (coords : Js)
    (lon lat : String) : Option Cot := do
  let coordHae ← num rt (coords.item 2) "0"
  let props := propertiesOf feature
  let hae ← haeOf rt config props coordHae
  let callsign ← label rt config.callsignProp props
  let remarks ← label rt config.remarksProp props
  let uid ← stableUid config feature idx
  let track ← trackElement rt config props
  return ⟨uid, config.cotType, lat, lon, hae, callsign, remarks, .marker track⟩

def pointCot (rt : Runtime) (config : Config) (feature : Js) (idx : ℕ) : Option (Option Cot) :=
  let coords := (feature.prop "geometry").prop "coordinates"
  if coords.isNullish then none
  else do
    match ← finiteOf rt (coords.item 0), ← finiteOf rt (coords.item 1) with
    | some lon, some lat => return some (← placedCot rt config feature idx coords lon lat)
    | _, _ => return none

/-! ## Shapes -/

/-- `===`, where two objects are never the same one. -/
def strictEq : Js → Js → Bool
  | .undefined, .undefined => true
  | .null, .null => true
  | .bool a, .bool b => a == b
  | .num a, .num b => a == b
  | .str a, .str b => a == b
  | _, _ => false

/-- What a loop over the vertices visits. -/
def vertexList : Js → Option (List Js)
  | .arr items => some items
  | .str s => some (s.toList.map fun c => .str (String.singleton c))
  | _ => none

/-- The `length` of what can be looped over. -/
def lengthOf : Js → ℕ
  | .arr items => items.length
  | .str s => Js.units s
  | _ => 0

/-- `closed`.  The first and the last character of a text are code units. -/
def closed : Js → Option Bool
  | .arr items => do
      let first ← items.head?
      let last ← items.getLast?
      if items.length ≤ 1 then return false
      else if first.isNullish || last.isNullish then none
      else
        return strictEq (first.item 0) (last.item 0) && strictEq (first.item 1) (last.item 1)
  | .str s =>
      some (decide (1 < Js.units s ∧ s.toList.head? = s.toList.getLast? ∧
        s.toList.head?.all fun c => c.toNat < 0x10000))
  | _ => none

def linkOf (rt : Runtime) (v : Js) : Option Link :=
  if v.isNullish then none
  else do
    let lon ← num rt (v.item 0) "0"
    let lat ← num rt (v.item 1) "0"
    let hae ← num rt (v.item 2) "0"
    return ⟨lat, lon, hae⟩

/-- The mean of the ring. -/
def mean (rt : Runtime) (values : List String) (length : ℕ) : String :=
  rt.divide (values.foldl rt.add "0") length

def shapeType (cotType : String) : String :=
  if "u-d".toList <+: cotType.toList then cotType else "u-d-f"

def shapeCot (rt : Runtime) (config : Config) (feature : Js) (idx : ℕ) (vertices : Js) :
    Option Cot := do
  let isClosed ← closed vertices
  let links ← (← vertexList vertices).mapM (linkOf rt)
  let ring := if isClosed then links.dropLast else links
  let length := if isClosed then lengthOf vertices - 1 else lengthOf vertices
  let props := propertiesOf feature
  let callsign ← label rt config.callsignProp props
  let remarks ← label rt config.remarksProp props
  let uid ← stableUid config feature idx
  return ⟨uid, shapeType config.cotType, mean rt (ring.map (·.lat)) length,
    mean rt (ring.map (·.lon)) length, "0", callsign, remarks, .shape links⟩

/-- `vertices.length < k`. -/
def shorter (rt : Runtime) (k : ℕ) : Js → Option Bool
  | .arr items => some (items.length < k)
  | .str s => some (Js.units s < k)
  | .obj fields => (numberOf rt ((Js.obj fields).prop "length")).map fun n => rt.below n k
  | _ => some false

/-- `(geom.coordinates && geom.coordinates[0]) || []`. -/
def ringOf (geom : Js) : Js :=
  let coords := geom.prop "coordinates"
  if coords.truthy then (coords.item 0).orElse (.arr []) else .arr []

/-- `geom.coordinates || []`. -/
def lineOf (geom : Js) : Js := (geom.prop "coordinates").orElse (.arr [])

def shapeOf (rt : Runtime) (config : Config) (feature : Js) (idx k : ℕ) (vertices : Js) :
    Option (Option Cot) := do
  if ← shorter rt k vertices then return none
  else return some (← shapeCot rt config feature idx vertices)

def buildCot (rt : Runtime) (config : Config) (feature : Js) (idx : ℕ) : Option (Option Cot) :=
  let geom := feature.prop "geometry"
  if !feature.truthy || !geom.truthy then some none
  else if isString "Point" (geom.prop "type") then pointCot rt config feature idx
  else if isString "Polygon" (geom.prop "type") then
    shapeOf rt config feature idx 3 (ringOf geom)
  else if isString "LineString" (geom.prop "type") then
    shapeOf rt config feature idx 2 (lineOf geom)
  else some none

/-! ## The node -/

structure Message where
  payload : List Char
  topic : String

/-- The features of a payload.  `none` if `features` is there and no list: then the payload is no
collection. -/
def featuresOf (payload : Js) : Option (List Js) :=
  if !payload.truthy then some []
  else if isString "Feature" (payload.prop "type") then some [payload]
  else if isString "FeatureCollection" (payload.prop "type") then
    match (payload.prop "features").orElse (.arr []) with
    | .arr features => some features
    | _ => none
  else
    match payload with
    | .arr features => some features
    | _ => some []

/-- The loop body. -/
def convert (rt : Runtime) (config : Config) (now stale : List Char) (feature : Js) (idx : ℕ) :
    Option (Option Message) := do
  match ← buildCot rt config feature idx with
  | none => return none
  | some cot => return some ⟨render now stale cot, ← stableUid config feature idx⟩

/-- The two readings of the clock, in milliseconds. -/
structure Clock where
  now : ℤ
  stale : ℤ
  now_valid : now.natAbs ≤ 8640000000000000

/-- `stale`. -/
def staleText (config : Config) (clock : Clock) : Option (List Char) :=
  (parseInt config.staleSeconds).bind fun seconds => iso (clock.stale + seconds * 1000)

/-- The loop. -/
def convertAll (rt : Runtime) (config : Config) (clock : Clock) (features : List Js) :
    Option (List Message) := do
  let now ← iso clock.now
  let stale ← staleText config clock
  let out ← features.zipIdx.mapM fun entry => convert rt config now stale entry.1 entry.2
  return out.reduceOption

/-- `build CoT`. -/
def geojsonToCot (rt : Runtime) (config : Config) (clock : Clock) (payload : Js) :
    Option (List Message) :=
  (featuresOf payload).bind (convertAll rt config clock)

end FastTAK.NodeRed.GeoJson
