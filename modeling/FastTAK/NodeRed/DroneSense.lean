import FastTAK.Base.Fields
import FastTAK.NodeRed.Js

/-!
# DroneSense video paths

`Build CoT` records which streams are wanted, and `Reconcile MediaMTX` adds, replaces and deletes
paths of MediaMTX for them, one call after the other.  Between two calls other runs of both
nodes may act.
-/

namespace FastTAK.NodeRed.DroneSense

open FastTAK.Fields

/-! ## Build CoT -/

/-- The names and sources that a part of `Build CoT` records, and whether it throws then. -/
structure Recorded where
  entries : List (String × Js)
  thrown : Bool

namespace Recorded

/-- A statement that records nothing. -/
def check (passes : Bool) : Recorded := ⟨[], !passes⟩

/-- One part after the other. -/
def andThen (first second : Recorded) : Recorded :=
  if first.thrown then first else ⟨first.entries ++ second.entries, second.thrown⟩

def all (parts : List Recorded) : Recorded := parts.foldr andThen (check true)

end Recorded

/-- The loop body for an active sensor. -/
def recordSensor (callsignBase sensor : Js) : Recorded :=
  match (sensor.prop "id").text with
  | none => .check false
  | some id =>
      let sensorName := (sensor.prop "name").orElse callsignBase
      ⟨[("ds/" ++ id, sensor.prop "rtsp_url")],
        !(callsignBase.text.isSome && sensorName.text.isSome)⟩

/-- The texts of a sensor that go into the remarks. -/
def remarkPrints (sensor : Js) : Bool :=
  ["rtsp_url", "video_url"].all fun key =>
    !(sensor.prop key).truthy || (sensor.prop key).text.isSome

/-- `x != null ? x : 0`. -/
def orZero (x : Js) : Js := if x.isNullish then .num "0" else x

/-- The loop body for an item. -/
def recordItem (missionLabel item : Js) : Recorded :=
  if item.isNullish then .check false
  else if (item.prop "latitude").isNullish || (item.prop "longitude").isNullish then .check true
  else
    let callsignBase := ((item.prop "callSign").orElse (item.prop "model")).orElse (item.prop "id")
    let model := (item.prop "model").orElse (.str "Unknown")
    let hasSpi := !(item.prop "spoiLat").isNullish && !(item.prop "spoiLng").isNullish
    let positions := ["latitude", "longitude"].map item.prop ++
      ["altitudeMsl", "heading", "speed"].map (fun key => orZero (item.prop key)) ++
      if hasSpi then ["spoiLat", "spoiLng"].map item.prop else []
    match (item.prop "sensors").orElse (.arr []) with
    | .arr sensors =>
        .all
          ([.check ((item.prop "id").text.isSome && (orZero (item.prop "speed")).text.isSome &&
              (!missionLabel.truthy || missionLabel.text.isSome && callsignBase.text.isSome) &&
              (!hasSpi || callsignBase.text.isSome) && !sensors.any Js.isNullish)] ++
            (sensors.filter fun sensor => (sensor.prop "rtsp_url").truthy).map
              (recordSensor callsignBase) ++
            [.check (callsignBase.text.isSome && model.text.isSome &&
              sensors.all remarkPrints && positions.all fun x => x.text.isSome)])
    | _ => .check false

/-- The loop of `Build CoT`. -/
def recordItems (missionLabel : Js) (items : List Js) : Recorded :=
  .all (items.map (recordItem missionLabel))

/-! ## MediaMTX -/

structure Path where
  source : String
  sourceFingerprint : String
  sourceOnDemand : Bool
deriving DecidableEq

inductive Verb
  | add
  | replace
deriving DecidableEq

inductive Request
  | post (verb : Verb) (name : String) (source : Js) (fingerprint : String)
  | delete (name : String)

def Request.name : Request → String
  | .post _ name _ _ | .delete name => name

/-- The paths that are configured. -/
abbrev Paths := String → Option Path

/-- What MediaMTX makes of a request: the first page of a listing with up to 1000 paths,
the name that is meant by the URL of a name, and the sources that it takes. -/
structure MediaMtx where
  firstPage : Paths → List (String × Path)
  target : String → Option String
  accepts : String → String → Bool

/-- Whether a request succeeds, and the paths after it. -/
def MediaMtx.execute (mtx : MediaMtx) (paths : Paths) : Request → Bool × Paths
  | .post verb name source fingerprint =>
      match mtx.target name, source with
      | some name, .str source =>
          if (verb = .add ∧ (paths name).isSome) ∨ !mtx.accepts name source then (false, paths)
          else (true, Function.update paths name (some ⟨source, fingerprint, false⟩))
      | _, _ => (false, paths)
  | .delete name =>
      match mtx.target name with
      | some name =>
          if (paths name).isSome then (true, Function.update paths name none) else (false, paths)
      | none => (false, paths)

/-! ## The flow and its surroundings -/

/-- An entry of `dsDesired`. -/
structure Entry where
  source : Js
  ts : ℤ

def freshMs : ℤ := 15000

def Entry.fresh (now : ℤ) (entry : Entry) : Bool := now - entry.ts < freshMs

/-- A request that MediaMTX has carried out.  `wanted` are the names with a fresh entry in
`dsDesired` then. -/
structure Executed where
  request : Request
  success : Bool
  wanted : List String

/-- The flow context with the caches that runs have made, MediaMTX, the fingerprints that the
endpoints present, and the requests whose caller gave up on them. -/
structure World where
  dsDesired : Option (List (String × Entry))
  caches : List (List (String × String))
  fingerprintCache : Option ℕ
  paths : Paths
  presents : String → String
  now : ℤ
  late : List Request
  log : List Executed

namespace World

/-- `flow.get('dsDesired') || {}`. -/
def desired (w : World) : List (String × Entry) := w.dsDesired.getD []

def wanted (w : World) : List String :=
  keys (w.desired.filter fun field => field.2.fresh w.now)

def execute (mtx : MediaMtx) (request : Request) (w : World) : World :=
  let (success, paths) := mtx.execute w.paths request
  { w with paths, log := ⟨request, success, w.wanted⟩ :: w.log }

/-- `Build CoT`.  What it has recorded when it throws is kept if `dsDesired` was there. -/
def buildCot (missionLabel payload : Js) (w : World) : World :=
  match payload.orElse (.arr []) with
  | .arr items =>
      let recorded := recordItems missionLabel items
      let desired := recorded.entries.foldl
        (fun fields field => put field.1 ⟨field.2, w.now⟩ fields) w.desired
      if recorded.thrown then { w with dsDesired := w.dsDesired.map fun _ => desired }
      else { w with dsDesired := some desired }
  | _ => w

end World

/-! ## Reconcile MediaMTX -/

/-- How a call over the network comes out. -/
inductive Outcome
  | answered
  | lost
  | timedOut
deriving DecidableEq

inductive Phase
  | listing
  | adding (rest : List (String × Js))
  | posting (name : String) (source : Js) (fingerprint : String) (rest : List (String × Js))
  | deleting (names : List String)
  | finished

/-- A run of `Reconcile MediaMTX` with its snapshot, its cache and its listing. -/
structure Run where
  desired : List (String × Js)
  cache : ℕ
  current : List (String × String)
  phase : Phase

def Run.isFinished (run : Run) : Bool :=
  match run.phase with
  | .finished => true
  | _ => false

/-- The synchronous prologue. -/
def World.snapshot (w : World) : World × Run :=
  let pruned := w.desired.filter fun field => field.2.fresh w.now
  let cache := w.fingerprintCache.getD w.caches.length
  let caches := if w.fingerprintCache.isSome then w.caches else w.caches ++ [[]]
  ({ w with dsDesired := some pruned, caches },
    { desired := pruned.map fun field => (field.1, field.2.source)
      cache, current := [], phase := .listing })

/-- The parts of a URL that are used. -/
structure Endpoint where
  hostname : String
  port : String
deriving DecidableEq

/-- The key of an endpoint in the cache. -/
def Endpoint.key (u : Endpoint) : String := u.hostname ++ ":" ++ u.port

/-- `getFingerprint`.  Without a port the call to connect throws. -/
def getFingerprint (w : World) (outcome : Outcome) (u : Endpoint) : String :=
  if outcome = .answered ∧ u.port ≠ "" then w.presents u.key else ""

namespace World

def cacheOf (w : World) (cache : ℕ) : List (String × String) := w.caches.getD cache []

/-- `fpCache[hp] = fp`. -/
def remember (w : World) (cache : ℕ) (key fingerprint : String) : World :=
  { w with caches := w.caches.set cache (put key fingerprint (w.cacheOf cache)) }

end World

section Calls

-- `new URL(source)`
variable (url : String → Option Endpoint)

def endpointOf (source : Js) : Option Endpoint := source.text.bind url

/-- `ensureFingerprint`. -/
def ensureFingerprint (w : World) (outcome : Outcome) (cache : ℕ) (source : Js) :
    World × String :=
  match endpointOf url source with
  | none => (w, "")
  | some u =>
      let cached := ((w.cacheOf cache).lookup u.key).getD ""
      if cached ≠ "" then (w, cached)
      else
        let fingerprint := getFingerprint w outcome u
        if fingerprint ≠ "" then (w.remember cache u.key fingerprint, fingerprint) else (w, "")

/-- The end of a run: the cache keeps the endpoints of the snapshot. -/
def World.pruneCache (w : World) (run : Run) : World :=
  let wantedHosts := run.desired.filterMap fun field => (endpointOf url field.2).map Endpoint.key
  { w with
    caches := w.caches.set run.cache
      ((w.cacheOf run.cache).filter fun field => wantedHosts.contains field.1)
    fingerprintCache := some run.cache }

end Calls

def isDs (name : String) : Bool := "ds/".isPrefixOf name

/-- `listCurrent`. -/
def currentOf (page : List (String × Path)) : List (String × String) :=
  (page.filter fun item => isDs item.1).foldl
    (fun fields item => put item.1 item.2.source fields) []

/-- `current[name] === source`. -/
def sameSource : Option String → Js → Bool
  | some current, .str source => current == source
  | none, .undefined => true
  | _, _ => false

/-- `http.request` throws for a name with such a character. -/
def unescaped (name : String) : Bool := name.toList.any fun c => c.toNat < 0x21 || 0xff < c.toNat

/-- The names of the listing that are not in the snapshot. -/
def Run.orphans (run : Run) : List String :=
  (keys run.current).filter fun name => !(keys run.desired).contains name

namespace World

/-- `httpJson`. -/
def send (mtx : MediaMtx) (outcome : Outcome) (request : Request) (w : World) : World :=
  match outcome with
  | .answered => w.execute mtx request
  | .lost => w
  | .timedOut => { w with late := request :: w.late }

/-- A run on to its next call. -/
def step (mtx : MediaMtx) (url : String → Option Endpoint) (outcome : Outcome) (w : World)
    (run : Run) : World × Run :=
  match run.phase with
  | .listing =>
      if outcome = .answered then
        (w, { run with current := currentOf (mtx.firstPage w.paths), phase := .adding run.desired })
      else (w, { run with phase := .finished })
  | .adding [] => (w, { run with phase := .deleting run.orphans })
  | .adding ((name, source) :: rest) =>
      if sameSource (run.current.lookup name) source then (w, { run with phase := .adding rest })
      else
        let (w', fingerprint) := ensureFingerprint url w outcome run.cache source
        if fingerprint = "" then (w', { run with phase := .adding rest })
        else (w', { run with phase := .posting name source fingerprint rest })
  | .posting name source fingerprint rest =>
      if unescaped name then (w, { run with phase := .finished })
      else
        let verb := if (run.current.lookup name).isNone then Verb.add else Verb.replace
        (w.send mtx outcome (.post verb name source fingerprint),
          { run with phase := .adding rest })
  | .deleting [] => (w.pruneCache url run, { run with phase := .finished })
  | .deleting (name :: rest) =>
      if unescaped name then (w, { run with phase := .finished })
      else (w.send mtx outcome (.delete name), { run with phase := .deleting rest })
  | .finished => (w, run)

end World

end FastTAK.NodeRed.DroneSense
