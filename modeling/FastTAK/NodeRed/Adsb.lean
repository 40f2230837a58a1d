import FastTAK.NodeRed.Batches

/-!
# ADS-B aircraft

The flow from an answer of the feed to the events on the map: `Aircraft → GeoJSON` and the subflow.
An aircraft becomes one event, whatever else the answer has, or the answer is lost with it.
-/

namespace FastTAK.NodeRed.Adsb

open FastTAK.NodeRed.GeoJson FastTAK.NodeRed.Batches

/-! ## Aircraft to GeoJSON -/

/-- The arithmetic of the conversions, on the texts of numbers. -/
structure Units extends Runtime where
  times : String → String → String
  round : String → String

/-- `s.trim()`. -/
def trim (s : List Char) : List Char := (s.dropWhile isSpace).rdropWhile isSpace

/-- `(x || '').trim()`, if it does not throw. -/
def trimmed (x : Js) : Option String :=
  match x.orElse (.str "") with
  | .str s => some (String.ofList (trim s.toList))
  | _ => none

/-- `s.replace(/\s+/g, ' ')`, after a blank or not. -/
def squeeze : Bool → List Char → List Char
  | _, [] => []
  | after, c :: rest =>
      if isSpace c then (if after then squeeze true rest else ' ' :: squeeze true rest)
      else c :: squeeze false rest

/-- `x != null ? x : y`. -/
def unlessNull (x y : Js) : Js := if x.isNullish then y else x

def altFt (a : Js) : Js :=
  unlessNull (a.prop "alt_geom") (unlessNull (a.prop "alt_baro") (.num "0"))

def speedKt (a : Js) : Js := unlessNull (a.prop "gs") (.num "0")

def trackOf (a : Js) : Js :=
  unlessNull (a.prop "track")
    (unlessNull (a.prop "true_heading") (unlessNull (a.prop "mag_heading") (.num "0")))

def altM (u : Units) (a : Js) : Option String :=
  (numberOf u.toRuntime (altFt a)).map fun n => u.times n "0.3048"

def speedMps (u : Units) (a : Js) : Option String :=
  (numberOf u.toRuntime (speedKt a)).map fun n => u.times n "0.514444"

def reg (a : Js) : Js := (a.prop "r").orElse (.str "")

def acType (a : Js) : Js := (a.prop "t").orElse (.str "")

def squawk (a : Js) : Js := (a.prop "squawk").orElse (.str "")

def callsign (a : Js) (flight hex : String) : Js :=
  (((Js.str flight).orElse (reg a)).orElse (.str hex)).orElse (.str "AIR")

/-- `Math.round`. -/
def rounded (u : Units) (x : Js) : Option String := (numberOf u.toRuntime x).map u.round

def remarks (u : Units) (a : Js) (hex : String) : Option String := do
  let reg ← (reg a).text
  let acType ← (acType a).text
  let alt ← rounded u (altFt a)
  let speed ← rounded u (speedKt a)
  let track ← rounded u (trackOf a)
  let squawk ← (squawk a).text
  let text := "ICAO " ++ hex ++ " | " ++ reg ++ " " ++ acType ++ " | " ++ alt ++ " ft | " ++
    speed ++ " kt | hdg " ++ track ++ "° | sq " ++ squawk
  return String.ofList (trim (squeeze false text.toList))

def properties (callsign : Js) (remarks alt speed : String) (track : Js) : Js :=
  .obj [("callsign", callsign), ("remarks", .str remarks), ("altitude", .num alt),
    ("speed", .num speed), ("course", track)]

def pointFeature (hex : String) (lon lat : Js) (alt : String) (properties : Js) : Js :=
  .obj [("type", .str "Feature"), ("id", .str hex),
    ("geometry", .obj [("type", .str "Point"), ("coordinates", .arr [lon, lat, .num alt])]),
    ("properties", properties)]

/-- `feature`: of an aircraft without a position there is none. -/
def feature (u : Units) (a : Js) : Option (Option Js) :=
  if a.isNullish then none
  else if (a.prop "lat").isNullish || (a.prop "lon").isNullish then some none
  else do
    let hex ← trimmed (a.prop "hex")
    let flight ← trimmed (a.prop "flight")
    let alt ← altM u a
    let speed ← speedMps u a
    let remarks ← remarks u a hex
    return some (pointFeature hex (a.prop "lon") (a.prop "lat") alt
      (properties (callsign a flight hex) remarks alt speed (trackOf a)))

/-- `Aircraft → GeoJSON`: the features of an answer that is valid. -/
def toGeojson (u : Units) (payload : Js) : Option (Option Js) :=
  if !payload.truthy then some none
  else
    match payload.prop "ac" with
    | .arr aircraft => do
        let features ← aircraft.mapM (feature u)
        return some (collection features.reduceOption)
    | _ => some none

/-- The settings of the subflow. -/
def env (name : String) : String :=
  ([("COT_TYPE", "a-n-A-C-F"), ("UID_PREFIX", "adsb"), ("STALE_SECONDS", "60"),
    ("CALLSIGN_PROP", "callsign"), ("REMARKS_PROP", "remarks"), ("ALTITUDE_PROP", "altitude"),
    ("SPEED_PROP", "speed"), ("COURSE_PROP", "course")].lookup name).getD ""

/-- What an answer of the feed brings to the server. -/
def flow (u : Units) (clock : Clock) (payload : Js) : Option (List Message) := do
  match ← toGeojson u payload with
  | none => return []
  | some collection => geojsonToCot u.toRuntime (.ofEnv env) clock collection

/-! ## Aircraft and their events -/

/-- An aircraft with which nothing throws. -/
def sound (a : Js) : Bool :=
  !a.isNullish && ((a.prop "lat").isNullish || (a.prop "lon").isNullish ||
    ((trimmed (a.prop "hex")).isSome && (trimmed (a.prop "flight")).isSome &&
      [a.prop "lat", a.prop "lon", altFt a, speedKt a, trackOf a, reg a, acType a,
        squawk a].all prints))

/-- A number that is finite. -/
def finite (u : Units) (x : Js) : Option String := (finiteOf u.toRuntime x).join

def coordinate (u : Units) (x : Js) : Option String := if x.isNullish then none else finite u x

/-- Course and speed. -/
def movement (speed course : Option String) : Option (String × String) :=
  if speed.isNone && course.isNone then none else some (course.getD "0", speed.getD "0")

/-- The event of an aircraft at a finite position. -/
def eventOf (u : Units) (a : Js) : Option Cot := do
  let lat ← coordinate u (a.prop "lat")
  let lon ← coordinate u (a.prop "lon")
  let hex ← trimmed (a.prop "hex")
  let flight ← trimmed (a.prop "flight")
  let alt ← altM u a
  let speed ← speedMps u a
  let name ← (callsign a flight hex).text
  let remarks ← remarks u a hex
  return {
    uid := "adsb-" ++ hex
    type := "a-n-A-C-F"
    lat := lat
    lon := lon
    hae := (finite u (.num alt)).getD "0"
    callsign := name
    remarks := remarks
    drawing := .marker (movement (finite u (.num speed)) (finite u (trackOf a))) }

section Events

variable {u : Units} {hex name shown alt speed lon' lat' : String}
  {a x lon lat called track f props : Js} {idx : ℕ}

theorem trackOf_isNullish (a : Js) : (trackOf a).isNullish = false := by
  unfold trackOf unlessNull
  split_ifs with htrack htrue hmagnetic
  · rfl
  · simpa using hmagnetic
  · simpa using htrue
  · simpa using htrack

theorem orElse_text (s : String) : ((Js.str s).orElse (.str "")).text = some s := by
  rw [Js.orElse]
  split_ifs with htruthy
  · rfl
  · have hempty : s = "" := by simpa [Js.truthy] using htruthy
    rw [hempty]
    rfl

theorem trackElement_properties (htrack : track.isNullish = false) :
    trackElement u.toRuntime (.ofEnv env) (properties called shown alt speed track) =
      (finiteOf u.toRuntime track).map (movement (finite u (.num speed))) := by
  have hcourse : tracked u.toRuntime (Config.ofEnv env).courseProp
      (properties called shown alt speed track) = finiteOf u.toRuntime track :=
    if_neg (by
      rw [Bool.not_eq_true]
      exact htrack)
  have hspeed : tracked u.toRuntime (Config.ofEnv env).speedProp
      (properties called shown alt speed track) = some (finite u (.num speed)) := rfl
  rw [trackElement, hspeed, hcourse, Option.map_eq_bind]
  rfl

/-- The event of a feature at a position that is given by numbers. -/
theorem placedCot_pointFeature (htrack : track.isNullish = false) :
    placedCot u.toRuntime (.ofEnv env)
      (pointFeature hex lon lat alt (properties called shown alt speed track)) idx
      (.arr [lon, lat, .num alt]) lon' lat' =
        (called.orElse (.str "")).text.bind fun name =>
          (finiteOf u.toRuntime track).map fun course =>
            { uid := "adsb-" ++ hex
              type := "a-n-A-C-F"
              lat := lat'
              lon := lon'
              hae := (finite u (.num alt)).getD "0"
              callsign := name
              remarks := shown
              drawing := .marker (movement (finite u (.num speed)) course) } := by
  have hcoordHae : num u.toRuntime ((Js.arr [lon, lat, .num alt]).item 2) "0" =
      some ((finite u (.num alt)).getD "0") := rfl
  have hprops : propertiesOf (pointFeature hex lon lat alt
      (properties called shown alt speed track)) =
        properties called shown alt speed track := rfl
  have hhae : haeOf u.toRuntime (.ofEnv env) (properties called shown alt speed track)
      ((finite u (.num alt)).getD "0") = some ((finite u (.num alt)).getD "0") := by
    have hsame : (finite u (.num alt)).getD ((finite u (.num alt)).getD "0") =
        (finite u (.num alt)).getD "0" := by
      cases finite u (.num alt) with
      | none => rfl
      | some n => rfl
    exact congrArg some hsame
  have hcallsign : label u.toRuntime (Config.ofEnv env).callsignProp
      (properties called shown alt speed track) = (called.orElse (.str "")).text := rfl
  have hremarks : label u.toRuntime (Config.ofEnv env).remarksProp
      (properties called shown alt speed track) = some shown := orElse_text shown
  have huid : stableUid (.ofEnv env) (pointFeature hex lon lat alt
      (properties called shown alt speed track)) idx = some ("adsb-" ++ hex) := rfl
  simp only [placedCot, hcoordHae, hprops, hhae, hcallsign, hremarks, huid,
    trackElement_properties htrack, Option.bind_eq_bind, Option.bind_some, Option.map_eq_bind,
    Option.bind_assoc, Function.comp_apply]
  rfl

theorem truthy_orElse (hx : x.truthy = true) (called : Js) : (called.orElse x).truthy = true := by
  rw [Js.orElse]
  split_ifs with hcalled
  · exact hcalled
  · exact hx

theorem callsign_text (flight : String) :
    ((callsign a flight hex).orElse (.str "")).text = (callsign a flight hex).text := by
  have htruthy : (callsign a flight hex).truthy = true := truthy_orElse (by decide) _
  rw [Js.orElse, if_pos htruthy]

/-- A callsign prints if the registration does. -/
theorem isSome_callsign (hreg : (reg a).text.isSome) (flight : String) :
    (callsign a flight hex).text.isSome := by
  unfold callsign
  simp only [Js.orElse]
  split_ifs
  · rfl
  · exact hreg
  · rfl
  · rfl

theorem buildCot_pointFeature :
    buildCot u.toRuntime (.ofEnv env) (pointFeature hex lon lat alt props) idx =
      (finiteOf u.toRuntime lon).bind fun lon' => (finiteOf u.toRuntime lat).bind fun lat' =>
        if lon'.isSome && lat'.isSome then
          (placedCot u.toRuntime (.ofEnv env) (pointFeature hex lon lat alt props) idx
            (.arr [lon, lat, .num alt]) (lon'.getD "") (lat'.getD "")).map some
        else some none := by
  have hpoint : buildCot u.toRuntime (.ofEnv env) (pointFeature hex lon lat alt props) idx =
      pointCot u.toRuntime (.ofEnv env) (pointFeature hex lon lat alt props) idx := rfl
  rw [hpoint]
  change (finiteOf u.toRuntime lon).bind _ = _
  apply congrArg (Option.bind _)
  funext lon'
  change (finiteOf u.toRuntime lat).bind _ = _
  apply congrArg (Option.bind _)
  funext lat'
  cases lon' with
  | none => rfl
  | some lon' =>
      cases lat' with
      | none => rfl
      | some lat' => exact Option.map_eq_bind.symm

theorem of_remarks (h : remarks u a hex = some shown) :
    (reg a).text.isSome ∧ ∃ course, finiteOf u.toRuntime (trackOf a) = some course := by
  obtain ⟨reg, hreg, h⟩ := Option.bind_eq_some_iff.mp h
  obtain ⟨_, -, h⟩ := Option.bind_eq_some_iff.mp h
  obtain ⟨_, -, h⟩ := Option.bind_eq_some_iff.mp h
  obtain ⟨_, -, h⟩ := Option.bind_eq_some_iff.mp h
  obtain ⟨track, htrack, -⟩ := Option.bind_eq_some_iff.mp h
  obtain ⟨number, hnumber, -⟩ := Option.map_eq_some_iff.mp htrack
  rw [hreg, finiteOf, hnumber]
  exact ⟨rfl, _, rfl⟩

theorem eventOf_eq {flight : String} {course lat' lon' : Option String}
    (hlat : finiteOf u.toRuntime (a.prop "lat") = some lat')
    (hlon : finiteOf u.toRuntime (a.prop "lon") = some lon')
    (hplace : ¬((a.prop "lat").isNullish || (a.prop "lon").isNullish) = true)
    (hhex : trimmed (a.prop "hex") = some hex) (hflight : trimmed (a.prop "flight") = some flight)
    (halt : altM u a = some alt) (hspeed : speedMps u a = some speed)
    (hname : (callsign a flight hex).text = some name) (hshown : remarks u a hex = some shown)
    (hcourse : finiteOf u.toRuntime (trackOf a) = some course) :
    eventOf u a =
      if lat'.isSome && lon'.isSome then
        some {
          uid := "adsb-" ++ hex
          type := "a-n-A-C-F"
          lat := lat'.getD ""
          lon := lon'.getD ""
          hae := (finite u (.num alt)).getD "0"
          callsign := name
          remarks := shown
          drawing := .marker (movement (finite u (.num speed)) course) }
      else none := by
  rw [Bool.or_eq_true, not_or, Bool.not_eq_true, Bool.not_eq_true] at hplace
  have hfinite : finite u (trackOf a) = course := by
    rw [finite, hcourse, Option.join_some]
  have hcoordinateLat : coordinate u (a.prop "lat") = lat' := by
    rw [coordinate, hplace.1, if_neg Bool.false_ne_true, finite, hlat, Option.join_some]
  have hcoordinateLon : coordinate u (a.prop "lon") = lon' := by
    rw [coordinate, hplace.2, if_neg Bool.false_ne_true, finite, hlon, Option.join_some]
  simp only [eventOf, hcoordinateLat, hcoordinateLon, hhex, hflight, halt, hspeed, hname, hshown,
    hfinite, Option.bind_eq_bind, Option.bind_some]
  cases lat' with
  | none => rfl
  | some lat' =>
      cases lon' with
      | none => rfl
      | some lon' => rfl

/-- The event of a feature is the event of its aircraft. -/
theorem buildCot_feature (h : feature u a = some (some f)) :
    buildCot u.toRuntime (.ofEnv env) f idx =
      if prints (a.prop "lat") && prints (a.prop "lon") then some (eventOf u a) else none := by
  rw [feature] at h
  split_ifs at h with hnull hplace
  · cases h
  obtain ⟨hex, hhex, h⟩ := Option.bind_eq_some_iff.mp h
  obtain ⟨flight, hflight, h⟩ := Option.bind_eq_some_iff.mp h
  obtain ⟨alt, halt, h⟩ := Option.bind_eq_some_iff.mp h
  obtain ⟨speed, hspeed, h⟩ := Option.bind_eq_some_iff.mp h
  obtain ⟨shown, hshown, h⟩ := Option.bind_eq_some_iff.mp h
  obtain rfl := Option.some.inj (Option.some.inj h)
  obtain ⟨hreg, course, hcourse⟩ := of_remarks hshown
  obtain ⟨name, hname⟩ := Option.isSome_iff_exists.mp (isSome_callsign hreg flight)
  rw [buildCot_pointFeature, ← isSome_finiteOf u.toRuntime (a.prop "lat"),
    ← isSome_finiteOf u.toRuntime (a.prop "lon")]
  simp only [placedCot_pointFeature (trackOf_isNullish a), hcourse, Option.map_some]
  rw [callsign_text, hname]
  cases hlat : finiteOf u.toRuntime (a.prop "lat") with
  | none =>
      cases finiteOf u.toRuntime (a.prop "lon") with
      | none => rfl
      | some lon' => rfl
  | some lat' =>
      cases hlon : finiteOf u.toRuntime (a.prop "lon") with
      | none => rfl
      | some lon' =>
          rw [eventOf_eq hlat hlon hplace hhex hflight halt hspeed hname hshown hcourse]
          cases lat' with
          | none =>
              cases lon' with
              | none => rfl
              | some lon' => rfl
          | some lat' =>
              cases lon' with
              | none => rfl
              | some lon' => rfl

theorem isSome_rounded (u : Units) (x : Js) : (rounded u x).isSome = prints x := by
  rw [rounded, Option.isSome_map, isSome_numberOf]

theorem isSome_remarks (u : Units) (a : Js) (hex : String) :
    (remarks u a hex).isSome =
      [reg a, acType a, altFt a, speedKt a, trackOf a, squawk a].all prints := by
  have hsteps : (remarks u a hex).isSome = ((reg a).text.isSome && ((acType a).text.isSome &&
      ((rounded u (altFt a)).isSome && ((rounded u (speedKt a)).isSome &&
        ((rounded u (trackOf a)).isSome && ((squawk a).text.isSome && true)))))) :=
    isSome_bind fun _ _ => isSome_bind fun _ _ => isSome_bind fun _ _ => isSome_bind fun _ _ =>
      isSome_bind fun _ _ => isSome_bind fun _ _ => rfl
  rw [hsteps, isSome_rounded, isSome_rounded, isSome_rounded]
  rfl

/-- The conversion and the subflow go through for the aircraft with which nothing throws. -/
theorem isSome_feature (u : Units) (a : Js) :
    ((feature u a).isSome && (((a.prop "lat").isNullish || (a.prop "lon").isNullish) ||
      (prints (a.prop "lat") && prints (a.prop "lon")))) = sound a := by
  rw [feature, sound]
  cases a.isNullish with
  | true => rfl
  | false =>
      cases (a.prop "lat").isNullish || (a.prop "lon").isNullish with
      | true => rfl
      | false =>
          have hsteps : (trimmed (a.prop "hex") >>= fun hex => trimmed (a.prop "flight") >>=
              fun flight => altM u a >>= fun alt => speedMps u a >>= fun speed =>
                remarks u a hex >>= fun remarks => pure (some (pointFeature hex (a.prop "lon")
                  (a.prop "lat") alt (properties (callsign a flight hex) remarks alt speed
                    (trackOf a))))).isSome =
              ((trimmed (a.prop "hex")).isSome && ((trimmed (a.prop "flight")).isSome &&
                ((altM u a).isSome && ((speedMps u a).isSome &&
                  ([reg a, acType a, altFt a, speedKt a, trackOf a, squawk a].all prints))))) := by
            apply isSome_bind
            intro hex _
            rw [← isSome_remarks u a hex]
            apply isSome_bind
            intro flight _
            apply isSome_bind
            intro alt _
            apply isSome_bind
            intro speed _
            cases remarks u a hex with
            | none => rfl
            | some shown => rfl
          rw [if_neg Bool.false_ne_true, if_neg Bool.false_ne_true]
          apply (congrArg (· && _) hsteps).trans
          simp only [altM, speedMps, Option.isSome_map, isSome_numberOf, List.all_cons,
            List.all_nil]
          rw [Bool.eq_iff_iff]
          simp only [Bool.and_eq_true, Bool.false_or, Bool.not_false, true_and, and_true]
          tauto

end Events

/-! ## Answers -/

section Answers

variable {u : Units} {a a' f payload : Js} {aircraft features : List Js} {clock : Clock}
  {now stale : List Char} {idx : ℕ} {cot cot' : Cot}

/-- The message of an aircraft. -/
def messageOf (u : Units) (now stale : List Char) (a : Js) : Option Message :=
  (eventOf u a).map fun cot => ⟨render now stale cot, cot.uid⟩

theorem convert_feature (h : feature u a = some (some f)) (now stale : List Char) (idx : ℕ) :
    convert u.toRuntime (.ofEnv env) now stale f idx =
      if prints (a.prop "lat") && prints (a.prop "lon") then some (messageOf u now stale a)
      else none := by
  rw [convert, @buildCot_feature u a f idx h]
  split_ifs with hprints
  · cases hevent : eventOf u a with
    | none =>
        rw [messageOf, hevent]
        rfl
    | some cot =>
        have hcot : buildCot u.toRuntime (.ofEnv env) f idx = some (some cot) := by
          rw [buildCot_feature h, if_pos hprints, hevent]
        rw [messageOf, hevent, Option.bind_eq_bind, Option.bind_some]
        simp only [buildCot_uid hcot]
        rfl
  · rfl

theorem flow_eq (hac : payload.prop "ac" = .arr aircraft) (hnow : iso clock.now = some now)
    (hstale : staleText (.ofEnv env) clock = some stale) :
    flow u clock payload = (aircraft.mapM (feature u)).bind fun results =>
      (results.reduceOption.zipIdx.mapM fun entry =>
        convert u.toRuntime (.ofEnv env) now stale entry.1 entry.2).map List.reduceOption := by
  have hgeojson : toGeojson u payload = (aircraft.mapM (feature u)).bind fun results =>
      some (some (collection results.reduceOption)) := by
    have hpayload : payload.truthy = true := by
      cases payload with
      | obj fields => rfl
      | _ => cases hac
    unfold toGeojson
    rw [hpayload, hac]
    rfl
  have hcollection : ∀ features, geojsonToCot u.toRuntime (.ofEnv env) clock (collection features) =
      (features.zipIdx.mapM fun entry =>
        convert u.toRuntime (.ofEnv env) now stale entry.1 entry.2).map List.reduceOption :=
    fun _ => geojsonToCot_eq rfl hnow hstale
  rw [flow, hgeojson]
  cases aircraft.mapM (feature u) with
  | none => rfl
  | some results => exact hcollection _

/-- The features of an answer are those of its aircraft. -/
theorem mem_reduceOption_iff {results : List (Option Js)}
    (h : aircraft.mapM (feature u) = some results) :
    f ∈ results.reduceOption ↔ ∃ a ∈ aircraft, feature u a = some (some f) := by
  rw [reduceOption_of_mapM h, List.mem_filterMap]
  simp only [Option.join_eq_some_iff]

theorem feature_cases {result : Option Js} (h : feature u a = some result) :
    ((a.prop "lat").isNullish || (a.prop "lon").isNullish) = result.isNone := by
  rw [feature] at h
  split_ifs at h with hnull hplace
  · obtain rfl := Option.some.inj h
    exact hplace
  · obtain ⟨_, -, h⟩ := Option.bind_eq_some_iff.mp h
    obtain ⟨_, -, h⟩ := Option.bind_eq_some_iff.mp h
    obtain ⟨_, -, h⟩ := Option.bind_eq_some_iff.mp h
    obtain ⟨_, -, h⟩ := Option.bind_eq_some_iff.mp h
    obtain ⟨_, -, h⟩ := Option.bind_eq_some_iff.mp h
    obtain rfl := Option.some.inj h
    exact Bool.eq_false_iff.mpr hplace

theorem messageOf_of_nullish (h : ((a.prop "lat").isNullish || (a.prop "lon").isNullish) = true) :
    messageOf u now stale a = none := by
  have hevent : eventOf u a = none := by
    rw [eventOf, coordinate, coordinate]
    rcases (Bool.or_eq_true _ _).mp h with hlat | hlon
    · rw [hlat]
      rfl
    · rw [hlon, if_pos rfl]
      cases if (a.prop "lat").isNullish then none else finite u (a.prop "lat") with
      | none => rfl
      | some lat => rfl
  rw [messageOf, hevent]
  rfl

/-- The features of sound aircraft give their messages. -/
theorem join_convert (hsound : sound a) :
    ((feature u a).join.bind fun f =>
      (convert u.toRuntime (.ofEnv env) now stale f 0).join) = messageOf u now stale a := by
  rw [← isSome_feature u a, Bool.and_eq_true] at hsound
  obtain ⟨result, hresult⟩ := Option.isSome_iff_exists.mp hsound.1
  have hplace := feature_cases hresult
  cases result with
  | none =>
      rw [hresult, messageOf_of_nullish hplace]
      rfl
  | some f =>
      have hprints : (prints (a.prop "lat") && prints (a.prop "lon")) = true := by
        have hsecond := hsound.2
        rw [hplace] at hsecond
        exact hsecond
      rw [hresult, Option.join_some, Option.bind_some, convert_feature hresult, if_pos hprints,
        Option.join_some]

theorem filterMap_messages {results : List (Option Js)}
    (h : aircraft.mapM (feature u) = some results) (hsound : ∀ a ∈ aircraft, sound a) :
    results.reduceOption.zipIdx.filterMap (fun entry =>
      (convert u.toRuntime (.ofEnv env) now stale entry.1 entry.2).join) =
        aircraft.filterMap (messageOf u now stale) := by
  have hindex : ∀ entry ∈ results.reduceOption.zipIdx,
      (convert u.toRuntime (.ofEnv env) now stale entry.1 entry.2).join =
        (convert u.toRuntime (.ofEnv env) now stale entry.1 0).join := by
    intro entry hentry
    obtain ⟨a, -, ha⟩ := (mem_reduceOption_iff h).mp (mem_zipIdx_iff.mpr ⟨entry.2, hentry⟩)
    rw [convert_feature ha, convert_feature ha]
  have hfst : results.reduceOption.zipIdx.filterMap (fun entry =>
      (convert u.toRuntime (.ofEnv env) now stale entry.1 0).join) =
        results.reduceOption.filterMap fun f =>
          (convert u.toRuntime (.ofEnv env) now stale f 0).join :=
    calc results.reduceOption.zipIdx.filterMap (fun entry =>
          (convert u.toRuntime (.ofEnv env) now stale entry.1 0).join)
      _ = (results.reduceOption.zipIdx.map Prod.fst).filterMap fun f =>
          (convert u.toRuntime (.ofEnv env) now stale f 0).join := by
        rw [List.filterMap_map]
        rfl
      _ = results.reduceOption.filterMap fun f =>
          (convert u.toRuntime (.ofEnv env) now stale f 0).join := by rw [List.zipIdx_map_fst]
  rw [List.filterMap_congr hindex, hfst, reduceOption_of_mapM h, List.filterMap_filterMap]
  exact List.filterMap_congr fun a ha => join_convert (hsound a ha)

theorem isSome_convert_iff {results : List (Option Js)}
    (h : aircraft.mapM (feature u) = some results) :
    (results.reduceOption.zipIdx.mapM fun entry =>
      convert u.toRuntime (.ofEnv env) now stale entry.1 entry.2).isSome ↔
        ∀ a ∈ aircraft, sound a := by
  have hfeature : ∀ a ∈ aircraft, (feature u a).isSome := by
    have hall : (aircraft.mapM (feature u)).isSome := by
      rw [h]
      rfl
    rw [isSome_mapM, List.all_eq_true] at hall
    exact hall
  have hconvert : ∀ {a f idx}, feature u a = some (some f) →
      ((convert u.toRuntime (.ofEnv env) now stale f idx).isSome ↔ sound a) := by
    intro a f idx ha
    rw [convert_feature ha, ← isSome_feature u a, feature_cases ha, ha]
    cases prints (a.prop "lat") && prints (a.prop "lon") with
    | true => exact iff_of_true rfl rfl
    | false => exact iff_of_false Bool.false_ne_true Bool.false_ne_true
  rw [isSome_mapM, List.all_eq_true]
  constructor
  · intro hall a ha
    obtain ⟨result, hresult⟩ := Option.isSome_iff_exists.mp (hfeature a ha)
    cases result with
    | none =>
        rw [← isSome_feature u a, feature_cases hresult, hresult]
        rfl
    | some f =>
        obtain ⟨idx, hidx⟩ := mem_zipIdx_iff.mp ((mem_reduceOption_iff h).mpr ⟨a, ha, hresult⟩)
        exact (hconvert hresult).mp (hall _ hidx)
  · intro hsound entry hentry
    obtain ⟨a, ha, hresult⟩ := (mem_reduceOption_iff h).mp (mem_zipIdx_iff.mpr ⟨entry.2, hentry⟩)
    exact (hconvert hresult).mpr (hsound a ha)

theorem eventOf_uid (h : eventOf u a = some cot) :
    ∃ hex, trimmed (a.prop "hex") = some hex ∧ cot.uid = "adsb-" ++ hex := by
  obtain ⟨_, -, h⟩ := Option.bind_eq_some_iff.mp h
  obtain ⟨_, -, h⟩ := Option.bind_eq_some_iff.mp h
  obtain ⟨hex, hhex, h⟩ := Option.bind_eq_some_iff.mp h
  obtain ⟨_, -, h⟩ := Option.bind_eq_some_iff.mp h
  obtain ⟨_, -, h⟩ := Option.bind_eq_some_iff.mp h
  obtain ⟨_, -, h⟩ := Option.bind_eq_some_iff.mp h
  obtain ⟨_, -, h⟩ := Option.bind_eq_some_iff.mp h
  obtain ⟨_, -, h⟩ := Option.bind_eq_some_iff.mp h
  obtain rfl := Option.some.inj h
  exact ⟨hex, hhex, rfl⟩

theorem eventOf_uid_iff (h : eventOf u a = some cot) (h' : eventOf u a' = some cot') :
    cot.uid = cot'.uid ↔ trimmed (a.prop "hex") = trimmed (a'.prop "hex") := by
  obtain ⟨hex, hhex, huid⟩ := eventOf_uid h
  obtain ⟨hex', hhex', huid'⟩ := eventOf_uid h'
  rw [huid, huid', hhex, hhex', Option.some.injEq]
  constructor
  · intro heq
    have hlists := congrArg String.toList heq
    rw [String.toList_append, String.toList_append, List.append_cancel_left_eq] at hlists
    exact String.toList_injective hlists
  · intro heq
    rw [heq]

theorem flow_eq_messages (hac : payload.prop "ac" = .arr aircraft)
    (hnow : iso clock.now = some now) (hstale : staleText (.ofEnv env) clock = some stale) :
    flow u clock payload =
      if aircraft.all sound then some (aircraft.filterMap (messageOf u now stale)) else none := by
  rw [flow_eq hac hnow hstale]
  cases hresults : aircraft.mapM (feature u) with
  | none =>
      rw [if_neg]
      · rfl
      · intro hsound
        have hall : (aircraft.mapM (feature u)).isSome := by
          rw [isSome_mapM, List.all_eq_true]
          intro a ha
          have hfeature := List.all_eq_true.mp hsound a ha
          rw [← isSome_feature u a, Bool.and_eq_true] at hfeature
          exact hfeature.1
        rw [hresults] at hall
        cases hall
  | some results =>
      have hiff := @isSome_convert_iff u aircraft now stale results hresults
      rw [Option.bind_some]
      split_ifs with hsound
      · rw [List.all_eq_true] at hsound
        obtain ⟨out, hout⟩ := Option.isSome_iff_exists.mp (hiff.mpr hsound)
        rw [hout, Option.map_some, reduceOption_of_mapM hout, filterMap_messages hresults hsound]
      · rw [List.all_eq_true, ← hiff, Option.not_isSome_iff_eq_none] at hsound
        rw [hsound, Option.map_none]

/-- An answer brings one message for each aircraft with an event, in the order of the answer, if
all of its aircraft are sound, and else nothing; and the events of two aircraft have one uid if and
only if they have one address. -/
theorem flow_messages (u : Units) (hac : payload.prop "ac" = .arr aircraft)
    (hnow : iso clock.now = some now) (hstale : staleText (.ofEnv env) clock = some stale) :
    flow u clock payload =
        (if aircraft.all sound then some (aircraft.filterMap (messageOf u now stale)) else none) ∧
      ∀ a cot a' cot', eventOf u a = some cot → eventOf u a' = some cot' →
        (cot.uid = cot'.uid ↔ trimmed (a.prop "hex") = trimmed (a'.prop "hex")) := by
  constructor
  · exact flow_eq_messages hac hnow hstale
  · intro a cot a' cot' h h'
    exact eventOf_uid_iff h h'

/-- The arithmetic of an aircraft on the ground that does not move. -/
def groundUnits : Units :=
  { wholeRuntime with
    times := fun s _ => if s = "0" then "0" else "NaN"
    round := id }

def groundAircraft : List Js :=
  [.obj [("hex", .str "a1"), ("lat", .num "47"), ("lon", .num "8")], .obj [("hex", .str "b2")]]

def groundAnswer : Js := .obj [("ac", .arr groundAircraft)]

theorem ground_messages :
    flow groundUnits someClock groundAnswer =
        some (groundAircraft.filterMap (messageOf groundUnits "2026-01-01T00:00:00.000Z".toList
          "2026-01-01T00:01:00.000Z".toList)) ∧
      ∀ a cot a' cot', eventOf groundUnits a = some cot → eventOf groundUnits a' = some cot' →
        (cot.uid = cot'.uid ↔ trimmed (a.prop "hex") = trimmed (a'.prop "hex")) := by
  have hsound : groundAircraft.all sound = true := by decide +kernel
  have hmessages := @flow_messages groundAnswer groundAircraft someClock
    "2026-01-01T00:00:00.000Z".toList "2026-01-01T00:01:00.000Z".toList groundUnits rfl
    (by decide +kernel) (by decide +kernel)
  rw [if_pos hsound] at hmessages
  exact hmessages

end Answers

end FastTAK.NodeRed.Adsb
