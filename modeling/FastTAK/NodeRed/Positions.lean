import FastTAK.Base.Loop
import FastTAK.NodeRed.Batches

/-!
# Positions of events

What an event shows as a position comes from numbers of its feature, unless the feature has
something else there that JavaScript takes for a number.
-/

namespace FastTAK.NodeRed.Positions

open FastTAK.NodeRed.GeoJson FastTAK.NodeRed.Batches

/-! ## Numbers of a feature -/

/-- The text of a JSON number that JavaScript can hold. -/
def jsonNumber : Js → Option String
  | .num text => if isFinite text then some text else none
  | _ => none

/-- A number, or nothing that becomes a number, or something that becomes the fallback. -/
def Agrees (rt : Runtime) (x : Js) (fallback : String) : Prop :=
  (jsonNumber x).isSome ∨ finiteOf rt x = some none ∨ finiteOf rt x = some (some fallback)

/-- The property that is the altitude, if one is configured. -/
def altitude (rt : Runtime) (config : Config) (feature : Js) : Option Js :=
  if config.altitudeProp = "" then none
  else some (member rt config.altitudeProp (propertiesOf feature))

/-- The height that a point should have. -/
def heightOf (rt : Runtime) (config : Config) (feature coords : Js) : String :=
  (((altitude rt config feature).bind jsonNumber).or (jsonNumber (coords.item 2))).getD "0"

/-! ## True positions -/

structure PointTrue (rt : Runtime) (config : Config) (feature coords : Js) (cot : Cot) :
    Prop where
  lon : jsonNumber (coords.item 0) = some cot.lon
  lat : jsonNumber (coords.item 1) = some cot.lat
  hae : cot.hae = heightOf rt config feature coords

structure LinkTrue (v : Js) (link : Link) : Prop where
  lon : jsonNumber (v.item 0) = some link.lon
  lat : jsonNumber (v.item 1) = some link.lat
  hae : link.hae = (jsonNumber (v.item 2)).getD "0"

/-- The links are the vertices, and the centre is a mean of them. -/
def ShapeTrue (rt : Runtime) (vertices : Js) (cot : Cot) : Prop :=
  ∃ items links, vertexList vertices = some items ∧ cot.drawing = .shape links ∧
    List.Forall₂ LinkTrue items links ∧
    ∃ ring length, ring <+: links ∧ cot.lat = mean rt (ring.map (·.lat)) length ∧
      cot.lon = mean rt (ring.map (·.lon)) length

/-- The vertices of a shape. -/
def verticesOf (geom : Js) : Js :=
  if isString "Polygon" (geom.prop "type") then ringOf geom else lineOf geom

def PositionsTrue (rt : Runtime) (config : Config) (feature : Js) (cot : Cot) : Prop :=
  let geom := feature.prop "geometry"
  if isString "Point" (geom.prop "type") then
    PointTrue rt config feature (geom.prop "coordinates") cot
  else ShapeTrue rt (verticesOf geom) cot

/-! ## Entries that are numbers -/

/-- The altitude is a number, or becomes the height that it would be without one, or none. -/
def HeightAgrees (rt : Runtime) (config : Config) (feature coords : Js) : Prop :=
  match altitude rt config feature with
  | none => Agrees rt (coords.item 2) "0"
  | some x => (jsonNumber x).isSome ∨
      finiteOf rt x = some (some ((jsonNumber (coords.item 2)).getD "0")) ∨
      finiteOf rt x = some none ∧ Agrees rt (coords.item 2) "0"

def VertexNumbers (rt : Runtime) (v : Js) : Prop :=
  (jsonNumber (v.item 0)).isSome ∧ (jsonNumber (v.item 1)).isSome ∧ Agrees rt (v.item 2) "0"

/-- Positions that are numbers. -/
def Numbers (rt : Runtime) (config : Config) (feature : Js) : Prop :=
  let geom := feature.prop "geometry"
  let coords := geom.prop "coordinates"
  if isString "Point" (geom.prop "type") then
    (jsonNumber (coords.item 0)).isSome ∧ (jsonNumber (coords.item 1)).isSome ∧
      HeightAgrees rt config feature coords
  else ∃ items, vertexList (verticesOf geom) = some items ∧ ∀ v ∈ items, VertexNumbers rt v

section Numbers

variable {rt : Runtime} {config : Config} {feature coords x v : Js} {idx : ℕ}
  {text fallback : String} {cot : Cot}

theorem isString_iff {s : String} : isString s x ↔ x = .str s := by
  cases x with
  | str t =>
      rw [isString, beq_iff_eq, Js.str.injEq]
      exact eq_comm
  | _ => simp [isString]

theorem finiteOf_of_jsonNumber (h : jsonNumber x = some text) :
    finiteOf rt x = some (some text) := by
  cases x with
  | num t =>
      rw [jsonNumber] at h
      split_ifs at h with hfinite
      rw [finiteOf, numberOf, Option.map_some, if_pos hfinite, Option.some.inj h]
  | _ => cases h

/-- What became a finite number and is one is that number. -/
theorem jsonNumber_eq_some_iff (h : finiteOf rt x = some (some text)) :
    jsonNumber x = some text ↔ (jsonNumber x).isSome := by
  constructor
  · intro hnumber
    rw [hnumber]
    rfl
  · intro hsome
    obtain ⟨other, hother⟩ := Option.isSome_iff_exists.mp hsome
    rw [finiteOf_of_jsonNumber hother, Option.some.injEq, Option.some.injEq] at h
    rw [hother, h]

/-- The fallback stands in for what is no number. -/
theorem num_eq_iff {out : String} (h : num rt x fallback = some out) :
    out = (jsonNumber x).getD fallback ↔ Agrees rt x fallback := by
  rw [num, Option.map_eq_some_iff] at h
  obtain ⟨found, hfound, rfl⟩ := h
  rw [Agrees, hfound]
  cases found with
  | none =>
      have hnone : jsonNumber x = none := by
        cases hx : jsonNumber x with
        | none => rfl
        | some t => cases (finiteOf_of_jsonNumber hx).symm.trans hfound
      simp [hnone]
  | some n =>
      cases hx : jsonNumber x with
      | none => simp
      | some t =>
          rw [finiteOf_of_jsonNumber hx, Option.some.injEq, Option.some.injEq] at hfound
          simp [hfound]

theorem linkOf_true_iff {link : Link} (h : linkOf rt v = some link) :
    LinkTrue v link ↔ VertexNumbers rt v := by
  rw [linkOf] at h
  split_ifs at h
  obtain ⟨lon, hlon, h⟩ := Option.bind_eq_some_iff.mp h
  obtain ⟨lat, hlat, h⟩ := Option.bind_eq_some_iff.mp h
  obtain ⟨hae, hhae, h⟩ := Option.bind_eq_some_iff.mp h
  obtain rfl : Link.mk lat lon hae = link := Option.some.inj h
  have hnumber : ∀ {y : Js} {out : String}, num rt y "0" = some out →
      (jsonNumber y = some out ↔ (jsonNumber y).isSome) := by
    intro y out hout
    cases hy : jsonNumber y with
    | none => simp
    | some t =>
        rw [num, finiteOf_of_jsonNumber hy, Option.map_some, Option.some.injEq] at hout
        simpa using hout
  have hheight := num_eq_iff hhae
  constructor
  · intro htrue
    exact ⟨(hnumber hlon).mp htrue.lon, (hnumber hlat).mp htrue.lat, hheight.mp htrue.hae⟩
  · intro hnumbers
    exact ⟨(hnumber hlon).mpr hnumbers.1, (hnumber hlat).mpr hnumbers.2.1,
      hheight.mpr hnumbers.2.2⟩

theorem haeOf_eq_iff {coordHae hae : String} (hcoord : num rt (coords.item 2) "0" = some coordHae)
    (h : haeOf rt config (propertiesOf feature) coordHae = some hae) :
    hae = heightOf rt config feature coords ↔ HeightAgrees rt config feature coords := by
  have hthird := num_eq_iff hcoord
  rw [haeOf] at h
  rw [heightOf, HeightAgrees, altitude]
  split_ifs at h with hname
  · obtain rfl := Option.some.inj h
    rw [if_pos hname]
    exact hthird
  · rw [if_neg hname]
    simp only [Option.bind_some]
    generalize member rt config.altitudeProp (propertiesOf feature) = x at h ⊢
    rw [num, Option.map_eq_some_iff] at h
    obtain ⟨found, hfound, rfl⟩ := h
    cases hx : jsonNumber x with
    | some t =>
        rw [finiteOf_of_jsonNumber hx, Option.some.injEq] at hfound
        simp [← hfound]
    | none =>
        rw [hfound]
        cases found with
        | none => simpa using hthird
        | some n => simp

theorem pointTrue_iff {lon lat : String} (hlon : finiteOf rt (coords.item 0) = some (some lon))
    (hlat : finiteOf rt (coords.item 1) = some (some lat))
    (h : placedCot rt config feature idx coords lon lat = some cot) :
    PointTrue rt config feature coords cot ↔
      (jsonNumber (coords.item 0)).isSome ∧ (jsonNumber (coords.item 1)).isSome ∧
        HeightAgrees rt config feature coords := by
  obtain ⟨coordHae, hcoord, h⟩ := Option.bind_eq_some_iff.mp h
  obtain ⟨hae, hhae, h⟩ := Option.bind_eq_some_iff.mp h
  obtain ⟨callsign, -, h⟩ := Option.bind_eq_some_iff.mp h
  obtain ⟨remarks, -, h⟩ := Option.bind_eq_some_iff.mp h
  obtain ⟨uid, -, h⟩ := Option.bind_eq_some_iff.mp h
  obtain ⟨track, -, h⟩ := Option.bind_eq_some_iff.mp h
  have hcot := Option.some.inj h
  have hheight : hae = heightOf rt config feature coords ↔ HeightAgrees rt config feature coords :=
    haeOf_eq_iff hcoord hhae
  rw [← jsonNumber_eq_some_iff hlon, ← jsonNumber_eq_some_iff hlat, ← hheight, ← hcot]
  constructor
  · exact fun htrue => ⟨htrue.lon, htrue.lat, htrue.hae⟩
  · exact fun hall => ⟨hall.1, hall.2.1, hall.2.2⟩

theorem forall₂_of_mapM {α β : Type} {f : α → Option β} {items : List α} {out : List β}
    (h : items.mapM f = some out) : List.Forall₂ (fun item b => f item = some b) items out := by
  induction items generalizing out with
  | nil =>
      obtain rfl : [] = out := Option.some.inj h
      exact List.Forall₂.nil
  | cons item items ih =>
      obtain ⟨first, rest, hfirst, hrest, rfl⟩ := Loop.mapM_cons_eq_some.mp h
      exact List.Forall₂.cons hfirst (ih hrest)

theorem links_true_iff {items : List Js} {links : List Link}
    (h : List.Forall₂ (fun v link => linkOf rt v = some link) items links) :
    List.Forall₂ LinkTrue items links ↔ ∀ v ∈ items, VertexNumbers rt v := by
  induction h with
  | nil => simp
  | cons hlink _ ih => rw [List.forall₂_cons, ih, linkOf_true_iff hlink, List.forall_mem_cons]

theorem shapeTrue_iff {vertices : Js} (h : shapeCot rt config feature idx vertices = some cot) :
    ShapeTrue rt vertices cot ↔
      ∃ items, vertexList vertices = some items ∧ ∀ v ∈ items, VertexNumbers rt v := by
  obtain ⟨isClosed, -, h⟩ := Option.bind_eq_some_iff.mp h
  obtain ⟨items, hitems, h⟩ := Option.bind_eq_some_iff.mp h
  obtain ⟨links, hlinks, h⟩ := Option.bind_eq_some_iff.mp h
  obtain ⟨callsign, -, h⟩ := Option.bind_eq_some_iff.mp h
  obtain ⟨remarks, -, h⟩ := Option.bind_eq_some_iff.mp h
  obtain ⟨uid, -, h⟩ := Option.bind_eq_some_iff.mp h
  have hcot := Option.some.inj h
  have hiff := links_true_iff (forall₂_of_mapM hlinks)
  constructor
  · rintro ⟨items', links', hitems', hdrawing, htrue, -⟩
    rw [← hcot] at hdrawing
    obtain rfl := Option.some.inj (hitems.symm.trans hitems')
    rw [Drawing.shape.injEq] at hdrawing
    exact ⟨items, hitems, hiff.mp (hdrawing ▸ htrue)⟩
  · rintro ⟨items', hitems', hnumbers⟩
    obtain rfl := Option.some.inj (hitems.symm.trans hitems')
    rw [← hcot]
    refine ⟨items, links, hitems, rfl, hiff.mpr hnumbers, _, _, ?_, rfl, rfl⟩
    split_ifs
    · exact List.dropLast_prefix links
    · exact List.prefix_rfl

/-- An event of a feature is where the feature is if and only if its positions are numbers. -/
theorem buildCot_true_iff (h : buildCot rt config feature idx = some (some cot)) :
    PositionsTrue rt config feature cot ↔ Numbers rt config feature := by
  rw [PositionsTrue, Numbers]
  rcases buildCot_cases h with ⟨hpoint, lon, lat, hlon, hlat, hplaced⟩ |
    ⟨vertices, hvertices, hshape⟩
  · rw [if_pos hpoint, if_pos hpoint]
    exact pointTrue_iff hlon hlat hplaced
  · obtain ⟨htype, rfl⟩ | ⟨htype, rfl⟩ := hvertices
    · rw [isString_iff] at htype
      have hring : verticesOf (feature.prop "geometry") = ringOf (feature.prop "geometry") := by
        rw [verticesOf, htype]
        rfl
      rw [htype, hring]
      exact shapeTrue_iff hshape
    · rw [isString_iff] at htype
      have hline : verticesOf (feature.prop "geometry") = lineOf (feature.prop "geometry") := by
        rw [verticesOf, htype]
        rfl
      rw [htype, hline]
      exact shapeTrue_iff hshape

/-- Every message is the event of a feature, and shows where it is if and only if the positions of
the feature are numbers. -/
theorem geojsonToCot_true_iff (rt : Runtime) (config : Config) (clock : Clock) {payload : Js}
    {features : List Js} {out : List Message} (hpayload : featuresOf payload = some features)
    (hout : geojsonToCot rt config clock payload = some out) :
    ∀ message ∈ out, ∃ now stale feature idx cot, (feature, idx) ∈ features.zipIdx ∧
      buildCot rt config feature idx = some (some cot) ∧ message = ⟨render now stale cot, cot.uid⟩ ∧
      (PositionsTrue rt config feature cot ↔ Numbers rt config feature) := by
  intro message hmessage
  obtain ⟨now, stale, feature, idx, cot, -, -, hentry, hcot, heq⟩ :=
    mem_geojsonToCot hpayload hout hmessage
  exact ⟨now, stale, feature, idx, cot, hentry, hcot, heq, buildCot_true_iff hcot⟩

end Numbers

/-! ## A feed -/

theorem geojsonToCot_true_mixed :
    ∃ out, geojsonToCot wholeRuntime defaultConfig someClock (collection mixedFeatures) =
        some out ∧
      ∀ message ∈ out, ∃ now stale feature idx cot, (feature, idx) ∈ mixedFeatures.zipIdx ∧
        buildCot wholeRuntime defaultConfig feature idx = some (some cot) ∧
        message = ⟨render now stale cot, cot.uid⟩ ∧
        (PositionsTrue wholeRuntime defaultConfig feature cot ↔
          Numbers wholeRuntime defaultConfig feature) := by
  have hsome : (geojsonToCot wholeRuntime defaultConfig someClock
      (collection mixedFeatures)).isSome := by decide +kernel
  obtain ⟨out, hout⟩ := Option.isSome_iff_exists.mp hsome
  exact ⟨out, hout, geojsonToCot_true_iff wholeRuntime defaultConfig someClock rfl hout⟩

/-- A point with no longitude. -/
def halfPoint : Js := featureWith "Point" (.arr [.null, .num "47"])

/-- It is drawn at longitude 0. -/
theorem buildCot_halfPoint : ∃ cot,
    buildCot wholeRuntime defaultConfig halfPoint 0 = some (some cot) ∧ cot.lon = "0" ∧
      ¬ PositionsTrue wholeRuntime defaultConfig halfPoint cot := by
  refine ⟨⟨"geojson-0", "a-u-G", "47", "0", "0", "A", "", .marker none⟩, rfl, rfl, ?_⟩
  intro htrue
  have hpoint : PointTrue wholeRuntime defaultConfig halfPoint (.arr [.null, .num "47"]) _ := htrue
  cases hpoint.lon

end FastTAK.NodeRed.Positions
