import FastTAK.NodeRed.GeoJson

/-!
# Batches of features

A run of the subflow delivers what it makes of each feature alone, unless a feature of the batch
throws.
-/

namespace FastTAK.NodeRed.Batches

open FastTAK.NodeRed.GeoJson

/-! ## Features that do not throw -/

/-- `String(x)` and `Number(x)` do not throw. -/
def prints (x : Js) : Bool := x.text.isSome

/-- The id that a feature carries. -/
def explicitId (feature : Js) : Js :=
  let properties := feature.prop "properties"
  if !(feature.prop "id").isNullish then feature.prop "id"
  else if properties.truthy then properties.prop "id"
  else .undefined

def labelPrints (rt : Runtime) (name : String) (props : Js) : Bool :=
  !(member rt name props).truthy || prints (member rt name props)

def settingPrints (rt : Runtime) (name : String) (props : Js) : Bool :=
  name = "" || prints (member rt name props)

/-- What every event shows of its feature. -/
def showsPrint (rt : Runtime) (config : Config) (feature : Js) : Bool :=
  let props := propertiesOf feature
  labelPrints rt config.callsignProp props && labelPrints rt config.remarksProp props &&
    prints (explicitId feature)

/-- Longitude and latitude become finite numbers. -/
def located (rt : Runtime) (coords : Js) : Bool :=
  (finiteOf rt (coords.item 0)).join.isSome && (finiteOf rt (coords.item 1)).join.isSome

def pointTotal (rt : Runtime) (config : Config) (feature : Js) : Bool :=
  let coords := (feature.prop "geometry").prop "coordinates"
  let props := propertiesOf feature
  !coords.isNullish && prints (coords.item 0) && prints (coords.item 1) &&
    (!located rt coords || (prints (coords.item 2) && settingPrints rt config.altitudeProp props &&
      showsPrint rt config feature && settingPrints rt config.speedProp props &&
      settingPrints rt config.courseProp props))

/-- A vertex is there, and its entries become numbers. -/
def vertexTotal (v : Js) : Bool :=
  !v.isNullish && prints (v.item 0) && prints (v.item 1) && prints (v.item 2)

def verticesTotal : Js → Bool
  | .arr items => items.all vertexTotal
  | .str _ => true
  | _ => false

def shapeTotal (rt : Runtime) (config : Config) (feature : Js) (k : ℕ) (vertices : Js) : Bool :=
  match shorter rt k vertices with
  | none => false
  | some true => true
  | some false => verticesTotal vertices && showsPrint rt config feature

/-- A feature that can be converted or dropped. -/
def total (rt : Runtime) (config : Config) (feature : Js) : Bool :=
  let geom := feature.prop "geometry"
  if !feature.truthy || !geom.truthy then true
  else if isString "Point" (geom.prop "type") then pointTotal rt config feature
  else if isString "Polygon" (geom.prop "type") then
    shapeTotal rt config feature 3 (ringOf geom)
  else if isString "LineString" (geom.prop "type") then
    shapeTotal rt config feature 2 (lineOf geom)
  else true

/-- Points with a position, and outer rings and lines of sufficient length. -/
def convertible (rt : Runtime) (feature : Js) : Bool :=
  let geom := feature.prop "geometry"
  if !feature.truthy || !geom.truthy then false
  else if isString "Point" (geom.prop "type") then located rt (geom.prop "coordinates")
  else if isString "Polygon" (geom.prop "type") then shorter rt 3 (ringOf geom) = some false
  else if isString "LineString" (geom.prop "type") then shorter rt 2 (lineOf geom) = some false
  else false

section Throws

variable {α β : Type} {rt : Runtime} {config : Config} {feature x props vertices : Js} {idx k : ℕ}
  {name : String}

theorem isSome_bind {o : Option α} {f : α → Option β} {b : Bool}
    (h : ∀ a, o = some a → (f a).isSome = b) : (o >>= f).isSome = (o.isSome && b) := by
  cases o with
  | none => rfl
  | some a => exact h a rfl

theorem isSome_numberOf (rt : Runtime) (x : Js) : (numberOf rt x).isSome = prints x := by
  cases x <;> simp [numberOf, prints, Js.text]

theorem isSome_finiteOf (rt : Runtime) (x : Js) : (finiteOf rt x).isSome = prints x := by
  rw [finiteOf, Option.isSome_map, isSome_numberOf]

theorem isSome_num (rt : Runtime) (x : Js) (fallback : String) : (num rt x fallback).isSome = prints x := by
  rw [num, Option.isSome_map, isSome_finiteOf]

theorem isSome_label (name : String) (props : Js) :
    (label rt name props).isSome = labelPrints rt name props := by
  rw [label, labelPrints, Js.orElse]
  cases (member rt name props).truthy with
  | true => rfl
  | false => simp [Js.text]

theorem isSome_tracked (name : String) (props : Js) :
    (tracked rt name props).isSome = settingPrints rt name props := by
  rw [tracked, settingPrints]
  by_cases hname : name = ""
  · simp [hname]
  · cases hmember : member rt name props <;>
      simp [hname, Js.isNullish, isSome_finiteOf, prints, Js.text]

theorem idOf_eq (feature : Js) (idx : ℕ) :
    idOf feature idx =
      if (explicitId feature).isNullish then .num (toString idx) else explicitId feature := by
  rw [idOf, explicitId]
  cases hid : (feature.prop "id").isNullish with
  | false => simp [hid]
  | true =>
      cases hproperties : (feature.prop "properties").truthy with
      | false => simp [Js.isNullish]
      | true =>
          cases hprops : ((feature.prop "properties").prop "id").isNullish with
          | true => simp [hprops]
          | false => simp [hprops]

theorem prints_of_isNullish (h : x.isNullish) : prints x := by
  cases x <;> simp_all [Js.isNullish, prints, Js.text]

theorem isSome_stableUid (config : Config) (feature : Js) (idx : ℕ) :
    (stableUid config feature idx).isSome = prints (explicitId feature) := by
  rw [stableUid, Option.isSome_map, idOf_eq]
  split_ifs with hnullish
  · rw [prints_of_isNullish hnullish]
    simp [Js.text]
  · rfl

theorem isSome_trackElement (config : Config) (props : Js) :
    (trackElement rt config props).isSome =
      (settingPrints rt config.speedProp props && settingPrints rt config.courseProp props) := by
  rw [trackElement, ← isSome_tracked, ← isSome_tracked]
  apply isSome_bind
  intro speed _
  rw [isSome_bind (b := true) fun _ _ => rfl, Bool.and_true]

theorem isSome_haeOf (props : Js) (coordHae : String) :
    (haeOf rt config props coordHae).isSome = settingPrints rt config.altitudeProp props := by
  rw [haeOf, settingPrints]
  split_ifs with hname
  · simp [hname]
  · simp [hname, isSome_num]

theorem isSome_shows {f : String → String → String → Option α} {b : Bool}
    (h : ∀ callsign remarks uid, (f callsign remarks uid).isSome = b) :
    (label rt config.callsignProp (propertiesOf feature) >>= fun callsign =>
      label rt config.remarksProp (propertiesOf feature) >>= fun remarks =>
        stableUid config feature idx >>= fun uid => f callsign remarks uid).isSome =
      (showsPrint rt config feature && b) := by
  rw [showsPrint, ← isSome_label, ← isSome_label, ← isSome_stableUid config feature idx,
    Bool.and_assoc, Bool.and_assoc]
  apply isSome_bind
  intro callsign _
  apply isSome_bind
  intro remarks _
  apply isSome_bind
  exact fun uid _ => h callsign remarks uid

/-- A point with a position. -/
theorem isSome_placedCot (rt : Runtime) (config : Config) (feature : Js) (idx : ℕ) (coords : Js)
    (lon lat : String) :
    (placedCot rt config feature idx coords lon lat).isSome =
      (prints (coords.item 2) && settingPrints rt config.altitudeProp (propertiesOf feature) &&
        showsPrint rt config feature && settingPrints rt config.speedProp (propertiesOf feature) &&
        settingPrints rt config.courseProp (propertiesOf feature)) := by
  rw [← isSome_num rt (coords.item 2) "0", Bool.and_assoc, Bool.and_assoc, Bool.and_assoc,
    ← isSome_trackElement, placedCot]
  apply isSome_bind
  intro coordHae _
  rw [← isSome_haeOf (propertiesOf feature) coordHae]
  apply isSome_bind
  intro hae _
  apply isSome_shows
  intro callsign remarks uid
  rw [isSome_bind (b := true) fun _ _ => rfl, Bool.and_true]

theorem isSome_pointCot (rt : Runtime) (config : Config) (feature : Js) (idx : ℕ) :
    (pointCot rt config feature idx).isSome = pointTotal rt config feature := by
  rw [pointCot, pointTotal]
  generalize (feature.prop "geometry").prop "coordinates" = coords
  cases hcoords : coords.isNullish with
  | true => rfl
  | false =>
      have hlon := isSome_finiteOf rt (coords.item 0)
      have hlat := isSome_finiteOf rt (coords.item 1)
      rw [located, ← hlon, ← hlat, ← isSome_placedCot rt config feature idx coords "" ""]
      cases finiteOf rt (coords.item 0) with
      | none => rfl
      | some lon =>
          cases finiteOf rt (coords.item 1) with
          | none => cases lon <;> rfl
          | some lat =>
              cases lon with
              | none => rfl
              | some lon =>
                  cases lat with
                  | none => rfl
                  | some lat =>
                      have hplaced : (placedCot rt config feature idx coords lon lat).isSome =
                          (placedCot rt config feature idx coords "" "").isSome := by
                        rw [isSome_placedCot, isSome_placedCot]
                      change (placedCot rt config feature idx coords lon lat >>= fun cot =>
                        some (some cot)).isSome = _
                      rw [isSome_bind (b := true) fun _ _ => rfl, hplaced]
                      simp

theorem isSome_linkOf (rt : Runtime) (v : Js) : (linkOf rt v).isSome = vertexTotal v := by
  rw [linkOf, vertexTotal]
  cases hv : v.isNullish with
  | true => rfl
  | false =>
      rw [if_neg Bool.false_ne_true, Bool.not_false, Bool.true_and, Bool.and_assoc,
        ← isSome_num rt (v.item 0) "0", ← isSome_num rt (v.item 1) "0",
        ← isSome_num rt (v.item 2) "0"]
      apply isSome_bind
      intro lon _
      apply isSome_bind
      intro lat _
      rw [isSome_bind (b := true) fun _ _ => rfl, Bool.and_true]

theorem isSome_mapM {f : α → Option β} (items : List α) :
    (items.mapM f).isSome = items.all fun item => (f item).isSome := by
  induction items with
  | nil => rfl
  | cons item items ih =>
      rw [List.mapM_cons, List.all_cons, ← ih]
      apply isSome_bind
      intro b _
      rw [isSome_bind (b := true) fun _ _ => rfl, Bool.and_true]

/-- Vertices that are all there can be compared. -/
theorem isSome_closed {items : List Js} (hne : items ≠ []) (hitems : items.all vertexTotal) :
    (closed (.arr items)).isSome := by
  rw [List.all_eq_true] at hitems
  have hpresent : ∀ v ∈ items, v.isNullish = false := by
    intro v hv
    have htotal := hitems v hv
    simp only [vertexTotal, Bool.and_eq_true, Bool.not_eq_true'] at htotal
    exact htotal.1.1.1
  rw [closed, List.head?_eq_some_head hne, List.getLast?_eq_some_getLast hne]
  simp only [Option.bind_eq_bind, Option.bind_some, hpresent _ (List.head_mem hne),
    hpresent _ (List.getLast_mem hne), Bool.or_self, Bool.false_eq_true, if_false]
  split_ifs
  · rfl
  · rfl

theorem isSome_vertices (rt : Runtime) {vertices : Js} (hne : vertices ≠ .arr []) :
    ((closed vertices).isSome && (vertexList vertices >>= fun items =>
        items.mapM (linkOf rt)).isSome) = verticesTotal vertices := by
  have hlinks : ∀ items : List Js, (items.mapM (linkOf rt)).isSome = items.all vertexTotal := by
    intro items
    rw [isSome_mapM]
    exact congrArg (items.all ·) (funext fun v => isSome_linkOf rt v)
  cases vertices with
  | arr items =>
      have hitems : items ≠ [] := fun h => hne (by rw [h])
      change ((closed (.arr items)).isSome && (items.mapM (linkOf rt)).isSome) =
        items.all vertexTotal
      rw [hlinks]
      cases hall : items.all vertexTotal with
      | false => rw [Bool.and_false]
      | true => rw [isSome_closed hitems hall, Bool.and_true]
  | str s =>
      change (true && ((s.toList.map fun c => Js.str (String.singleton c)).mapM
        (linkOf rt)).isSome) = true
      rw [hlinks, Bool.true_and, List.all_map, List.all_eq_true]
      intro c _
      have hitem : ∀ i, prints ((Js.str (String.singleton c)).item i) := by
        intro i
        rw [Js.item]
        cases (String.singleton c).toList[i]? with
        | none => rfl
        | some d => rfl
      simp [vertexTotal, Js.isNullish, hitem]
  | undefined => rfl
  | null => rfl
  | bool b => rfl
  | num text => rfl
  | obj fields => rfl

theorem isSome_shapeCot (rt : Runtime) (config : Config) (feature : Js) (idx : ℕ) {vertices : Js}
    (hne : vertices ≠ .arr []) :
    (shapeCot rt config feature idx vertices).isSome =
      (verticesTotal vertices && showsPrint rt config feature) := by
  rw [← isSome_vertices rt hne, Bool.and_assoc, shapeCot]
  apply isSome_bind
  intro isClosed _
  cases vertexList vertices with
  | none => rfl
  | some items =>
      change (items.mapM (linkOf rt) >>= fun links => _).isSome =
        ((items.mapM (linkOf rt)).isSome && _)
      apply isSome_bind
      intro links _
      apply Eq.trans (isSome_shows (b := true) ?_) (Bool.and_true _)
      exact fun _ _ _ => rfl

theorem isSome_shapeOf (rt : Runtime) (config : Config) (feature : Js) (idx : ℕ) {k : ℕ}
    (hk : k ≠ 0) (vertices : Js) :
    (shapeOf rt config feature idx k vertices).isSome =
      shapeTotal rt config feature k vertices := by
  rw [shapeOf, shapeTotal]
  cases hshort : shorter rt k vertices with
  | none => rfl
  | some short =>
      cases short with
      | true => rfl
      | false =>
          have hne : vertices ≠ .arr [] := by
            intro h
            rw [h, shorter, Option.some.injEq, decide_eq_false_iff_not] at hshort
            exact hshort (Nat.pos_of_ne_zero hk)
          simp only
          rw [← isSome_shapeCot rt config feature idx hne]
          change (shapeCot rt config feature idx vertices >>= fun cot => some (some cot)).isSome = _
          rw [isSome_bind (b := true) fun _ _ => rfl, Bool.and_true]

theorem placedCot_uid {coords : Js} {lon lat : String} {cot : Cot}
    (h : placedCot rt config feature idx coords lon lat = some cot) :
    stableUid config feature idx = some cot.uid := by
  obtain ⟨coordHae, -, h⟩ := Option.bind_eq_some_iff.mp h
  obtain ⟨hae, -, h⟩ := Option.bind_eq_some_iff.mp h
  obtain ⟨callsign, -, h⟩ := Option.bind_eq_some_iff.mp h
  obtain ⟨remarks, -, h⟩ := Option.bind_eq_some_iff.mp h
  obtain ⟨uid, huid, h⟩ := Option.bind_eq_some_iff.mp h
  obtain ⟨track, -, h⟩ := Option.bind_eq_some_iff.mp h
  rw [huid, ← Option.some.inj h]

theorem shapeCot_uid {cot : Cot} (h : shapeCot rt config feature idx vertices = some cot) :
    stableUid config feature idx = some cot.uid := by
  obtain ⟨isClosed, -, h⟩ := Option.bind_eq_some_iff.mp h
  obtain ⟨items, -, h⟩ := Option.bind_eq_some_iff.mp h
  obtain ⟨links, -, h⟩ := Option.bind_eq_some_iff.mp h
  obtain ⟨callsign, -, h⟩ := Option.bind_eq_some_iff.mp h
  obtain ⟨remarks, -, h⟩ := Option.bind_eq_some_iff.mp h
  obtain ⟨uid, huid, h⟩ := Option.bind_eq_some_iff.mp h
  rw [huid, ← Option.some.inj h]

theorem pointCot_placed {cot : Cot} (h : pointCot rt config feature idx = some (some cot)) :
    ∃ lon lat,
      finiteOf rt (((feature.prop "geometry").prop "coordinates").item 0) = some (some lon) ∧
      finiteOf rt (((feature.prop "geometry").prop "coordinates").item 1) = some (some lat) ∧
      placedCot rt config feature idx ((feature.prop "geometry").prop "coordinates") lon lat =
        some cot := by
  rw [pointCot] at h
  generalize (feature.prop "geometry").prop "coordinates" = coords at h ⊢
  split_ifs at h
  obtain ⟨lon, hlon, h⟩ := Option.bind_eq_some_iff.mp h
  obtain ⟨lat, hlat, h⟩ := Option.bind_eq_some_iff.mp h
  cases lon with
  | none => cases h
  | some lon =>
      cases lat with
      | none => cases h
      | some lat =>
          obtain ⟨found, hfound, h⟩ := Option.bind_eq_some_iff.mp h
          obtain rfl : found = cot := Option.some.inj (Option.some.inj h)
          exact ⟨lon, lat, hlon, hlat, hfound⟩

/-- An event is a placed point or a shape. -/
theorem buildCot_cases {cot : Cot} (h : buildCot rt config feature idx = some (some cot)) :
    (isString "Point" ((feature.prop "geometry").prop "type") ∧ ∃ lon lat,
      finiteOf rt (((feature.prop "geometry").prop "coordinates").item 0) = some (some lon) ∧
      finiteOf rt (((feature.prop "geometry").prop "coordinates").item 1) = some (some lat) ∧
      placedCot rt config feature idx ((feature.prop "geometry").prop "coordinates") lon lat =
        some cot) ∨
    ∃ vertices, (isString "Polygon" ((feature.prop "geometry").prop "type") ∧
        vertices = ringOf (feature.prop "geometry") ∨
      isString "LineString" ((feature.prop "geometry").prop "type") ∧
        vertices = lineOf (feature.prop "geometry")) ∧
      shapeCot rt config feature idx vertices = some cot := by
  have hshape : ∀ k vertices, shapeOf rt config feature idx k vertices = some (some cot) →
      shapeCot rt config feature idx vertices = some cot := by
    intro k vertices hcot
    obtain ⟨short, -, hcot⟩ := Option.bind_eq_some_iff.mp hcot
    cases short with
    | true => cases hcot
    | false =>
        obtain ⟨found, hfound, hcot⟩ := Option.bind_eq_some_iff.mp hcot
        rw [hfound, Option.some.inj (Option.some.inj hcot)]
  rw [buildCot] at h
  split_ifs at h with hgeom hpoint hpolygon hline
  · cases h
  · exact Or.inl ⟨hpoint, pointCot_placed h⟩
  · exact Or.inr ⟨_, Or.inl ⟨hpolygon, rfl⟩, hshape _ _ h⟩
  · exact Or.inr ⟨_, Or.inr ⟨hline, rfl⟩, hshape _ _ h⟩
  · cases h

theorem buildCot_uid {cot : Cot} (h : buildCot rt config feature idx = some (some cot)) :
    stableUid config feature idx = some cot.uid := by
  rcases buildCot_cases h with ⟨-, lon, lat, -, -, hplaced⟩ | ⟨vertices, -, hshape⟩
  · exact placedCot_uid hplaced
  · exact shapeCot_uid hshape

theorem isSome_buildCot (rt : Runtime) (config : Config) (feature : Js) (idx : ℕ) :
    (buildCot rt config feature idx).isSome = total rt config feature := by
  rw [buildCot, total]
  split_ifs
  · rfl
  · exact isSome_pointCot rt config feature idx
  · exact isSome_shapeOf rt config feature idx (by decide) _
  · exact isSome_shapeOf rt config feature idx (by decide) _
  · rfl

theorem isSome_convert (rt : Runtime) (config : Config) (now stale : List Char) (feature : Js)
    (idx : ℕ) : (convert rt config now stale feature idx).isSome = total rt config feature := by
  rw [← isSome_buildCot rt config feature idx, convert]
  cases hcot : buildCot rt config feature idx with
  | none => rfl
  | some result =>
      cases result with
      | none => rfl
      | some cot =>
          change (stableUid config feature idx >>= fun uid =>
            some (some (Message.mk (render now stale cot) uid))).isSome = true
          rw [isSome_bind (b := true) fun _ _ => rfl, Bool.and_true, buildCot_uid hcot]
          rfl

theorem isSome_join_pointCot (htotal : pointTotal rt config feature) :
    (pointCot rt config feature idx).join.isSome =
      located rt ((feature.prop "geometry").prop "coordinates") := by
  rw [← isSome_pointCot rt config feature idx] at htotal
  obtain ⟨result, hresult⟩ := Option.isSome_iff_exists.mp htotal
  cases result with
  | some cot =>
      obtain ⟨lon, lat, hlon, hlat, -⟩ := pointCot_placed hresult
      rw [hresult, located, hlon, hlat]
      rfl
  | none =>
      rw [hresult]
      rw [pointCot] at hresult
      generalize (feature.prop "geometry").prop "coordinates" = coords at hresult ⊢
      split_ifs at hresult
      obtain ⟨lon, hlon, hresult⟩ := Option.bind_eq_some_iff.mp hresult
      obtain ⟨lat, hlat, hresult⟩ := Option.bind_eq_some_iff.mp hresult
      rw [located, hlon, hlat]
      cases lon with
      | none => rfl
      | some lon =>
          cases lat with
          | none => rfl
          | some lat =>
              obtain ⟨cot, -, hresult⟩ := Option.bind_eq_some_iff.mp hresult
              cases Option.some.inj hresult

theorem isSome_join_shapeOf (hk : k ≠ 0) (htotal : shapeTotal rt config feature k vertices) :
    (shapeOf rt config feature idx k vertices).join.isSome =
      decide (shorter rt k vertices = some false) := by
  rw [← isSome_shapeOf rt config feature idx hk vertices] at htotal
  obtain ⟨result, hresult⟩ := Option.isSome_iff_exists.mp htotal
  rw [hresult]
  obtain ⟨short, hshort, hresult⟩ := Option.bind_eq_some_iff.mp hresult
  rw [hshort]
  cases short with
  | true =>
      obtain rfl : none = result := Option.some.inj hresult
      rfl
  | false =>
      obtain ⟨cot, -, hresult⟩ := Option.bind_eq_some_iff.mp hresult
      obtain rfl : some cot = result := Option.some.inj hresult
      rfl

theorem isSome_join_buildCot (config : Config) (idx : ℕ) (htotal : total rt config feature) :
    (buildCot rt config feature idx).join.isSome = convertible rt feature := by
  rw [buildCot, convertible]
  rw [total] at htotal
  split_ifs at htotal ⊢ with hgeom hpoint hpolygon hline
  · rfl
  · exact isSome_join_pointCot htotal
  · exact isSome_join_shapeOf (by decide) htotal
  · exact isSome_join_shapeOf (by decide) htotal
  · rfl

theorem isSome_join_convert (now stale : List Char) (htotal : total rt config feature) :
    (convert rt config now stale feature idx).join.isSome = convertible rt feature := by
  rw [← isSome_join_buildCot config idx htotal, convert]
  cases hcot : buildCot rt config feature idx with
  | none => rfl
  | some result =>
      cases result with
      | none => rfl
      | some cot =>
          change (stableUid config feature idx >>= fun uid =>
            some (some (Message.mk (render now stale cot) uid))).join.isSome = true
          rw [buildCot_uid hcot]
          rfl

end Throws

/-! ## Batches -/

section Batches

variable {rt : Runtime} {config : Config}

theorem reduceOption_of_mapM {α β : Type} {f : α → Option (Option β)} {items : List α}
    {out : List (Option β)} (h : items.mapM f = some out) :
    out.reduceOption = items.filterMap fun item => (f item).join := by
  induction items generalizing out with
  | nil =>
      obtain rfl : [] = out := Option.some.inj h
      rfl
  | cons item items ih =>
      rw [List.mapM_cons] at h
      obtain ⟨first, hfirst, h⟩ := Option.bind_eq_some_iff.mp h
      obtain ⟨rest, hrest, h⟩ := Option.bind_eq_some_iff.mp h
      obtain rfl : first :: rest = out := Option.some.inj h
      rw [List.filterMap_cons, hfirst, ← ih hrest]
      cases first with
      | none => rfl
      | some b => rfl

/-- Nothing is thrown, what is delivered is what each feature gives alone, and these are the
features that can be converted. -/
def Resilient (rt : Runtime) (config : Config) (clock : Clock) (payload : Js)
    (features : List Js) : Prop :=
  ∃ now stale, iso clock.now = some now ∧ staleText config clock = some stale ∧
    geojsonToCot rt config clock payload = some (features.zipIdx.filterMap fun entry =>
      (convert rt config now stale entry.1 entry.2).join) ∧
    ∀ entry ∈ features.zipIdx,
      (convert rt config now stale entry.1 entry.2).join.isSome = convertible rt entry.1

theorem mem_zipIdx_iff {features : List Js} {feature : Js} :
    feature ∈ features ↔ ∃ idx, (feature, idx) ∈ features.zipIdx := by
  rw [List.mem_iff_getElem?]
  simp only [List.mem_zipIdx_iff_getElem?]

theorem geojsonToCot_eq {clock : Clock} {payload : Js} {features : List Js}
    {now stale : List Char} (hpayload : featuresOf payload = some features)
    (hnow : iso clock.now = some now) (hstale : staleText config clock = some stale) :
    geojsonToCot rt config clock payload =
      (features.zipIdx.mapM fun entry => convert rt config now stale entry.1 entry.2).map
        List.reduceOption := by
  rw [geojsonToCot, hpayload, Option.bind_some, convertAll, hnow, hstale, Option.map_eq_bind]
  rfl

/-- The loop gets to its end if no feature throws. -/
theorem isSome_convert_all (rt : Runtime) (config : Config) (now stale : List Char)
    (features : List Js) :
    (features.zipIdx.mapM fun entry => convert rt config now stale entry.1 entry.2).isSome ↔
      ∀ feature ∈ features, total rt config feature := by
  rw [isSome_mapM, List.all_eq_true]
  constructor
  · intro hall feature hfeature
    obtain ⟨idx, hidx⟩ := mem_zipIdx_iff.mp hfeature
    rw [← isSome_convert rt config now stale feature idx]
    exact hall _ hidx
  · intro htotal entry hentry
    rw [isSome_convert]
    exact htotal _ (mem_zipIdx_iff.mpr ⟨entry.2, hentry⟩)

/-- What came out of a batch is what each feature gives alone. -/
theorem geojsonToCot_out {clock : Clock} {payload : Js} {features : List Js} {out : List Message}
    (hpayload : featuresOf payload = some features)
    (hout : geojsonToCot rt config clock payload = some out) :
    ∃ now stale, iso clock.now = some now ∧ staleText config clock = some stale ∧
      out = features.zipIdx.filterMap (fun entry =>
        (convert rt config now stale entry.1 entry.2).join) ∧
      ∀ feature ∈ features, total rt config feature := by
  obtain ⟨now, hnow⟩ : ∃ now, iso clock.now = some now := ⟨_, if_pos clock.now_valid⟩
  have hstale : ∃ stale, staleText config clock = some stale := by
    rw [geojsonToCot, hpayload, Option.bind_some, convertAll, hnow] at hout
    obtain ⟨_, -, hout⟩ := Option.bind_eq_some_iff.mp hout
    obtain ⟨stale, hstale, -⟩ := Option.bind_eq_some_iff.mp hout
    exact ⟨stale, hstale⟩
  obtain ⟨stale, hstale⟩ := hstale
  rw [geojsonToCot_eq hpayload hnow hstale] at hout
  obtain ⟨results, hresults, rfl⟩ := Option.map_eq_some_iff.mp hout
  refine ⟨now, stale, hnow, hstale, reduceOption_of_mapM hresults, ?_⟩
  rw [← isSome_convert_all rt config now stale features, hresults]
  rfl

/-- The message of a feature is its event. -/
theorem convert_eq_some_iff {now stale : List Char} {feature : Js} {idx : ℕ} {message : Message} :
    convert rt config now stale feature idx = some (some message) ↔
      ∃ cot, buildCot rt config feature idx = some (some cot) ∧
        message = ⟨render now stale cot, cot.uid⟩ := by
  constructor
  · intro hconvert
    obtain ⟨result, hcot, hconvert⟩ := Option.bind_eq_some_iff.mp hconvert
    cases result with
    | none => cases Option.some.inj hconvert
    | some cot =>
        obtain ⟨uid, huid, hconvert⟩ := Option.bind_eq_some_iff.mp hconvert
        rw [buildCot_uid hcot, Option.some.injEq] at huid
        refine ⟨cot, hcot, ?_⟩
        rw [← Option.some.inj (Option.some.inj hconvert), huid]
  · rintro ⟨cot, hcot, rfl⟩
    rw [convert, hcot]
    simp only [Option.bind_eq_bind, Option.bind_some, buildCot_uid hcot]
    rfl

/-- A message is the event of a feature. -/
theorem mem_geojsonToCot {clock : Clock} {payload : Js} {features : List Js}
    {out : List Message} {message : Message} (hpayload : featuresOf payload = some features)
    (hout : geojsonToCot rt config clock payload = some out) (hmessage : message ∈ out) :
    ∃ now stale feature idx cot, iso clock.now = some now ∧
      staleText config clock = some stale ∧ (feature, idx) ∈ features.zipIdx ∧
      buildCot rt config feature idx = some (some cot) ∧
      message = ⟨render now stale cot, cot.uid⟩ := by
  obtain ⟨now, stale, hnow, hstale, rfl, -⟩ := geojsonToCot_out hpayload hout
  obtain ⟨⟨feature, idx⟩, hentry, hconvert⟩ := List.mem_filterMap.mp hmessage
  rw [Option.join_eq_some_iff] at hconvert
  obtain ⟨cot, hcot, hmessage⟩ := convert_eq_some_iff.mp hconvert
  exact ⟨now, stale, feature, idx, cot, hnow, hstale, hentry, hcot, hmessage⟩

/-- A batch arrives if and only if none of its features throws. -/
theorem geojsonToCot_resilient_iff (rt : Runtime) (config : Config) (clock : Clock) {payload : Js}
    {features : List Js} (hpayload : featuresOf payload = some features) :
    Resilient rt config clock payload features ↔
      (staleText config clock).isSome ∧ ∀ feature ∈ features, total rt config feature := by
  constructor
  · rintro ⟨now, stale, hnow, hstale, hout, -⟩
    refine ⟨by rw [hstale]; rfl, ?_⟩
    rw [geojsonToCot_eq hpayload hnow hstale] at hout
    rw [← isSome_convert_all rt config now stale features,
      ← Option.isSome_map (f := List.reduceOption), hout]
    rfl
  · rintro ⟨hstale, htotal⟩
    obtain ⟨stale, hstale⟩ := Option.isSome_iff_exists.mp hstale
    obtain ⟨now, hnow⟩ : ∃ now, iso clock.now = some now := ⟨_, if_pos clock.now_valid⟩
    obtain ⟨out, hout⟩ := Option.isSome_iff_exists.mp
      ((isSome_convert_all rt config now stale features).mpr htotal)
    refine ⟨now, stale, hnow, hstale, ?_, ?_⟩
    · rw [geojsonToCot_eq hpayload hnow hstale, ← reduceOption_of_mapM hout, hout]
      rfl
    · intro entry hentry
      exact isSome_join_convert now stale (htotal _ (mem_zipIdx_iff.mpr ⟨entry.2, hentry⟩))

end Batches

/-! ## Payloads of a feed -/

/-- A text that is no numeral stands for no number. -/
def numeralOr (s : String) : String := if isNumeral s then s else "NaN"

theorem isNumeral_numeralOr (s : String) : isNumeral (numeralOr s) := by
  rw [numeralOr]
  split_ifs with h
  · exact h
  · decide

/-- Arithmetic on whole numbers, and objects without the names that JavaScript gives them. -/
def wholeRuntime : Runtime where
  number s := numeralOr (if s = "" then "0" else (s.toInt?.elim "NaN" toString))
  add s t := numeralOr (toString (s.toInt?.getD 0 + t.toInt?.getD 0))
  divide s n := numeralOr (toString (s.toInt?.getD 0 / n))
  below s n := s.toInt?.any fun i => i < (n : ℤ)
  inherited _ _ := .undefined
  number_numeral _ := isNumeral_numeralOr _
  add_numeral _ _ := isNumeral_numeralOr _
  divide_numeral _ _ := isNumeral_numeralOr _
  inherited_text _ _ := rfl

def defaultConfig : Config := .ofEnv fun _ => ""

/-- A moment in 2026. -/
def someClock : Clock := ⟨1767225600000, 1767225600000, by decide⟩

def featureWith (type : String) (coordinates : Js) : Js :=
  .obj [("type", .str "Feature"),
    ("geometry", .obj [("type", .str type), ("coordinates", coordinates)]),
    ("properties", .obj [("name", .str "A")])]

def position (lon lat : String) : Js := .arr [.num lon, .num lat]

def collection (features : List Js) : Js :=
  .obj [("type", .str "FeatureCollection"), ("features", .arr features)]

def mixedFeatures : List Js :=
  [featureWith "Point" (position "8" "47"), .null, featureWith "MultiPoint" .null,
    featureWith "LineString" (.arr [position "0" "2", position "4" "6"]),
    featureWith "Polygon" (.arr [])]

def feedWithNull : List Js :=
  [featureWith "Point" (position "8" "47"), featureWith "Point" .null]

theorem geojsonToCot_mixed :
    Resilient wholeRuntime defaultConfig someClock (collection mixedFeatures) mixedFeatures := by
  apply (geojsonToCot_resilient_iff wholeRuntime defaultConfig someClock rfl).mpr
  constructor
  · decide +kernel
  · have hall : mixedFeatures.all (total wholeRuntime defaultConfig) := by decide +kernel
    exact List.all_eq_true.mp hall

/-- A point without coordinates takes the point before it with it. -/
theorem geojsonToCot_null :
    ¬ Resilient wholeRuntime defaultConfig someClock (collection feedWithNull) feedWithNull := by
  rintro ⟨now, stale, -, -, hout, -⟩
  have hthrown : (geojsonToCot wholeRuntime defaultConfig someClock
      (collection feedWithNull)).isNone := by decide +kernel
  rw [hout] at hthrown
  cases hthrown

end FastTAK.NodeRed.Batches
