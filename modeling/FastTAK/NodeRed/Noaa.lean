import FastTAK.Base.Loop
import FastTAK.NodeRed.Js

/-!
# NOAA weather alerts

The flow from a poll of the feed to the drawings on the map: `Transform`, `Track + Delete` and
the subflow that turns GeoJSON into CoT.  The tracker notes the alerts of a poll before the
subflow decides which of them to draw.
-/

namespace FastTAK.NodeRed.Noaa

/-! ## Transform -/

def isString (s : String) : Js → Bool
  | .str t => s == t
  | _ => false

/-- An alert as `fmt` leaves it, with the properties that later nodes read. -/
structure Feature where
  id : Js
  propertiesId : Js
  callsign : Js
  coordinates : Js

/-- `x && String(x)` does not throw. -/
def prints (x : Js) : Bool := !x.truthy || x.text.isSome

/-- `(x || '').replace` is there. -/
def replaceable : Js → Bool
  | .str _ => true
  | x => !x.truthy

/-- `fmt`.  Of the remarks only whether they can be made. -/
def fmt (feature : Js) : Option Feature :=
  let p := (feature.prop "properties").orElse (.obj [])
  let headline := ((p.prop "headline").orElse (p.prop "event")).orElse (.str "Weather Alert")
  let parts := [headline, p.prop "areaDesc", p.prop "severity", p.prop "certainty",
    p.prop "sent", p.prop "expires"]
  if replaceable (p.prop "description") && replaceable (p.prop "instruction") &&
      parts.all prints then
    some
      { id := (p.prop "id").orElse (feature.prop "id")
        propertiesId := p.prop "id"
        callsign := (p.prop "event").orElse (.str "Weather Alert")
        coordinates := (feature.prop "geometry").prop "coordinates" }
  else none

def isPolygon (feature : Js) : Bool :=
  let geometry := feature.prop "geometry"
  geometry.truthy && isString "Polygon" (geometry.prop "type")

/-- `Transform`: the alerts of a payload that it accepts. -/
def transform (payload : Js) : Option (List Feature) :=
  if payload.truthy && isString "FeatureCollection" (payload.prop "type") then
    match payload.prop "features" with
    | .arr features =>
        if features.any Js.isNullish then none
        else (features.filter isPolygon).mapM fmt
    | _ => none
  else none

/-! ## UIDs -/

/-- `uidFor` of the tracker and `stableUid` of the subflow. -/
def uidFor (feature : Feature) (idx : ℕ) : Option String :=
  let id :=
    if !feature.id.isNullish then feature.id
    else if !feature.propertiesId.isNullish then feature.propertiesId
    else .num (toString idx)
  id.text.map ("noaa-" ++ ·)

/-- The elements of a `Set`, in the order in which they were added. -/
def jsSet (xs : List String) : List String := xs.reverse.dedup.reverse

/-- `currentUids`, if no id throws. -/
def currentUids (features : List Feature) : Option (List String) :=
  (features.zipIdx.mapM fun entry => uidFor entry.1 entry.2).map jsSet

/-! ## The subflow -/

/-- What `buildCot` comes to. -/
inductive Drawing
  | skipped
  | drawn
  | thrown
deriving DecidableEq

/-- `v[0]`, `v[1]` and `v[2]` are there to be made numbers. -/
def vertexReads (v : Js) : Bool :=
  !v.isNullish && [0, 1, 2].all fun i => (v.item i).text.isSome

/-- `(geom.coordinates && geom.coordinates[0]) || []`. -/
def ringOf (feature : Feature) : Js :=
  if feature.coordinates.truthy then (feature.coordinates.item 0).orElse (.arr [])
  else .arr []

/-- `buildCot` of a polygon.  `below` says of the `length` of an object whether it is below 3. -/
def buildCot (below : Js → Bool) (feature : Feature) : Drawing :=
  match ringOf feature with
  | .arr vertices =>
      if vertices.length < 3 then .skipped
      else if vertices.all vertexReads && feature.callsign.text.isSome then .drawn
      else .thrown
  | .str s =>
      if Js.units s < 3 then .skipped
      else if feature.callsign.text.isSome then .drawn
      else .thrown
  | .obj fields => if below ((Js.obj fields).prop "length") then .skipped else .thrown
  | _ => .thrown

/-- The UIDs of the drawings that the subflow emits. -/
def emitted (below : Js → Bool) (features : List Feature) : List String :=
  if features.any fun feature => buildCot below feature = .thrown then []
  else
    features.zipIdx.filterMap fun entry =>
      if buildCot below entry.1 = .drawn then uidFor entry.1 entry.2 else none

/-! ## Polls -/

/-- What goes to TAK Server. -/
inductive Sent
  | draw (uid : String)
  | delete (uid : String)
deriving DecidableEq

/-- The flow context, and what was sent, the latest first. -/
structure Tab where
  seen : List String
  sent : List Sent
deriving DecidableEq

def Tab.start : Tab := ⟨[], []⟩

/-- `removed`: the UIDs that were seen and are not current. -/
def Tab.removed (tab : Tab) (current : List String) : List String :=
  (jsSet tab.seen).filter fun uid => !current.contains uid

/-- What one poll leads to. -/
def Tab.poll (below : Js → Bool) (tab : Tab) (payload : Js) : Tab :=
  match transform payload with
  | none => tab
  | some features =>
      match currentUids features with
      | none => tab
      | some current =>
          { seen := current
            sent := (tab.removed current).reverse.map .delete ++
              ((emitted below features).reverse.map .draw ++ tab.sent) }

/-! ## Drawings on the map -/

/-- The deletes of a UID since it was last drawn. -/
def deletesSince (sent : List Sent) (uid : String) : ℕ :=
  (sent.takeWhile (· ≠ .draw uid)).count (.delete uid)

/-- Drawn and not deleted since. -/
def OnMap (sent : List Sent) (uid : String) : Prop :=
  .draw uid ∈ sent ∧ deletesSince sent uid = 0

instance (sent : List Sent) (uid : String) : Decidable (OnMap sent uid) :=
  inferInstanceAs (Decidable (_ ∧ _))

/-- The UIDs that the subflow emits for a payload. -/
def emittedFor (below : Js → Bool) (payload : Js) : List String :=
  match transform payload with
  | none => []
  | some features => if (currentUids features).isSome then emitted below features else []

/-- The subflow draws what the tracker notes, of all that it ever drew. -/
def Faithful (below : Js → Bool) (tab : Tab) (payload : Js) : Prop :=
  ∀ features, transform payload = some features →
    (currentUids features = none → ∀ uid, ¬ OnMap tab.sent uid) ∧
    ∀ current, currentUids features = some current → ∀ uid ∈ current,
      .draw uid ∈ tab.sent → uid ∈ emitted below features

/-- The states that faithful polls lead to. -/
inductive Follows (below : Js → Bool) : Tab → Prop
  | start : Follows below .start
  | poll {tab : Tab} {payload : Js} (htab : Follows below tab)
      (hfaithful : Faithful below tab payload) : Follows below (tab.poll below payload)

section Sent

variable {sent : List Sent} {uids : List String} {uid : String}

theorem deletesSince_draws :
    deletesSince (uids.map .draw ++ sent) uid =
      if uid ∈ uids then 0 else deletesSince sent uid := by
  induction uids with
  | nil => rfl
  | cons first uids ih =>
      by_cases hsame : first = uid
      · subst hsame
        rw [if_pos List.mem_cons_self, deletesSince, List.map_cons, List.cons_append,
          List.takeWhile_cons_of_neg (by simp)]
        rfl
      · have hmem : uid ∈ first :: uids ↔ uid ∈ uids := by simp [Ne.symm hsame]
        simp only [hmem]
        rw [← ih, deletesSince, List.map_cons, List.cons_append,
          List.takeWhile_cons_of_pos (by simp [hsame]), List.count_cons_of_ne (by simp)]
        rfl

theorem deletesSince_deletes :
    deletesSince (uids.map .delete ++ sent) uid = uids.count uid + deletesSince sent uid := by
  induction uids with
  | nil => simp
  | cons first uids ih =>
      have hcons : deletesSince ((first :: uids).map .delete ++ sent) uid =
          deletesSince (uids.map .delete ++ sent) uid + if first = uid then 1 else 0 := by
        rw [deletesSince, List.map_cons, List.cons_append,
          List.takeWhile_cons_of_pos (by simp), List.count_cons]
        congr 1
        simp
      rw [hcons, ih, List.count_cons]
      simp only [beq_iff_eq]
      omega

theorem mem_draws_iff : .draw uid ∈ uids.map Sent.draw ++ sent ↔ uid ∈ uids ∨ .draw uid ∈ sent := by
  simp

theorem mem_deletes_iff : .draw uid ∈ uids.map Sent.delete ++ sent ↔ .draw uid ∈ sent := by
  simp

end Sent

section Uids

variable {below : Js → Bool} {features : List Feature} {current : List String} {uid : String}

theorem mem_jsSet {xs : List String} {x : String} : x ∈ jsSet xs ↔ x ∈ xs := by
  simp [jsSet]

theorem nodup_jsSet (xs : List String) : (jsSet xs).Nodup :=
  List.nodup_reverse.mpr (List.nodup_dedup _)

/-- What the subflow draws the tracker notes. -/
theorem mem_current_of_emitted (hcurrent : currentUids features = some current)
    (hemitted : uid ∈ emitted below features) : uid ∈ current := by
  obtain ⟨all, hall, rfl⟩ := Option.map_eq_some_iff.mp hcurrent
  rw [mem_jsSet]
  rw [emitted] at hemitted
  split_ifs at hemitted
  · cases hemitted
  · obtain ⟨entry, hentry, huid⟩ := List.mem_filterMap.mp hemitted
    split_ifs at huid
    rw [← Loop.filterMap_of_mapM hall]
    exact List.mem_filterMap.mpr ⟨entry, hentry, huid⟩

end Uids

/-! ## Runs -/

/-- What faithful polls keep. -/
structure Kept (tab : Tab) : Prop where
  onMap : ∀ uid ∈ tab.seen, .draw uid ∈ tab.sent → deletesSince tab.sent uid = 0
  seen : ∀ uid, OnMap tab.sent uid → uid ∈ tab.seen
  once : ∀ uid, deletesSince tab.sent uid ≠ 0 → .draw uid ∈ tab.sent →
    deletesSince tab.sent uid = 1

section Poll

variable {below : Js → Bool} {tab : Tab} {payload : Js} {features : List Feature}
  {current : List String} {uid : String}

theorem poll_eq (hfeatures : transform payload = some features)
    (hcurrent : currentUids features = some current) :
    tab.poll below payload =
      { seen := current
        sent := (tab.removed current).reverse.map .delete ++
          ((emitted below features).reverse.map .draw ++ tab.sent) } := by
  simp only [Tab.poll, hfeatures, hcurrent]

theorem count_removed (tab : Tab) (current : List String) (uid : String) :
    (tab.removed current).reverse.count uid =
      if uid ∈ tab.seen ∧ uid ∉ current then 1 else 0 := by
  have hnodup : (tab.removed current).reverse.Nodup :=
    List.nodup_reverse.mpr ((nodup_jsSet tab.seen).filter _)
  have hmem : uid ∈ (tab.removed current).reverse ↔ uid ∈ tab.seen ∧ uid ∉ current := by
    simp [Tab.removed, mem_jsSet]
  rw [hnodup.count]
  simp only [hmem]

theorem deletesSince_poll (hfeatures : transform payload = some features)
    (hcurrent : currentUids features = some current) (uid : String) :
    deletesSince (tab.poll below payload).sent uid =
      (if uid ∈ tab.seen ∧ uid ∉ current then 1 else 0) +
        if uid ∈ emitted below features then 0 else deletesSince tab.sent uid := by
  rw [poll_eq hfeatures hcurrent, deletesSince_deletes, deletesSince_draws, count_removed]
  simp only [List.mem_reverse]

theorem draw_mem_poll (hfeatures : transform payload = some features)
    (hcurrent : currentUids features = some current) (uid : String) :
    .draw uid ∈ (tab.poll below payload).sent ↔
      uid ∈ emitted below features ∨ .draw uid ∈ tab.sent := by
  rw [poll_eq hfeatures hcurrent, mem_deletes_iff, mem_draws_iff, List.mem_reverse]

/-- What a faithful poll leaves on the map, and what it deletes. -/
theorem faithful_poll (hkept : Kept tab) (hfaithful : Faithful below tab payload)
    (hfeatures : transform payload = some features)
    (hcurrent : currentUids features = some current) (uid : String) :
    (uid ∈ emitted below features ∧ uid ∈ current ∧
        deletesSince (tab.poll below payload).sent uid = 0) ∨
      (uid ∉ emitted below features ∧ (.draw uid ∈ tab.sent → uid ∉ current ∧
        deletesSince (tab.poll below payload).sent uid = 1)) := by
  have hdeletes : deletesSince (tab.poll below payload).sent uid = _ :=
    deletesSince_poll hfeatures hcurrent uid
  by_cases hdrawn : uid ∈ emitted below features
  · have hmem := mem_current_of_emitted hcurrent hdrawn
    rw [if_pos hdrawn, if_neg fun h => h.2 hmem] at hdeletes
    exact Or.inl ⟨hdrawn, hmem, hdeletes⟩
  · right
    use hdrawn
    intro hbefore
    have hnot : uid ∉ current := fun hmem =>
      hdrawn ((hfaithful features hfeatures).2 current hcurrent uid hmem hbefore)
    use hnot
    rw [if_neg hdrawn] at hdeletes
    by_cases hzero : deletesSince tab.sent uid = 0
    · have hseen := hkept.seen uid ⟨hbefore, hzero⟩
      rw [hdeletes, if_pos ⟨hseen, hnot⟩, hzero]
    · have hunseen : uid ∉ tab.seen := fun hseen => hzero (hkept.onMap uid hseen hbefore)
      rw [hdeletes, if_neg fun h => hunseen h.1, hkept.once uid hzero hbefore]

theorem kept_poll (hkept : Kept tab) (hfaithful : Faithful below tab payload) :
    Kept (tab.poll below payload) := by
  cases hfeatures : transform payload with
  | none =>
      simp only [Tab.poll, hfeatures]
      exact hkept
  | some features =>
      cases hcurrent : currentUids features with
      | none =>
          simp only [Tab.poll, hfeatures, hcurrent]
          exact hkept
      | some current =>
          have hcases := faithful_poll hkept hfaithful hfeatures hcurrent
          have hseen : (tab.poll below payload).seen = current := by
            rw [poll_eq hfeatures hcurrent]
          constructor
          · intro uid hmem hdraw
            rw [hseen] at hmem
            rcases hcases uid with ⟨-, -, hzero⟩ | ⟨hnot, hgone⟩
            · exact hzero
            · have hbefore := ((draw_mem_poll hfeatures hcurrent uid).mp hdraw).resolve_left hnot
              exact absurd hmem (hgone hbefore).1
          · rintro uid ⟨hdraw, hzero⟩
            rw [hseen]
            rcases hcases uid with ⟨-, hmem, -⟩ | ⟨hnot, hgone⟩
            · exact hmem
            · have hbefore := ((draw_mem_poll hfeatures hcurrent uid).mp hdraw).resolve_left hnot
              rw [(hgone hbefore).2] at hzero
              cases hzero
          · intro uid hsome hdraw
            rcases hcases uid with ⟨-, -, hzero⟩ | ⟨hnot, hgone⟩
            · exact absurd hzero hsome
            · have hbefore := ((draw_mem_poll hfeatures hcurrent uid).mp hdraw).resolve_left hnot
              exact (hgone hbefore).2

theorem kept_of_follows (htab : Follows below tab) : Kept tab := by
  induction htab with
  | start =>
      constructor
      · intro uid hmem
        cases hmem
      · rintro uid ⟨hdraw, -⟩
        cases hdraw
      · intro uid _ hdraw
        cases hdraw
  | poll _ hfaithful ih => exact kept_poll ih hfaithful

/-- **The map follows the feed.**  In a run of polls in which the subflow draws what it drew
before and the tracker notes, the drawings after a poll that was accepted are those of that
poll, and every other one that was ever drawn was deleted once since. -/
theorem drawings_follow_feed (htab : Follows below tab) (hfaithful : Faithful below tab payload)
    (haccepted : (transform payload).isSome) :
    (∀ uid, OnMap (tab.poll below payload).sent uid ↔ uid ∈ emittedFor below payload) ∧
    ∀ uid, .draw uid ∈ (tab.poll below payload).sent → uid ∉ emittedFor below payload →
      deletesSince (tab.poll below payload).sent uid = 1 := by
  have hkept := kept_of_follows htab
  obtain ⟨features, hfeatures⟩ := Option.isSome_iff_exists.mp haccepted
  cases hcurrent : currentUids features with
  | none =>
      have hpoll : tab.poll below payload = tab := by simp only [Tab.poll, hfeatures, hcurrent]
      have hnone : emittedFor below payload = [] := by
        simp [emittedFor, hfeatures, hcurrent]
      have hempty := (hfaithful features hfeatures).1 hcurrent
      rw [hpoll, hnone]
      constructor
      · exact fun uid => iff_of_false (hempty uid) List.not_mem_nil
      · exact fun uid hdraw _ => hkept.once uid (fun hzero => hempty uid ⟨hdraw, hzero⟩) hdraw
  | some current =>
      have hemitted : emittedFor below payload = emitted below features := by
        simp [emittedFor, hfeatures, hcurrent]
      have hcases := faithful_poll hkept hfaithful hfeatures hcurrent
      rw [hemitted]
      constructor
      · intro uid
        rcases hcases uid with ⟨hdrawn, -, hzero⟩ | ⟨hnot, hgone⟩
        · exact iff_of_true
            ⟨(draw_mem_poll hfeatures hcurrent uid).mpr (Or.inl hdrawn), hzero⟩ hdrawn
        · refine iff_of_false ?_ hnot
          rintro ⟨hdraw, hzero⟩
          have hbefore := ((draw_mem_poll hfeatures hcurrent uid).mp hdraw).resolve_left hnot
          rw [(hgone hbefore).2] at hzero
          cases hzero
      · intro uid hdraw hundrawn
        rcases hcases uid with ⟨hdrawn, -, -⟩ | ⟨hnot, hgone⟩
        · exact absurd hdrawn hundrawn
        · have hbefore := ((draw_mem_poll hfeatures hcurrent uid).mp hdraw).resolve_left hnot
          exact (hgone hbefore).2

end Poll

/-! ## An alert that loses its shape -/

/-- A payload with one alert, which has this ring. -/
def alertWith (ring : List Js) : Js :=
  .obj [("type", .str "FeatureCollection"),
    ("features", .arr [.obj [("id", .str "a"),
      ("geometry", .obj [("type", .str "Polygon"), ("coordinates", .arr [.arr ring])])]])]

def vertex (lon lat : String) : Js := .arr [.num lon, .num lat]

def triangle : Js := alertWith [vertex "0" "0", vertex "0" "1", vertex "1" "1", vertex "0" "0"]

def segment : Js := alertWith [vertex "0" "0", vertex "0" "1"]

def noAlerts : Js := .obj [("type", .str "FeatureCollection"), ("features", .arr [])]

def below3 : Js → Bool := fun _ => false

/-- A drawing stays on the map when its alert comes with a ring that is not drawn. -/
theorem segment_left_on_map :
    let tab := (Tab.start.poll below3 triangle).poll below3 segment
    (transform segment).isSome ∧ emittedFor below3 segment = [] ∧ OnMap tab.sent "noaa-a" := by
  decide +kernel

theorem triangle_deleted :
    let tab := (Tab.start.poll below3 triangle).poll below3 noAlerts
    (∀ uid, OnMap tab.sent uid ↔ uid ∈ emittedFor below3 noAlerts) ∧
      ∀ uid, .draw uid ∈ tab.sent → uid ∉ emittedFor below3 noAlerts →
        deletesSince tab.sent uid = 1 := by
  apply drawings_follow_feed (.poll .start _)
  · intro features hfeatures
    obtain rfl : [] = features := Option.some.inj hfeatures
    constructor
    · intro hnone
      cases hnone
    · intro current hcurrent uid hmem
      obtain rfl : [] = current := Option.some.inj hcurrent
      cases hmem
  · decide +kernel
  · intro features _
    constructor
    · intro _ uid hmap
      exact List.not_mem_nil hmap.1
    · intro current _ uid _ hdraw
      exact absurd hdraw List.not_mem_nil

end FastTAK.NodeRed.Noaa
