import FastTAK.NodeRed.CotXml
import FastTAK.NodeRed.Positions

/-!
# Messages of a payload

Each message is a document that says what its feature supplied, under an id that no other feature
has.
-/

namespace FastTAK.NodeRed.CotMessages

open FastTAK.Backup FastTAK.NodeRed.Batches FastTAK.NodeRed.CotXml FastTAK.NodeRed.GeoJson
  FastTAK.NodeRed.Positions FastTAK.Xml

/-! ## Numbers of a payload -/

/-- The numbers in a value have the texts of numbers. -/
inductive Numerals : Js → Prop
  | undefined : Numerals .undefined
  | null : Numerals .null
  | bool (b : Bool) : Numerals (.bool b)
  | num {text : String} (h : isNumeral text) : Numerals (.num text)
  | str (s : String) : Numerals (.str s)
  | arr {items : List Js} (h : ∀ x ∈ items, Numerals x) : Numerals (.arr items)
  | obj {fields : List (String × Js)} (h : ∀ field ∈ fields, Numerals field.2) :
      Numerals (.obj fields)

section Numerals

variable {rt : Runtime} {config : Config} {feature x y coords vertices : Js} {idx : ℕ} {cot : Cot}
  {text fallback lon lat : String}

theorem Numerals.orElse (hx : Numerals x) (hy : Numerals y) : Numerals (x.orElse y) := by
  rw [Js.orElse]
  split_ifs
  · exact hx
  · exact hy

theorem Numerals.lookup {fields : List (String × Js)} (h : ∀ field ∈ fields, Numerals field.2)
    {key : String} (hx : fields.lookup key = some x) : Numerals x := by
  induction fields with
  | nil => cases hx
  | cons field fields ih =>
      rw [List.forall_mem_cons] at h
      rw [List.lookup_cons] at hx
      cases hkey : key == field.1 with
      | true =>
          rw [hkey] at hx
          rw [← Option.some.inj hx]
          exact h.1
      | false =>
          rw [hkey] at hx
          exact ih h.2 hx

theorem Numerals.getD {fields : List (String × Js)} (h : ∀ field ∈ fields, Numerals field.2)
    (key : String) (hy : Numerals y) : Numerals ((fields.lookup key).getD y) := by
  cases hx : fields.lookup key with
  | none => exact hy
  | some x => exact Numerals.lookup h hx

theorem Numerals.prop (hx : Numerals x) (key : String) : Numerals (x.prop key) := by
  cases hx with
  | obj h => exact Numerals.getD h key .undefined
  | _ => exact .undefined

theorem Numerals.member (hrt : ∀ x name, Numerals (rt.inherited x name)) (hx : Numerals x)
    (name : String) : Numerals (member rt name x) := by
  cases hx with
  | obj h => exact Numerals.getD h name (hrt _ name)
  | _ => exact hrt _ name

theorem Numerals.item (hx : Numerals x) (i : ℕ) : Numerals (x.item i) := by
  cases hx with
  | obj h => exact Numerals.getD h _ .undefined
  | @arr items h =>
      rw [Js.item, List.getD_eq_getElem?_getD]
      cases hitem : items[i]? with
      | none => exact .undefined
      | some y => exact h y (List.mem_of_getElem? hitem)
  | str s =>
      rw [Js.item]
      cases s.toList[i]? with
      | none => exact .undefined
      | some c => exact .str _
  | _ => exact .undefined

theorem isNumeral_finiteOf (hx : Numerals x) (h : finiteOf rt x = some (some text)) :
    isNumeral text := by
  obtain ⟨n, hn, hfinite⟩ := Option.map_eq_some_iff.mp h
  split_ifs at hfinite with hf
  rw [← Option.some.inj hfinite]
  cases hx with
  | undefined =>
      rw [← Option.some.inj hn] at hf
      exact absurd hf (by decide)
  | null =>
      rw [← Option.some.inj hn]
      decide
  | bool b =>
      rw [← Option.some.inj hn]
      cases b <;> decide
  | num hnumeral =>
      rw [← Option.some.inj hn]
      exact hnumeral
  | str s =>
      rw [← Option.some.inj hn]
      exact rt.number_numeral _
  | arr h =>
      obtain ⟨s, -, rfl⟩ := Option.map_eq_some_iff.mp hn
      exact rt.number_numeral _
  | obj h =>
      obtain ⟨s, -, rfl⟩ := Option.map_eq_some_iff.mp hn
      exact rt.number_numeral _

theorem isNumeral_num (hx : Numerals x) (hfallback : isNumeral fallback)
    (h : num rt x fallback = some text) : isNumeral text := by
  obtain ⟨found, hfound, rfl⟩ := Option.map_eq_some_iff.mp h
  cases found with
  | none => exact hfallback
  | some n => exact isNumeral_finiteOf hx hfound

theorem Numerals.properties (hfeature : Numerals feature) : Numerals (propertiesOf feature) :=
  (hfeature.prop _).orElse (.obj fun _ hfield => absurd hfield List.not_mem_nil)

theorem isNumeral_tracked (hrt : ∀ x name, Numerals (rt.inherited x name)) (hx : Numerals x)
    {name : String} (h : tracked rt name x = some (some text)) : isNumeral text := by
  rw [tracked] at h
  split_ifs at h
  · cases Option.some.inj h
  · exact isNumeral_finiteOf (hx.member hrt name) h

theorem isNumeral_track (hrt : ∀ x name, Numerals (rt.inherited x name)) (hx : Numerals x)
    {track : Option (String × String)} (h : trackElement rt config x = some track) :
    ∀ s ∈ drawingNumbers (.marker track), isNumeral s := by
  obtain ⟨speed, hspeed, h⟩ := Option.bind_eq_some_iff.mp h
  obtain ⟨course, hcourse, h⟩ := Option.bind_eq_some_iff.mp h
  have hzero : isNumeral "0" := by decide
  have hgetD : ∀ {name : String} {found : Option String}, tracked rt name x = some found →
      isNumeral (found.getD "0") := by
    intro name found hfound
    cases found with
    | none => exact hzero
    | some n => exact isNumeral_tracked hrt hx hfound
  rw [← Option.some.inj h]
  split_ifs
  · exact fun s hs => absurd hs List.not_mem_nil
  · rw [drawingNumbers, List.forall_mem_cons, List.forall_mem_singleton]
    exact ⟨hgetD hcourse, hgetD hspeed⟩

/-- The numbers of a marker. -/
theorem isNumeral_placedCot (hrt : ∀ x name, Numerals (rt.inherited x name))
    (hfeature : Numerals feature) (hcoords : Numerals coords) (hlon : isNumeral lon)
    (hlat : isNumeral lat) (h : placedCot rt config feature idx coords lon lat = some cot) :
    ∀ s ∈ numbersOf cot, isNumeral s := by
  obtain ⟨coordHae, hcoord, h⟩ := Option.bind_eq_some_iff.mp h
  obtain ⟨hae, hhae, h⟩ := Option.bind_eq_some_iff.mp h
  obtain ⟨callsign, -, h⟩ := Option.bind_eq_some_iff.mp h
  obtain ⟨remarks, -, h⟩ := Option.bind_eq_some_iff.mp h
  obtain ⟨uid, -, h⟩ := Option.bind_eq_some_iff.mp h
  obtain ⟨track, htrack, h⟩ := Option.bind_eq_some_iff.mp h
  have hcoordHae : isNumeral coordHae := isNumeral_num (hcoords.item 2) (by decide) hcoord
  have hheight : isNumeral hae := by
    rw [haeOf] at hhae
    split_ifs at hhae
    · rwa [← Option.some.inj hhae]
    · exact isNumeral_num (hfeature.properties.member hrt _) hcoordHae hhae
  rw [← Option.some.inj h, numbersOf, List.forall_mem_append, List.forall_mem_cons,
    List.forall_mem_cons, List.forall_mem_singleton]
  exact ⟨⟨hlat, hlon, hheight⟩, isNumeral_track hrt hfeature.properties htrack⟩

theorem isNumeral_linkOf (hx : Numerals x) {link : Link} (h : linkOf rt x = some link) :
    ∀ s ∈ linkNumbers link, isNumeral s := by
  rw [linkOf] at h
  split_ifs at h
  obtain ⟨lon, hlon, h⟩ := Option.bind_eq_some_iff.mp h
  obtain ⟨lat, hlat, h⟩ := Option.bind_eq_some_iff.mp h
  obtain ⟨hae, hhae, h⟩ := Option.bind_eq_some_iff.mp h
  have hnum : ∀ i text, num rt (x.item i) "0" = some text → isNumeral text :=
    fun i text => isNumeral_num (hx.item i) (by decide)
  rw [← Option.some.inj h, linkNumbers, List.forall_mem_cons, List.forall_mem_cons,
    List.forall_mem_singleton]
  exact ⟨hnum 1 _ hlat, hnum 0 _ hlon, hnum 2 _ hhae⟩

theorem Numerals.vertexList (hx : Numerals x) {items : List Js} (h : vertexList x = some items) :
    ∀ y ∈ items, Numerals y := by
  cases hx with
  | arr hitems =>
      rw [← Option.some.inj h]
      exact hitems
  | str s =>
      rw [← Option.some.inj h]
      intro y hy
      obtain ⟨c, -, rfl⟩ := List.mem_map.mp hy
      exact .str _
  | _ => cases h

/-- The numbers of a shape. -/
theorem isNumeral_shapeCot (hvertices : Numerals vertices)
    (h : shapeCot rt config feature idx vertices = some cot) :
    ∀ s ∈ numbersOf cot, isNumeral s := by
  obtain ⟨isClosed, -, h⟩ := Option.bind_eq_some_iff.mp h
  obtain ⟨items, hitems, h⟩ := Option.bind_eq_some_iff.mp h
  obtain ⟨links, hlinks, h⟩ := Option.bind_eq_some_iff.mp h
  obtain ⟨callsign, -, h⟩ := Option.bind_eq_some_iff.mp h
  obtain ⟨remarks, -, h⟩ := Option.bind_eq_some_iff.mp h
  obtain ⟨uid, -, h⟩ := Option.bind_eq_some_iff.mp h
  rw [← Option.some.inj h, numbersOf, List.forall_mem_append, List.forall_mem_cons,
    List.forall_mem_cons, List.forall_mem_singleton]
  have hzero : isNumeral "0" := by decide
  refine ⟨⟨rt.divide_numeral _ _, rt.divide_numeral _ _, hzero⟩, ?_⟩
  intro s hs
  obtain ⟨link, hlink, hs⟩ := List.mem_flatMap.mp hs
  rw [← Loop.filterMap_of_mapM hlinks] at hlink
  obtain ⟨v, hv, hmade⟩ := List.mem_filterMap.mp hlink
  exact isNumeral_linkOf (hvertices.vertexList hitems v hv) hmade s hs

/-- The numbers of an event. -/
theorem isNumeral_buildCot (hrt : ∀ x name, Numerals (rt.inherited x name))
    (hfeature : Numerals feature) (h : buildCot rt config feature idx = some (some cot)) :
    ∀ s ∈ numbersOf cot, isNumeral s := by
  have hgeometry := hfeature.prop "geometry"
  have hcoords := hgeometry.prop "coordinates"
  have hempty : Numerals (.arr []) := .arr fun y hy => absurd hy List.not_mem_nil
  rcases buildCot_cases h with ⟨-, lon, lat, hlon, hlat, hplaced⟩ | ⟨vertices, hvertices, hshape⟩
  · exact isNumeral_placedCot hrt hfeature hcoords (isNumeral_finiteOf (hcoords.item 0) hlon)
      (isNumeral_finiteOf (hcoords.item 1) hlat) hplaced
  · apply isNumeral_shapeCot _ hshape
    rcases hvertices with ⟨-, rfl⟩ | ⟨-, rfl⟩
    · rw [ringOf]
      split_ifs
      · exact (hcoords.item 0).orElse hempty
      · exact hempty
    · exact hcoords.orElse hempty

end Numerals

/-! ## Times -/

theorem plain_digitsOf (width n : ℕ) : (digitsOf width n).all isPlain := by
  induction width generalizing n with
  | zero => rfl
  | succ width ih =>
      have hdigit : (List.range 10).all fun d => isPlain (Calendar.digitChar d) := by decide
      rw [digitsOf, List.all_append, ih, List.all_cons,
        List.all_eq_true.mp hdigit (n % 10) (List.mem_range.mpr (Nat.mod_lt n (by decide)))]
      rfl

theorem plain_yearText (year : ℤ) : (yearText year).all isPlain := by
  have hsigns : isPlain '-' ∧ isPlain '+' := by decide
  rw [yearText]
  split_ifs
  · exact plain_digitsOf 4 _
  · rw [List.all_cons, plain_digitsOf, hsigns.1]
    rfl
  · rw [List.all_cons, plain_digitsOf, hsigns.2]
    rfl

theorem plain_iso {ms : ℤ} {text : List Char} (h : iso ms = some text) : text.all isPlain := by
  have hmarks : isPlain '-' ∧ isPlain 'T' ∧ isPlain ':' ∧ isPlain '.' ∧ isPlain 'Z' := by decide
  rw [iso] at h
  split_ifs at h
  rw [← Option.some.inj h]
  simp [plain_digitsOf, plain_yearText, hmarks]

theorem plain_staleText {config : Config} {clock : Clock} {text : List Char}
    (h : staleText config clock = some text) : text.all isPlain := by
  obtain ⟨seconds, -, h⟩ := Option.bind_eq_some_iff.mp h
  exact plain_iso h

/-! ## What messages should say -/

/-- The type of a feature's event. -/
def typeOf (config : Config) (feature : Js) : String :=
  if isString "Point" ((feature.prop "geometry").prop "type") then config.cotType
  else shapeType config.cotType

def isLegal (s : String) : Bool := s.toList.all isXmlChar

/-- A message is a document about its feature.  A text with characters that XML does not have
cannot be in one as it is. -/
structure Says (rt : Runtime) (config : Config) (feature : Js) (idx : ℕ) (message : Message) :
    Prop where
  document : ∃ tokens, document message.payload = some tokens ∧
    (isLegal message.topic →
      attributeOf "event".toList "uid".toList tokens = some message.topic.toList) ∧
    (∀ callsign, label rt config.callsignProp (propertiesOf feature) = some callsign →
      isLegal callsign →
      attributeOf "contact".toList "callsign".toList tokens = some callsign.toList) ∧
    ∀ remarks, label rt config.remarksProp (propertiesOf feature) = some remarks →
      isLegal remarks → contentOf "remarks".toList tokens = some remarks.toList
  topic : stableUid config feature idx = some message.topic

/-- Two features carry one id. -/
def SameId (feature other : Js) : Prop :=
  (explicitId feature).isNullish = false ∧ explicitId other = explicitId feature

/-- The messages of a payload are the documents of its features, and two of one topic are of
features with one id. -/
def Faithful (rt : Runtime) (config : Config) (clock : Clock) (features : List Js)
    (out : List Message) : Prop :=
  ∃ now stale, iso clock.now = some now ∧ staleText config clock = some stale ∧
    out = features.zipIdx.filterMap (fun entry =>
      (convert rt config now stale entry.1 entry.2).join) ∧
    (∀ entry ∈ features.zipIdx, ∀ message,
      convert rt config now stale entry.1 entry.2 = some (some message) →
      Says rt config entry.1 entry.2 message) ∧
    ∀ entry ∈ features.zipIdx, ∀ other ∈ features.zipIdx, entry.2 ≠ other.2 →
      ∀ message message',
        convert rt config now stale entry.1 entry.2 = some (some message) →
        convert rt config now stale other.1 other.2 = some (some message') →
        message.topic = message'.topic → SameId entry.1 other.1

/-! ## Payloads of which messages say it -/

/-- Characters of XML, which an attribute keeps. -/
def attributeKeeps (s : String) : Bool :=
  s.toList.all fun c => isXmlChar c && c ∉ ['\t', '\n', '\r']

/-- Characters of XML, which text between tags keeps. -/
def textKeeps (s : String) : Bool := s.toList.all fun c => isXmlChar c && c ≠ '\r'

/-- The texts of a feature and of the settings are kept. -/
def clean (rt : Runtime) (config : Config) (feature : Js) (idx : ℕ) : Bool :=
  isLegal (typeOf config feature) && attributeKeeps config.uidPrefix &&
    (idOf feature idx).text.all attributeKeeps &&
    (label rt config.callsignProp (propertiesOf feature)).all attributeKeeps &&
    (label rt config.remarksProp (propertiesOf feature)).all textKeeps

/-- Different ids have different texts, and none is the number of a feature without an id. -/
def Apart (feature : Js) (idx : ℕ) (other : Js) (idx' : ℕ) : Prop :=
  match (explicitId feature).isNullish, (explicitId other).isNullish with
  | false, false => explicitId other ≠ explicitId feature →
      (explicitId feature).text ≠ (explicitId other).text
  | false, true => (explicitId feature).text ≠ some (toString idx')
  | true, false => (explicitId other).text ≠ some (toString idx)
  | true, true => True

structure Clean (rt : Runtime) (config : Config) (features : List Js) : Prop where
  texts : ∀ entry ∈ features.zipIdx, convertible rt entry.1 → clean rt config entry.1 entry.2
  ids : ∀ entry ∈ features.zipIdx, ∀ other ∈ features.zipIdx, entry.2 ≠ other.2 →
    convertible rt entry.1 → convertible rt other.1 → Apart entry.1 entry.2 other.1 other.2

section Messages

variable {rt : Runtime} {config : Config} {feature other : Js} {idx idx' : ℕ} {cot : Cot}

theorem placedCot_label {coords : Js} {lon lat : String}
    (h : placedCot rt config feature idx coords lon lat = some cot) :
    label rt config.callsignProp (propertiesOf feature) = some cot.callsign ∧
      label rt config.remarksProp (propertiesOf feature) = some cot.remarks ∧
      cot.type = config.cotType := by
  obtain ⟨coordHae, -, h⟩ := Option.bind_eq_some_iff.mp h
  obtain ⟨hae, -, h⟩ := Option.bind_eq_some_iff.mp h
  obtain ⟨callsign, hcallsign, h⟩ := Option.bind_eq_some_iff.mp h
  obtain ⟨remarks, hremarks, h⟩ := Option.bind_eq_some_iff.mp h
  obtain ⟨uid, -, h⟩ := Option.bind_eq_some_iff.mp h
  obtain ⟨track, -, h⟩ := Option.bind_eq_some_iff.mp h
  rw [← Option.some.inj h]
  exact ⟨hcallsign, hremarks, rfl⟩

theorem shapeCot_label {vertices : Js} (h : shapeCot rt config feature idx vertices = some cot) :
    label rt config.callsignProp (propertiesOf feature) = some cot.callsign ∧
      label rt config.remarksProp (propertiesOf feature) = some cot.remarks ∧
      cot.type = shapeType config.cotType := by
  obtain ⟨isClosed, -, h⟩ := Option.bind_eq_some_iff.mp h
  obtain ⟨items, -, h⟩ := Option.bind_eq_some_iff.mp h
  obtain ⟨links, -, h⟩ := Option.bind_eq_some_iff.mp h
  obtain ⟨callsign, hcallsign, h⟩ := Option.bind_eq_some_iff.mp h
  obtain ⟨remarks, hremarks, h⟩ := Option.bind_eq_some_iff.mp h
  obtain ⟨uid, -, h⟩ := Option.bind_eq_some_iff.mp h
  rw [← Option.some.inj h]
  exact ⟨hcallsign, hremarks, rfl⟩

/-- The texts of an event are those of its feature. -/
theorem buildCot_label (h : buildCot rt config feature idx = some (some cot)) :
    label rt config.callsignProp (propertiesOf feature) = some cot.callsign ∧
      label rt config.remarksProp (propertiesOf feature) = some cot.remarks ∧
      cot.type = typeOf config feature := by
  rw [typeOf]
  rcases buildCot_cases h with ⟨hpoint, lon, lat, -, -, hplaced⟩ | ⟨vertices, hvertices, hshape⟩
  · rw [if_pos hpoint]
    exact placedCot_label hplaced
  · rw [if_neg]
    · exact shapeCot_label hshape
    · intro hpoint
      rw [isString_iff] at hpoint
      rcases hvertices with ⟨htype, -⟩ | ⟨htype, -⟩
      · rw [hpoint] at htype
        exact absurd htype (by decide)
      · rw [hpoint] at htype
        exact absurd htype (by decide)

/-- The ids of two features have the same text only if the features have one id. -/
theorem sameId_iff (hne : idx ≠ idx') :
    ((idOf feature idx).text = (idOf other idx').text → SameId feature other) ↔
      Apart feature idx other idx' := by
  rw [idOf_eq, idOf_eq, SameId, Apart]
  cases hfirst : (explicitId feature).isNullish with
  | false =>
      cases hsecond : (explicitId other).isNullish with
      | false =>
          simp only [Bool.false_eq_true, if_false, true_and]
          rw [not_imp_comm, not_ne_iff]
      | true =>
          have hother : explicitId other ≠ explicitId feature := by
            intro h
            rw [h, hfirst] at hsecond
            cases hsecond
          simp [hother, Js.text]
  | true =>
      cases hsecond : (explicitId other).isNullish with
      | false => simp [Js.text, eq_comm]
      | true => simp [Js.text, hne]

/-- Two events have one uid if the ids have one text. -/
theorem uid_eq_iff {cot' : Cot} (h : buildCot rt config feature idx = some (some cot))
    (h' : buildCot rt config other idx' = some (some cot')) :
    cot.uid = cot'.uid ↔ (idOf feature idx).text = (idOf other idx').text := by
  obtain ⟨id, hid, huid⟩ := Option.map_eq_some_iff.mp (buildCot_uid h)
  obtain ⟨id', hid', huid'⟩ := Option.map_eq_some_iff.mp (buildCot_uid h')
  rw [hid, hid', ← huid, ← huid', Option.some.injEq]
  constructor
  · intro heq
    have hlists := congrArg String.toList heq
    simp only [String.toList_append, List.append_cancel_left_eq] at hlists
    exact String.toList_injective hlists
  · intro heq
    rw [heq]

theorem attributeKeeps_iff (s : String) :
    attributeKeeps s ↔ isLegal s ∧ (lineEnds s.toList).map space = s.toList := by
  rw [normalised_eq_self_iff, attributeKeeps, isLegal, List.all_eq_true, List.all_eq_true,
    ← forall₂_and]
  apply forall₂_congr
  intro c _
  rw [Bool.and_eq_true, decide_eq_true_eq]

theorem textKeeps_iff (s : String) :
    textKeeps s ↔ isLegal s ∧ lineEnds s.toList = s.toList := by
  rw [lineEnds_eq_self_iff, textKeeps, isLegal, List.all_eq_true, List.all_eq_true]
  constructor
  · intro h
    refine ⟨fun c hc => ?_, fun hmem => ?_⟩
    · have hchar := h c hc
      rw [Bool.and_eq_true] at hchar
      exact hchar.1
    · exact absurd (h _ hmem) (by decide)
  · intro h c hc
    rw [h.1 c hc, Bool.true_and, decide_eq_true_eq]
    exact fun hreturn => h.2 (hreturn ▸ hc)

theorem attributeKeeps_append (s t : String) :
    attributeKeeps (s ++ t) = (attributeKeeps s && attributeKeeps t) := by
  rw [attributeKeeps, String.toList_append, List.all_append]
  rfl

/-- The texts of the feature, as its event has them. -/
theorem clean_iff (h : buildCot rt config feature idx = some (some cot)) :
    clean rt config feature idx ↔ isLegal cot.type ∧ attributeKeeps cot.uid ∧
      attributeKeeps cot.callsign ∧ textKeeps cot.remarks := by
  obtain ⟨hcallsign, hremarks, htype⟩ := buildCot_label h
  obtain ⟨id, hid, huid⟩ := Option.map_eq_some_iff.mp (buildCot_uid h)
  have hdash : attributeKeeps "-" = true := by decide
  rw [clean, hcallsign, hremarks, hid, ← htype, ← huid, attributeKeeps_append,
    attributeKeeps_append, hdash, Bool.and_true]
  simp only [Option.all_some, Bool.and_eq_true, and_assoc]

theorem allXml_iff (cot : Cot) :
    allXml cot ↔ isLegal cot.uid ∧ isLegal cot.type ∧ isLegal cot.callsign ∧
      isLegal cot.remarks := by
  simp [allXml, isLegal]

/-- A message is the document that its feature is about if the texts are clean. -/
theorem says_iff {now stale : List Char} (hplain : now.all isPlain ∧ stale.all isPlain)
    (hnumbers : ∀ s ∈ numbersOf cot, isNumeral s)
    (h : buildCot rt config feature idx = some (some cot)) :
    Says rt config feature idx ⟨render now stale cot, cot.uid⟩ ↔
      clean rt config feature idx := by
  obtain ⟨hcallsign, hremarks, -⟩ := buildCot_label h
  rw [clean_iff h, attributeKeeps_iff, attributeKeeps_iff, textKeeps_iff]
  constructor
  · rintro ⟨⟨tokens, htokens, huid, hcall, hrem⟩, -⟩
    change document (render now stale cot) = some tokens at htokens
    rw [document_event hplain hnumbers] at htokens
    split_ifs at htokens with hall
    obtain ⟨hlegalUid, hlegalType, hlegalCallsign, hlegalRemarks⟩ := (allXml_iff cot).mp hall
    have huid := huid hlegalUid
    have hcall := hcall _ hcallsign hlegalCallsign
    have hrem := hrem _ hremarks hlegalRemarks
    rw [← Option.some.inj htokens] at huid hcall hrem
    rw [attributeOf_uid] at huid
    rw [attributeOf_callsign _ hnumbers] at hcall
    rw [contentOf_remarks _ hnumbers] at hrem
    exact ⟨hlegalType, ⟨hlegalUid, Option.some.inj huid⟩,
      ⟨hlegalCallsign, Option.some.inj hcall⟩, hlegalRemarks, Option.some.inj hrem⟩
  · rintro ⟨hlegalType, ⟨hlegalUid, huid⟩, ⟨hlegalCallsign, hcall⟩, hlegalRemarks, hrem⟩
    have hall : allXml cot := (allXml_iff cot).mpr
      ⟨hlegalUid, hlegalType, hlegalCallsign, hlegalRemarks⟩
    refine ⟨⟨eventTokens cot (saidTexts now stale cot), ?_, ?_, ?_, ?_⟩, buildCot_uid h⟩
    · rw [document_event hplain hnumbers, if_pos hall]
    · intro _
      rw [attributeOf_uid]
      exact congrArg some huid
    · intro callsign hfound _
      rw [hcallsign, Option.some.injEq] at hfound
      rw [attributeOf_callsign _ hnumbers, ← hfound]
      exact congrArg some hcall
    · intro remarks hfound _
      rw [hremarks, Option.some.injEq] at hfound
      rw [contentOf_remarks _ hnumbers, ← hfound]
      exact congrArg some hrem

theorem Numerals.features {payload : Js} {features : List Js} (h : Numerals payload)
    (hpayload : featuresOf payload = some features) : ∀ feature ∈ features, Numerals feature := by
  have hempty : Numerals (.arr []) := .arr fun _ hy => absurd hy List.not_mem_nil
  have harr : ∀ {items : List Js}, Numerals (.arr items) → ∀ x ∈ items, Numerals x := by
    intro items hitems
    cases hitems with
    | arr hitems => exact hitems
  unfold featuresOf at hpayload
  split_ifs at hpayload with htruthy hfeature hcollection
  · rw [← Option.some.inj hpayload]
    exact fun _ hx => absurd hx List.not_mem_nil
  · rw [← Option.some.inj hpayload, List.forall_mem_singleton]
    exact h
  · have hlist := (h.prop "features").orElse hempty
    generalize (payload.prop "features").orElse (.arr []) = list at hpayload hlist
    cases list with
    | arr items =>
        rw [← Option.some.inj hpayload]
        exact harr hlist
    | _ => cases hpayload
  · cases payload with
    | arr items =>
        rw [← Option.some.inj hpayload]
        exact harr h
    | _ =>
        rw [← Option.some.inj hpayload]
        exact fun _ hx => absurd hx List.not_mem_nil

/-- The messages of a payload say what their features supplied, each under an id of its own, if and
only if the texts are clean and the ids apart. -/
theorem geojsonToCot_faithful_iff (rt : Runtime) (config : Config) (clock : Clock) {payload : Js}
    {features : List Js} {out : List Message}
    (hrt : ∀ x name, Numerals (rt.inherited x name)) (hnumbers : Numerals payload)
    (hpayload : featuresOf payload = some features)
    (hout : geojsonToCot rt config clock payload = some out) :
    Faithful rt config clock features out ↔ Clean rt config features := by
  have hfeatures : ∀ entry ∈ features.zipIdx, Numerals entry.1 := by
    intro entry hentry
    exact hnumbers.features hpayload _ (mem_zipIdx_iff.mpr ⟨entry.2, hentry⟩)
  obtain ⟨now, stale, hnow, hstale, hout, htotal⟩ := geojsonToCot_out hpayload hout
  have hplain : now.all isPlain ∧ stale.all isPlain := ⟨plain_iso hnow, plain_staleText hstale⟩
  -- A feature of the batch has an event if and only if it can be converted.
  have hdrawn : ∀ entry ∈ features.zipIdx, convertible rt entry.1 →
      ∃ cot, buildCot rt config entry.1 entry.2 = some (some cot) := by
    intro entry hentry hconvertible
    have hjoin := isSome_join_buildCot config entry.2
      (htotal _ (mem_zipIdx_iff.mpr ⟨entry.2, hentry⟩))
    rw [hconvertible] at hjoin
    obtain ⟨cot, hcot⟩ := Option.isSome_iff_exists.mp hjoin
    exact ⟨cot, Option.join_eq_some_iff.mp hcot⟩
  have hconvertible : ∀ entry ∈ features.zipIdx, ∀ cot,
      buildCot rt config entry.1 entry.2 = some (some cot) → convertible rt entry.1 := by
    intro entry hentry cot hcot
    rw [← isSome_join_buildCot config entry.2 (htotal _ (mem_zipIdx_iff.mpr ⟨entry.2, hentry⟩)),
      hcot]
    rfl
  constructor
  · rintro ⟨now', stale', hnow', hstale', -, hdecodes, hids⟩
    constructor
    · intro entry hentry hentry'
      obtain ⟨cot, hcot⟩ := hdrawn entry hentry hentry'
      rw [← says_iff ⟨plain_iso hnow', plain_staleText hstale'⟩
        (isNumeral_buildCot hrt (hfeatures entry hentry) hcot) hcot]
      exact hdecodes entry hentry _ (convert_eq_some_iff.mpr ⟨cot, hcot, rfl⟩)
    · intro entry hentry other hother hne hentry' hother'
      obtain ⟨cot, hcot⟩ := hdrawn entry hentry hentry'
      obtain ⟨cot', hcot'⟩ := hdrawn other hother hother'
      rw [← sameId_iff hne]
      intro hid
      apply hids entry hentry other hother hne _ _ (convert_eq_some_iff.mpr ⟨cot, hcot, rfl⟩)
        (convert_eq_some_iff.mpr ⟨cot', hcot', rfl⟩)
      exact (uid_eq_iff hcot hcot').mpr hid
  · rintro ⟨htexts, hids⟩
    refine ⟨now, stale, hnow, hstale, hout, ?_, ?_⟩
    · intro entry hentry message hmessage
      obtain ⟨cot, hcot, rfl⟩ := convert_eq_some_iff.mp hmessage
      rw [says_iff hplain (isNumeral_buildCot hrt (hfeatures entry hentry) hcot) hcot]
      exact htexts entry hentry (hconvertible entry hentry cot hcot)
    · intro entry hentry other hother hne message message' hmessage hmessage' htopic
      obtain ⟨cot, hcot, rfl⟩ := convert_eq_some_iff.mp hmessage
      obtain ⟨cot', hcot', rfl⟩ := convert_eq_some_iff.mp hmessage'
      apply (sameId_iff hne).mpr _ ((uid_eq_iff hcot hcot').mp htopic)
      exact hids entry hentry other hother hne (hconvertible entry hentry cot hcot)
        (hconvertible other hother cot' hcot')

end Messages

/-! ## Feeds -/

theorem numerals_featureWith (type : String) {coordinates : Js} (h : Numerals coordinates) :
    Numerals (featureWith type coordinates) := by
  have hgeometry : Numerals (.obj [("type", .str type), ("coordinates", coordinates)]) := by
    apply Numerals.obj
    rw [List.forall_mem_cons, List.forall_mem_singleton]
    exact ⟨.str _, h⟩
  have hproperties : Numerals (.obj [("name", .str "A")]) := by
    apply Numerals.obj
    rw [List.forall_mem_singleton]
    exact .str _
  apply Numerals.obj
  rw [List.forall_mem_cons, List.forall_mem_cons, List.forall_mem_singleton]
  exact ⟨.str _, hgeometry, hproperties⟩

theorem numerals_position {lon lat : String} (hlon : isNumeral lon) (hlat : isNumeral lat) :
    Numerals (position lon lat) := by
  apply Numerals.arr
  rw [List.forall_mem_cons, List.forall_mem_singleton]
  exact ⟨.num hlon, .num hlat⟩

theorem numerals_collection {features : List Js} (h : ∀ feature ∈ features, Numerals feature) :
    Numerals (collection features) := by
  apply Numerals.obj
  rw [List.forall_mem_cons, List.forall_mem_singleton]
  exact ⟨.str _, .arr h⟩

theorem geojsonToCot_faithful_mixed :
    ∃ out, geojsonToCot wholeRuntime defaultConfig someClock (collection mixedFeatures) =
        some out ∧ Faithful wholeRuntime defaultConfig someClock mixedFeatures out := by
  have hsome : (geojsonToCot wholeRuntime defaultConfig someClock
      (collection mixedFeatures)).isSome := by decide +kernel
  obtain ⟨out, hout⟩ := Option.isSome_iff_exists.mp hsome
  have hline : Numerals (.arr [position "0" "2", position "4" "6"]) := by
    apply Numerals.arr
    rw [List.forall_mem_cons, List.forall_mem_singleton]
    exact ⟨numerals_position (by decide) (by decide), numerals_position (by decide) (by decide)⟩
  have hnumbers : Numerals (collection mixedFeatures) := by
    apply numerals_collection
    simp only [mixedFeatures, List.forall_mem_cons]
    exact ⟨numerals_featureWith _ (numerals_position (by decide) (by decide)), .null,
      numerals_featureWith _ .null, numerals_featureWith _ hline,
      numerals_featureWith _ (.arr fun _ hx => absurd hx List.not_mem_nil),
      fun _ hx => absurd hx List.not_mem_nil⟩
  refine ⟨out, hout, (geojsonToCot_faithful_iff wholeRuntime defaultConfig someClock
    (fun _ _ => .undefined) hnumbers rfl hout).mpr ⟨?_, ?_⟩⟩
  · have hall : mixedFeatures.zipIdx.all fun entry =>
        clean wholeRuntime defaultConfig entry.1 entry.2 := by decide +kernel
    exact fun entry hentry _ => List.all_eq_true.mp hall entry hentry
  · have hall : mixedFeatures.zipIdx.all fun entry => (explicitId entry.1).isNullish := by
      decide +kernel
    intro entry hentry other hother _ _ _
    rw [Apart, List.all_eq_true.mp hall entry hentry, List.all_eq_true.mp hall other hother]
    trivial

def labelled (name : String) (fields : List (String × Js)) : Js :=
  .obj ([("type", .str "Feature"),
    ("geometry", .obj [("type", .str "Point"), ("coordinates", position "8" "47")]),
    ("properties", .obj [("name", .str name)])] ++ fields)

/-- A callsign with a character that XML does not have. -/
def feedWithControl : List Js := [labelled "\x01" []]

/-- The second feature has no id, and the first has its number. -/
def feedWithNumber : List Js := [labelled "A" [("id", .num "1")], labelled "B" []]

/-- The marker that such a feature becomes. -/
def markerOf (uid callsign : String) : Cot :=
  ⟨uid, "a-u-G", "47", "8", "0", callsign, "", .marker none⟩

/-- The first feed is no XML, and the two features of the second feed have one uid. -/
theorem geojsonToCot_unfaithful :
    (∃ out, geojsonToCot wholeRuntime defaultConfig someClock (collection feedWithControl) =
      some out ∧ ¬ Faithful wholeRuntime defaultConfig someClock feedWithControl out) ∧
    ∃ out, geojsonToCot wholeRuntime defaultConfig someClock (collection feedWithNumber) =
      some out ∧ ¬ Faithful wholeRuntime defaultConfig someClock feedWithNumber out := by
  have hcontrol : (geojsonToCot wholeRuntime defaultConfig someClock
      (collection feedWithControl)).isSome := by decide +kernel
  have hnumber : (geojsonToCot wholeRuntime defaultConfig someClock
      (collection feedWithNumber)).isSome := by decide +kernel
  obtain ⟨out, hout⟩ := Option.isSome_iff_exists.mp hcontrol
  obtain ⟨out', hout'⟩ := Option.isSome_iff_exists.mp hnumber
  refine ⟨⟨out, hout, ?_⟩, out', hout', ?_⟩
  · rintro ⟨now, stale, hnow, hstale, -, hdecodes, -⟩
    have hcot : buildCot wholeRuntime defaultConfig (labelled "\x01" []) 0 =
        some (some (markerOf "geojson-0" "\x01")) := rfl
    have hnumbers : ∀ s ∈ numbersOf (markerOf "geojson-0" "\x01"), isNumeral s := by decide
    have hunclean : clean wholeRuntime defaultConfig (labelled "\x01" []) 0 = false := by
      decide +kernel
    have hsaid := (says_iff ⟨plain_iso hnow, plain_staleText hstale⟩ hnumbers hcot).mp
      (hdecodes (labelled "\x01" [], 0) List.mem_cons_self _
        (convert_eq_some_iff.mpr ⟨_, hcot, rfl⟩))
    rw [hunclean] at hsaid
    cases hsaid
  · rintro ⟨now, stale, -, -, -, -, hids⟩
    have hcot : buildCot wholeRuntime defaultConfig (labelled "A" [("id", .num "1")]) 0 =
        some (some (markerOf "geojson-1" "A")) := rfl
    have hcot' : buildCot wholeRuntime defaultConfig (labelled "B" []) 1 =
        some (some (markerOf "geojson-1" "B")) := rfl
    have hsame : SameId (labelled "A" [("id", .num "1")]) (labelled "B" []) :=
      hids (labelled "A" [("id", .num "1")], 0) List.mem_cons_self (labelled "B" [], 1)
        (List.mem_cons_of_mem _ List.mem_cons_self) (by decide) _ _
        (convert_eq_some_iff.mpr ⟨_, hcot, rfl⟩) (convert_eq_some_iff.mpr ⟨_, hcot', rfl⟩) rfl
    have hnone : explicitId (labelled "B" []) = .undefined := rfl
    have hone : explicitId (labelled "A" [("id", .num "1")]) = .num "1" := rfl
    rw [SameId, hnone, hone] at hsame
    cases hsame.2


end FastTAK.NodeRed.CotMessages
