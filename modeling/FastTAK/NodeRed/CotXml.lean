import FastTAK.Base.Xml
import FastTAK.NodeRed.Batches

/-!
# CoT as XML

The payload of a message read as a document.  The feature's own texts come out of it as they went in
unless they have characters that XML does not have or does not keep.
-/

namespace FastTAK.NodeRed.CotXml

open FastTAK.Backup FastTAK.NodeRed.Batches FastTAK.NodeRed.GeoJson FastTAK.Xml
open scoped FastTAK.Text

/-! ## The tokens of an event -/

def element (name : String) (attributes : List (String × List Char)) (empty : Bool) : Token :=
  .start name.toList (attributes.map fun pair => (pair.1.toList, pair.2)) empty

def linkTokens (link : Link) : List Token :=
  [element "link" [("point", link.lat.toList ++ ',' :: (link.lon.toList ++ ',' ::
    link.hae.toList))] true]

def trackTokens : Option (String × String) → List Token
  | none => []
  | some (course, speed) =>
      [element "track" [("course", course.toList), ("speed", speed.toList)] true]

/-- The style of a shape. -/
def styleTokens : List Token :=
  [element "strokeColor" [("value", "-65536".toList)] true,
    element "strokeWeight" [("value", "2.0".toList)] true,
    element "fillColor" [("value", "1073741824".toList)] true,
    element "labels_on" [("value", "true".toList)] true]

def contactTag (callsign : List Char) : Token := element "contact" [("callsign", callsign)] true

def beforeContact : Drawing → List Token
  | .marker _ => []
  | .shape links => links.flatMap linkTokens ++ styleTokens

def afterContact : Drawing → List Token
  | .marker track => trackTokens track
  | .shape _ => []

def textTokens (text : List Char) : List Token := if text = [] then [] else [.text text]

/-- What an event gets from outside. -/
structure Texts where
  now : List Char
  stale : List Char
  uid : List Char
  type : List Char
  callsign : List Char
  remarks : List Char

def eventTag (texts : Texts) : Token :=
  element "event" [("version", "2.0".toList), ("uid", texts.uid), ("type", texts.type),
    ("how", "m-g".toList), ("time", texts.now), ("start", texts.now), ("stale", texts.stale)] false

def pointTag (cot : Cot) : Token :=
  element "point" [("lat", cot.lat.toList), ("lon", cot.lon.toList), ("hae", cot.hae.toList),
    ("ce", "9999999.0".toList), ("le", "9999999.0".toList)] true

def endTags : List Token :=
  [.stop "remarks".toList, .stop "detail".toList, .stop "event".toList]

def eventTokens (cot : Cot) (texts : Texts) : List Token :=
  eventTag texts :: ([pointTag cot] ++ (element "detail" [] false ::
    (beforeContact cot.drawing ++ (contactTag texts.callsign :: (afterContact cot.drawing ++
      (element "remarks" [] false :: (textTokens texts.remarks ++ endTags)))))))

/-- The texts as they are written. -/
def writtenTexts (now stale : List Char) (cot : Cot) : Texts :=
  ⟨now, stale, xmlEsc cot.uid, xmlEsc cot.type, xmlEsc cot.callsign, xmlEsc cot.remarks⟩

theorem flatMap_textTokens (text : List Char) : (textTokens text).flatMap renderToken = text := by
  rw [textTokens]
  split_ifs with h
  · rw [h]
    rfl
  · simp [renderToken]

theorem renderLink_eq (link : Link) : renderLink link = (linkTokens link).flatMap renderToken := by
  simp only [linkTokens, element, List.map_cons, List.map_nil, List.flatMap_cons, List.flatMap_nil,
    renderToken, renderAttribute, tagEnd]
  unfold renderLink
  simp

theorem renderTrack_eq (track : Option (String × String)) :
    renderTrack track = (trackTokens track).flatMap renderToken := by
  cases track with
  | none => rfl
  | some pair =>
      simp only [trackTokens, element, List.map_cons, List.map_nil, List.flatMap_cons,
        List.flatMap_nil, renderToken, renderAttribute, tagEnd]
      unfold renderTrack
      simp

theorem contact_eq (callsign : List Char) :
    renderToken (contactTag callsign) =
      "<contact callsign=\"".toList ++ (callsign ++ "\"/>".toList) := by
  simp [contactTag, element, renderToken, renderAttribute, tagEnd]

theorem style_eq (rest : List Char) :
    styleTokens.flatMap renderToken ++ rest =
      "<strokeColor value=\"-65536\"/>".toList ++ ("<strokeWeight value=\"2.0\"/>".toList ++
        ("<fillColor value=\"1073741824\"/>".toList ++
          ("<labels_on value=\"true\"/>".toList ++ rest))) := by
  simp [styleTokens, element, renderToken, renderAttribute, tagEnd]

theorem renderDetail_eq (cot : Cot) :
    renderDetail cot = (beforeContact cot.drawing).flatMap renderToken ++
      (renderToken (contactTag (xmlEsc cot.callsign)) ++
        (afterContact cot.drawing).flatMap renderToken) := by
  unfold renderDetail
  cases cot.drawing with
  | marker track =>
      simp only [beforeContact, afterContact, List.nil_append, List.flatMap_nil, contact_eq,
        renderTrack_eq, List.append_assoc]
  | shape links =>
      have hlinks : links.flatMap renderLink = (links.flatMap linkTokens).flatMap renderToken := by
        rw [List.flatMap_assoc]
        exact congrArg (links.flatMap ·) (funext renderLink_eq)
      simp only [beforeContact, afterContact, List.append_nil, List.flatMap_append, hlinks,
        List.flatMap_nil, contact_eq, List.append_assoc, style_eq]

/-- An event is the text of its tokens. -/
theorem render_eq (now stale : List Char) (cot : Cot) :
    render now stale cot =
      declaration ++ (eventTokens cot (writtenTexts now stale cot)).flatMap renderToken := by
  simp only [eventTokens, writtenTexts, List.flatMap_append, List.flatMap_cons,
    flatMap_textTokens, eventTag, pointTag, contactTag, endTags, element, List.map_cons, List.map_nil,
    List.flatMap_nil, renderToken, renderAttribute, tagEnd]
  unfold render declaration
  rw [renderDetail_eq, contact_eq]
  simp only [List.append_assoc, List.append_cancel_left_eq]
  simp

/-! ## Escaped texts -/

section Escape

variable {c : Char} {text : List Char}

/-- A character is written as its entity or as itself. -/
theorem escapeChar_cases (c : Char) :
    (∃ entity ∈ entities, entity.2 = c ∧ escapeChar c = '&' :: entity.1) ∨
      (escapeChar c = [c] ∧ c ∉ ['<', '>', '&', '"', '\'']) := by
  by_cases hc : c ∈ ['<', '>', '&', '"', '\'']
  · left
    have hall : ['<', '>', '&', '"', '\''].all fun d => entities.any fun entity =>
        entity.2 = d && escapeChar d = '&' :: entity.1 := by decide
    have hany := List.all_eq_true.mp hall c hc
    obtain ⟨entity, hmem, hentity⟩ := List.any_eq_true.mp hany
    rw [Bool.and_eq_true, decide_eq_true_eq, decide_eq_true_eq] at hentity
    exact ⟨entity, hmem, hentity⟩
  · right
    simp only [List.mem_cons, List.not_mem_nil, or_false, not_or] at hc
    obtain ⟨hless, hgreater, hamp, hquote, hapos⟩ := hc
    rw [escapeChar, if_neg hless, if_neg hgreater, if_neg hamp, if_neg hquote, if_neg hapos]
    simp [hless, hgreater, hamp, hquote, hapos]

/-- What is true of the characters of the entities, and of the character itself. -/
theorem escapeChar_all {p : Char → Bool} (hamp : p '&')
    (hentities : entities.all fun entity => entity.1.all p)
    (hself : c ∉ ['<', '>', '&', '"', '\''] → p c) : (escapeChar c).all p := by
  rcases escapeChar_cases c with ⟨entity, hmem, -, hescape⟩ | ⟨hescape, hc⟩
  · rw [hescape, List.all_cons, hamp, Bool.true_and]
    exact List.all_eq_true.mp hentities entity hmem
  · rw [hescape, List.all_cons, hself hc]
    rfl

theorem escape_all {p : Char → Bool} (hamp : p '&')
    (hentities : entities.all fun entity => entity.1.all p)
    (htext : ∀ c ∈ text, c ∉ ['<', '>', '&', '"', '\''] → p c) :
    (text.flatMap escapeChar).all p := by
  rw [List.all_flatMap, List.all_eq_true]
  exact fun c hc => escapeChar_all hamp hentities (htext c hc)

theorem escapeChar_ne_nil (c : Char) : escapeChar c ≠ [] := by
  rcases escapeChar_cases c with ⟨entity, -, -, hescape⟩ | ⟨hescape, -⟩
  · rw [hescape]
    exact List.cons_ne_nil _ _
  · rw [hescape]
    exact List.cons_ne_nil _ _

/-- Escaping neither hides nor makes a character that XML does not have. -/
theorem all_isXmlChar_xmlEsc (s : String) : (xmlEsc s).all isXmlChar = s.toList.all isXmlChar := by
  rw [Bool.eq_iff_iff]
  constructor
  · intro hall
    rw [xmlEsc, List.all_flatMap, List.all_eq_true] at hall
    rw [List.all_eq_true]
    intro c hc
    have hescaped := hall c hc
    rcases escapeChar_cases c with ⟨entity, hmem, rfl, -⟩ | ⟨hescape, -⟩
    · have hentities : entities.all fun entity => isXmlChar entity.2 := by decide
      exact List.all_eq_true.mp hentities entity hmem
    · rw [hescape, List.all_cons, Bool.and_eq_true] at hescaped
      exact hescaped.1
  · intro hall
    apply escape_all (by decide) (by decide)
    exact fun c hc _ => List.all_eq_true.mp hall c hc

theorem replaceReferences_escape (text : List Char) :
    replaceReferences (text.flatMap escapeChar) = some text := by
  induction text with
  | nil => rfl
  | cons c text ih =>
      rw [List.flatMap_cons]
      rcases escapeChar_cases c with ⟨entity, hmem, rfl, hescape⟩ | ⟨hescape, hc⟩
      · rw [hescape, List.cons_append, replaceReferences_entity hmem, ih]
        rfl
      · have hless : c ≠ '<' := fun h => hc (by rw [h]; decide)
        have hamp : c ≠ '&' := fun h => hc (by rw [h]; decide)
        rw [hescape, List.singleton_append, replaceReferences_cons hless hamp, ih]
        rfl

theorem lineEnds_escapeChar (hc : c ≠ '\r') (rest : List Char) :
    lineEnds (escapeChar c ++ rest) = escapeChar c ++ lineEnds rest := by
  apply lineEnds_append
  intro hmem
  have hall : (escapeChar c).all (· ≠ '\r') := by
    apply escapeChar_all (by decide) (by decide)
    exact fun _ => decide_eq_true hc
  exact absurd (List.all_eq_true.mp hall _ hmem) (by decide)

theorem head?_escape (h : text.head? ≠ some '\n') :
    (text.flatMap escapeChar).head? ≠ some '\n' := by
  cases text with
  | nil => exact h
  | cons c text =>
      rw [List.flatMap_cons]
      rcases escapeChar_cases c with ⟨entity, -, -, hescape⟩ | ⟨hescape, -⟩
      · rw [hescape]
        simp
      · rw [hescape]
        exact h

/-- Line ends and escapes do not meet. -/
theorem lineEnds_escape (text : List Char) :
    lineEnds (text.flatMap escapeChar) = (lineEnds text).flatMap escapeChar := by
  induction text using lineEnds.induct with
  | case1 => rfl
  | case2 rest ih =>
      have hescape : escapeChar '\r' = ['\r'] ∧ escapeChar '\n' = ['\n'] := by decide
      rw [lineEnds, List.flatMap_cons, List.flatMap_cons, List.flatMap_cons, hescape.1, hescape.2,
        List.singleton_append, List.singleton_append, lineEnds, ih]
      rfl
  | case3 c rest hpair ih =>
      rw [lineEnds, List.flatMap_cons, List.flatMap_cons, ← ih]
      · by_cases hc : c = '\r'
        · have hhead : rest.head? ≠ some '\n' := by
            intro hhead
            obtain ⟨tail, htail⟩ := List.head?_eq_some_iff.mp hhead
            exact hpair tail hc htail
          have hescape : escapeChar '\r' = ['\r'] ∧ escapeChar '\n' = ['\n'] := by decide
          rw [if_pos hc, hc, hescape.1, hescape.2, List.singleton_append,
            lineEnds_return (head?_escape hhead)]
          rfl
        · rw [if_neg hc, lineEnds_escapeChar hc]
      · exact hpair

theorem map_space_escapeChar (c : Char) : (escapeChar c).map space = escapeChar (space c) := by
  by_cases hc : c ∈ ['\t', '\n', '\r']
  · have hall : ['\t', '\n', '\r'].all fun d =>
        (escapeChar d).map space = escapeChar (space d) := by decide
    exact of_decide_eq_true (List.all_eq_true.mp hall c hc)
  · have hall : (escapeChar c).all fun d => space d = d := by
      apply escapeChar_all (by decide) (by decide)
      exact fun _ => decide_eq_true (space_eq_self_iff.mpr hc)
    have hself : ∀ d ∈ escapeChar c, space d = id d := by
      intro d hd
      exact of_decide_eq_true (List.all_eq_true.mp hall d hd)
    rw [space_eq_self_iff.mpr hc, List.map_congr_left hself, List.map_id]

theorem map_space_escape (text : List Char) :
    (text.flatMap escapeChar).map space = (text.map space).flatMap escapeChar := by
  induction text with
  | nil => rfl
  | cons c text ih =>
      rw [List.flatMap_cons, List.map_append, List.map_cons, List.flatMap_cons, ih,
        map_space_escapeChar]

/-- What an attribute or a text says of what was escaped for it. -/
theorem decodeAttribute_escape (text : List Char) :
    decodeAttribute (text.flatMap escapeChar) = some ((lineEnds text).map space) := by
  rw [decodeAttribute, lineEnds_escape, map_space_escape, replaceReferences_escape]

theorem decodeText_escape (text : List Char) :
    decodeText (text.flatMap escapeChar) = some (lineEnds text) := by
  rw [decodeText, lineEnds_escape, replaceReferences_escape, if_neg]
  intro hinside
  have hmem := hinside.subset (by decide : '>' ∈ "]]>".toList)
  have hall : (text.flatMap escapeChar).all (· ≠ '>') := by
    apply escape_all (by decide) (by decide)
    intro c _ hc
    exact decide_eq_true fun h => hc (by rw [h]; decide)
  exact absurd (List.all_eq_true.mp hall _ hmem) (by decide)

end Escape

/-! ## Numbers -/

/-- The numbers that an event shows. -/
def linkNumbers (link : Link) : List String := [link.lat, link.lon, link.hae]

def drawingNumbers : Drawing → List String
  | .marker none => []
  | .marker (some (course, speed)) => [course, speed]
  | .shape links => links.flatMap linkNumbers

def numbersOf (cot : Cot) : List String :=
  [cot.lat, cot.lon, cot.hae] ++ drawingNumbers cot.drawing

/-- The elements that are looked at. -/
def shown : List (List Char) := ["contact".toList, "remarks".toList]

/-- The name and the keys of an element that is not looked at. -/
def isOutline (name : String) (keys : List String) : Bool :=
  isName name.toList && name.toList ∉ shown && (keys.map String.toList).Nodup &&
    keys.all fun key => isName key.toList

section Numbers

variable {cot : Cot} {now stale : List Char}

theorem plain_of_isNumeral {s : String} (h : isNumeral s) : s.toList.all isPlain := by
  rw [isNumeral, List.all_eq_true] at h
  rw [List.all_eq_true]
  intro c hc
  have hchar := h c hc
  rw [Bool.or_eq_true, decide_eq_true_eq] at hchar
  cases hchar with
  | inl halphanum =>
      apply isPlain_of_isNameChar
      rw [Xml.isNameChar, halphanum]
      rfl
  | inr hmem =>
      have hall : ['+', '-', '.'].all isPlain := by decide
      exact List.all_eq_true.mp hall c hmem

theorem isDetail_element {name : String} {attributes : List (String × List Char)}
    {keys : List String} (houtline : isOutline name keys)
    (hkeys : attributes.map Prod.fst = keys)
    (hvalues : ∀ pair ∈ attributes, pair.2.all isPlain) :
    isDetail shown (element name attributes true) := by
  rw [isOutline, Bool.and_eq_true, Bool.and_eq_true] at houtline
  obtain ⟨⟨hname, hnodup⟩, hall⟩ := houtline
  rw [← hkeys, List.map_map] at hnodup
  rw [element, isDetail, Bool.true_and, hname, Bool.true_and, List.map_map, Bool.and_eq_true,
    List.all_map, List.all_eq_true]
  refine ⟨hnodup, ?_⟩
  intro pair hpair
  rw [List.all_eq_true] at hall
  have hkey := hall pair.1 (hkeys ▸ List.mem_map_of_mem hpair)
  rw [Function.comp_apply, hkey, hvalues pair hpair]
  rfl

theorem isDetail_track {track : Option (String × String)}
    (h : ∀ s ∈ drawingNumbers (.marker track), isNumeral s) :
    ∀ t ∈ trackTokens track, isDetail shown t := by
  cases track with
  | none => exact fun t ht => absurd ht List.not_mem_nil
  | some pair =>
      rw [drawingNumbers, List.forall_mem_cons, List.forall_mem_singleton] at h
      intro t ht
      rw [trackTokens, List.mem_singleton] at ht
      rw [ht]
      apply isDetail_element (by decide +kernel : isOutline "track" ["course", "speed"]) rfl
      rw [List.forall_mem_cons, List.forall_mem_singleton]
      exact ⟨plain_of_isNumeral h.1, plain_of_isNumeral h.2⟩

theorem isDetail_link {link : Link} (h : ∀ s ∈ linkNumbers link, isNumeral s) :
    ∀ t ∈ linkTokens link, isDetail shown t := by
  rw [linkNumbers, List.forall_mem_cons, List.forall_mem_cons, List.forall_mem_singleton] at h
  intro t ht
  rw [linkTokens, List.mem_singleton] at ht
  rw [ht]
  apply isDetail_element (by decide +kernel : isOutline "link" ["point"]) rfl
  have hcomma : isPlain ',' := by decide
  rw [List.forall_mem_singleton, List.all_append, List.all_cons, List.all_append, List.all_cons,
    plain_of_isNumeral h.1, plain_of_isNumeral h.2.1, plain_of_isNumeral h.2.2, hcomma]
  rfl

theorem isDetail_style : ∀ t ∈ styleTokens, isDetail shown t := by
  have hall : styleTokens.all (isDetail shown) := by decide +kernel
  exact List.all_eq_true.mp hall

theorem isDetail_beforeContact {drawing : Drawing}
    (h : ∀ s ∈ drawingNumbers drawing, isNumeral s) :
    ∀ t ∈ beforeContact drawing, isDetail shown t := by
  cases drawing with
  | marker track => exact fun t ht => absurd ht List.not_mem_nil
  | shape links =>
      intro t ht
      rw [beforeContact, List.mem_append, List.mem_flatMap] at ht
      cases ht with
      | inl hlink =>
          obtain ⟨link, hmem, ht⟩ := hlink
          apply isDetail_link _ t ht
          intro s hs
          exact h s (List.mem_flatMap.mpr ⟨link, hmem, hs⟩)
      | inr hstyle => exact isDetail_style t hstyle

theorem isDetail_afterContact {drawing : Drawing}
    (h : ∀ s ∈ drawingNumbers drawing, isNumeral s) :
    ∀ t ∈ afterContact drawing, isDetail shown t := by
  cases drawing with
  | marker track => exact isDetail_track h
  | shape links => exact fun t ht => absurd ht List.not_mem_nil

end Numbers

/-! ## Reading an event -/

section Document

variable {cot : Cot} {texts said : Texts}

theorem isDetail_point (h : ∀ s ∈ numbersOf cot, isNumeral s) :
    ∀ t ∈ [pointTag cot], isDetail shown t := by
  rw [numbersOf, List.forall_mem_append, List.forall_mem_cons, List.forall_mem_cons,
    List.forall_mem_singleton] at h
  rw [List.forall_mem_singleton]
  apply isDetail_element
    (by decide +kernel : isOutline "point" ["lat", "lon", "hae", "ce", "le"]) rfl
  have herror : "9999999.0".toList.all isPlain := by decide +kernel
  rw [List.forall_mem_cons, List.forall_mem_cons, List.forall_mem_cons, List.forall_mem_cons,
    List.forall_mem_singleton]
  exact ⟨plain_of_isNumeral h.1.1, plain_of_isNumeral h.1.2.1, plain_of_isNumeral h.1.2.2, herror,
    herror⟩

theorem attributeOf_uid (cot : Cot) (texts : Texts) :
    attributeOf "event".toList "uid".toList (eventTokens cot texts) = some texts.uid := by
  rw [eventTokens, eventTag, element, attributeOf, if_pos rfl]
  simp [List.lookup]

theorem attributeOf_callsign (texts : Texts) (h : ∀ s ∈ numbersOf cot, isNumeral s) :
    attributeOf "contact".toList "callsign".toList (eventTokens cot texts) =
      some texts.callsign := by
  have hdrawing : ∀ s ∈ drawingNumbers cot.drawing, isNumeral s :=
    fun s hs => h s (List.mem_append_right _ hs)
  have hshown : "contact".toList ∈ shown := List.mem_cons_self
  rw [eventTokens, eventTag, element, attributeOf, if_neg (by decide +kernel),
    attributeOf_details (isDetail_point h) hshown, element, attributeOf,
    if_neg (by decide +kernel), attributeOf_details (isDetail_beforeContact hdrawing) hshown,
    contactTag, element, attributeOf, if_pos rfl]
  simp

theorem contentOf_remarks (texts : Texts) (h : ∀ s ∈ numbersOf cot, isNumeral s) :
    contentOf "remarks".toList (eventTokens cot texts) = some texts.remarks := by
  have hdrawing : ∀ s ∈ drawingNumbers cot.drawing, isNumeral s :=
    fun s hs => h s (List.mem_append_right _ hs)
  have hshown : "remarks".toList ∈ shown := List.mem_cons_of_mem _ List.mem_cons_self
  rw [eventTokens, eventTag, element, contentOf, if_neg (by decide +kernel),
    contentOf_details (isDetail_point h) hshown, element, contentOf,
    if_neg (by decide +kernel), contentOf_details (isDetail_beforeContact hdrawing) hshown,
    contactTag, element, contentOf, if_neg (by decide +kernel),
    contentOf_details (isDetail_afterContact hdrawing) hshown, element, contentOf, if_pos rfl,
    if_neg Bool.false_ne_true, textTokens]
  split_ifs with hremarks
  · rw [hremarks]
    rfl
  · rfl

theorem isElement_event (texts : Texts) (h : ∀ s ∈ numbersOf cot, isNumeral s) :
    isElement (eventTokens cot texts) := by
  have hdrawing : ∀ s ∈ drawingNumbers cot.drawing, isNumeral s :=
    fun s hs => h s (List.mem_append_right _ hs)
  have hdetail : ∀ rest, closes ["event".toList] (element "detail" [] false :: rest) =
      closes ["detail".toList, "event".toList] rest := fun rest => rfl
  have hcontact : ∀ rest, closes ["detail".toList, "event".toList]
      (contactTag texts.callsign :: rest) = closes ["detail".toList, "event".toList] rest :=
    fun rest => rfl
  have hremarks : ∀ rest, closes ["detail".toList, "event".toList]
      (element "remarks" [] false :: rest) =
      closes ["remarks".toList, "detail".toList, "event".toList] rest := fun rest => rfl
  have htext : ∀ open_, closes open_ (textTokens texts.remarks ++ endTags) =
      closes open_ endTags := by
    intro open_
    rw [textTokens]
    split_ifs
    · rfl
    · cases open_ <;> rfl
  rw [eventTokens, eventTag, element, isElement, closes_details (isDetail_point h), hdetail,
    closes_details (isDetail_beforeContact hdrawing), hcontact,
    closes_details (isDetail_afterContact hdrawing), hremarks, htext]
  rfl

/-- Texts that can stand between quotes, and remarks that can stand between tags. -/
structure Written (texts : Texts) : Prop where
  quoted : ∀ text ∈ [texts.now, texts.stale, texts.uid, texts.type, texts.callsign], '"' ∉ text
  between : '<' ∉ texts.remarks

theorem Written.event_isGood (h : Written texts) : (eventTag texts).isGood := by
  have hquoted := h.quoted
  simp only [List.forall_mem_cons] at hquoted
  obtain ⟨hnow, hstale, huid, htype, -⟩ := hquoted
  have hnames : isName "event".toList ∧ isName "version".toList ∧ isName "uid".toList ∧
      isName "type".toList ∧ isName "how".toList ∧ isName "time".toList ∧
      isName "start".toList ∧ isName "stale".toList := by decide +kernel
  have hfixed : '"' ∉ "2.0".toList ∧ '"' ∉ "m-g".toList := by decide +kernel
  simp only [eventTag, element, Token.isGood, List.map_cons, List.map_nil, List.all_cons, hnames,
    hnow, hstale, huid, htype, hfixed]
  decide

theorem Written.contact_isGood (h : Written texts) : (contactTag texts.callsign).isGood := by
  have hcallsign := h.quoted texts.callsign (by simp)
  have hnames : isName "contact".toList ∧ isName "callsign".toList := by decide +kernel
  simp only [contactTag, element, Token.isGood, List.map_cons, List.map_nil, List.all_cons, hnames,
    hcallsign]
  decide

theorem legible_event (hwritten : Written texts) (h : ∀ s ∈ numbersOf cot, isNumeral s) :
    Legible (eventTokens cot texts) := by
  have hdrawing : ∀ s ∈ drawingNumbers cot.drawing, isNumeral s :=
    fun s hs => h s (List.mem_append_right _ hs)
  have hgood : ∀ t ∈ endTags, t.isGood := by
    have hall : endTags.all Token.isGood := by decide +kernel
    exact List.all_eq_true.mp hall
  have hclose : Legible endTags := ⟨hgood, by decide⟩
  have htext : Legible (textTokens texts.remarks ++ endTags) := by
    rw [textTokens]
    split_ifs with hremarks
    · exact hclose
    · constructor
      · rw [List.singleton_append, List.forall_mem_cons]
        refine ⟨?_, hgood⟩
        simp [Token.isGood, hremarks, hwritten.between]
      · rw [List.singleton_append, endTags, List.isChain_cons_cons]
        exact ⟨fun hboth => absurd hboth.2 Bool.false_ne_true, hclose.apart⟩
  rw [eventTokens]
  apply Legible.cons hwritten.event_isGood rfl
  apply Legible.details (isDetail_point h)
  apply Legible.cons (by decide +kernel) rfl
  apply Legible.details (isDetail_beforeContact hdrawing)
  apply Legible.cons hwritten.contact_isGood rfl
  apply Legible.details (isDetail_afterContact hdrawing)
  exact Legible.cons (by decide +kernel) rfl htext

/-- What the texts of an event are read as. -/
structure Reads (texts said : Texts) : Prop where
  now : decodeAttribute texts.now = some said.now
  stale : decodeAttribute texts.stale = some said.stale
  uid : decodeAttribute texts.uid = some said.uid
  type : decodeAttribute texts.type = some said.type
  callsign : decodeAttribute texts.callsign = some said.callsign
  remarks : decodeText texts.remarks = some said.remarks
  empty : texts.remarks = [] ↔ said.remarks = []

theorem Reads.event (h : Reads texts said) :
    decodeToken (eventTag texts) = some (eventTag said) := by
  have hkeys : ["version".toList, "uid".toList, "type".toList, "how".toList, "time".toList,
      "start".toList, "stale".toList].Nodup := by decide +kernel
  have hfixed : decodeAttribute "2.0".toList = some "2.0".toList ∧
      decodeAttribute "m-g".toList = some "m-g".toList := by decide +kernel
  rw [eventTag, element, decodeToken]
  simp only [List.map_cons, List.map_nil, List.mapM_cons, List.mapM_nil, if_pos hkeys, hfixed,
    h.now, h.stale, h.uid, h.type]
  rfl

theorem Reads.contact (h : Reads texts said) :
    decodeToken (contactTag texts.callsign) = some (contactTag said.callsign) := by
  rw [contactTag, element, decodeToken]
  simp only [List.map_cons, List.map_nil, List.mapM_cons, List.mapM_nil,
    if_pos (List.nodup_singleton _), h.callsign]
  rfl

theorem Reads.text (h : Reads texts said) :
    (textTokens texts.remarks ++ endTags).mapM decodeToken =
      some (textTokens said.remarks ++ endTags) := by
  have hclose : endTags.mapM decodeToken = some endTags := rfl
  by_cases hremarks : texts.remarks = []
  · rw [textTokens, textTokens, if_pos hremarks, if_pos (h.empty.mp hremarks)]
    exact hclose
  · rw [textTokens, textTokens, if_neg hremarks, if_neg (fun hsaid => hremarks (h.empty.mpr hsaid)),
      List.singleton_append, List.mapM_cons, decodeToken, h.remarks, hclose]
    rfl

theorem mapM_append_some {f : Token → Option Token} {front rest front' rest' : List Token}
    (hfront : front.mapM f = some front') (hrest : rest.mapM f = some rest') :
    (front ++ rest).mapM f = some (front' ++ rest') := by
  rw [List.mapM_append, hfront, hrest]
  rfl

theorem mapM_cons_some {f : Token → Option Token} {t t' : Token} {rest rest' : List Token}
    (ht : f t = some t') (hrest : rest.mapM f = some rest') :
    (t :: rest).mapM f = some (t' :: rest') := by
  rw [List.mapM_cons, ht, hrest]
  rfl

theorem decode_event (hreads : Reads texts said) (h : ∀ s ∈ numbersOf cot, isNumeral s) :
    (eventTokens cot texts).mapM decodeToken = some (eventTokens cot said) := by
  have hdrawing : ∀ s ∈ drawingNumbers cot.drawing, isNumeral s :=
    fun s hs => h s (List.mem_append_right _ hs)
  have hopen : decodeToken (element "detail" [] false) = some (element "detail" [] false) ∧
      decodeToken (element "remarks" [] false) = some (element "remarks" [] false) := ⟨rfl, rfl⟩
  apply mapM_cons_some hreads.event
  apply mapM_append_some (decode_details (isDetail_point h))
  apply mapM_cons_some hopen.1
  apply mapM_append_some (decode_details (isDetail_beforeContact hdrawing))
  apply mapM_cons_some hreads.contact
  apply mapM_append_some (decode_details (isDetail_afterContact hdrawing))
  exact mapM_cons_some hopen.2 hreads.text

theorem all_isXmlChar_element {name : String} {attributes : List (String × List Char)}
    {keys : List String} (hname : isName name.toList)
    (hall : keys.all fun key => isName key.toList) (hkeys : attributes.map Prod.fst = keys)
    (empty : Bool) :
    (renderToken (element name attributes empty)).all isXmlChar =
      attributes.all fun pair => pair.2.all isXmlChar := by
  rw [element, all_isXmlChar_start hname, List.all_map]
  · rfl
  · intro pair hpair
    obtain ⟨other, hother, rfl⟩ := List.mem_map.mp hpair
    exact List.all_eq_true.mp hall other.1 (hkeys ▸ List.mem_map_of_mem hother)

/-- The characters of an event that XML may not have are those of its texts. -/
theorem all_isXmlChar_event (hplain : texts.now.all isPlain ∧ texts.stale.all isPlain)
    (h : ∀ s ∈ numbersOf cot, isNumeral s) :
    ((eventTokens cot texts).flatMap renderToken).all isXmlChar =
      (texts.uid.all isXmlChar && texts.type.all isXmlChar && texts.callsign.all isXmlChar &&
        texts.remarks.all isXmlChar) := by
  have hdrawing : ∀ s ∈ drawingNumbers cot.drawing, isNumeral s :=
    fun s hs => h s (List.mem_append_right _ hs)
  have hdetails : ∀ tokens : List Token, (∀ t ∈ tokens, isDetail shown t) →
      (tokens.flatMap renderToken).all isXmlChar = true := by
    intro tokens htokens
    rw [List.all_flatMap, List.all_eq_true]
    exact fun t ht => all_isXmlChar_detail (htokens t ht)
  have hevent : (renderToken (eventTag texts)).all isXmlChar =
      (texts.uid.all isXmlChar && texts.type.all isXmlChar) := by
    have hkeys : ["version", "uid", "type", "how", "time", "start", "stale"].all fun key =>
        isName key.toList := by decide +kernel
    have hfixed : "2.0".toList.all isXmlChar ∧ "m-g".toList.all isXmlChar := by decide +kernel
    rw [eventTag, all_isXmlChar_element (by decide +kernel) hkeys rfl]
    simp only [List.all_cons, List.all_nil, hfixed, isXmlChar_of_isPlain hplain.1,
      isXmlChar_of_isPlain hplain.2, Bool.true_and, Bool.and_true]
  have hcontact : (renderToken (contactTag texts.callsign)).all isXmlChar =
      texts.callsign.all isXmlChar := by
    have hkeys : ["callsign"].all fun key => isName key.toList := by decide +kernel
    rw [contactTag, all_isXmlChar_element (by decide +kernel) hkeys rfl, List.all_cons,
      List.all_nil, Bool.and_true]
  have hopen : (renderToken (element "detail" [] false)).all isXmlChar ∧
      (renderToken (element "remarks" [] false)).all isXmlChar ∧
      (endTags.flatMap renderToken).all isXmlChar := by decide +kernel
  have hpoint := all_isXmlChar_detail (isDetail_point h _ List.mem_cons_self)
  simp only [eventTokens, List.flatMap_cons, List.flatMap_nil, List.flatMap_append,
    List.all_append, List.all_nil, flatMap_textTokens, hevent, hcontact, hpoint,
    hdetails _ (isDetail_beforeContact hdrawing), hdetails _ (isDetail_afterContact hdrawing),
    hopen, Bool.true_and, Bool.and_true, Bool.and_assoc]

/-- What the texts of an event are read as, if they are characters of XML. -/
def saidTexts (now stale : List Char) (cot : Cot) : Texts :=
  ⟨now, stale, (lineEnds cot.uid.toList).map space, (lineEnds cot.type.toList).map space,
    (lineEnds cot.callsign.toList).map space, lineEnds cot.remarks.toList⟩

theorem reads_saidTexts {now stale : List Char} (cot : Cot)
    (hplain : now.all isPlain ∧ stale.all isPlain) :
    Reads (writtenTexts now stale cot) (saidTexts now stale cot) where
  now := decodeAttribute_plain hplain.1
  stale := decodeAttribute_plain hplain.2
  uid := decodeAttribute_escape _
  type := decodeAttribute_escape _
  callsign := decodeAttribute_escape _
  remarks := decodeText_escape _
  empty := by
    have hraw : (writtenTexts now stale cot).remarks = cot.remarks.toList.flatMap escapeChar := rfl
    have hsaid : (saidTexts now stale cot).remarks = lineEnds cot.remarks.toList := rfl
    rw [hraw, hsaid, lineEnds_eq_nil_iff, List.flatMap_eq_nil_iff]
    constructor
    · intro hnil
      apply List.eq_nil_iff_forall_not_mem.mpr
      exact fun c hc => escapeChar_ne_nil c (hnil c hc)
    · intro hnil
      rw [hnil]
      exact fun c hc => absurd hc List.not_mem_nil

theorem written_writtenTexts {now stale : List Char} (cot : Cot)
    (hplain : now.all isPlain ∧ stale.all isPlain) : Written (writtenTexts now stale cot) := by
  have hescaped : ∀ s : String, '"' ∉ xmlEsc s ∧ '<' ∉ xmlEsc s := by
    intro s
    have hall : (xmlEsc s).all fun c => c ≠ '"' && c ≠ '<' := by
      apply escape_all (by decide) (by decide)
      intro c _ hc
      have hquote : c ≠ '"' := fun h => hc (by rw [h]; decide)
      have hless : c ≠ '<' := fun h => hc (by rw [h]; decide)
      simp [hquote, hless]
    rw [List.all_eq_true] at hall
    constructor
    · exact fun hmem => absurd (hall _ hmem) (by decide)
    · exact fun hmem => absurd (hall _ hmem) (by decide)
  have hquote : ∀ text : List Char, text.all isPlain → '"' ∉ text :=
    fun text htext hmem => absurd (List.all_eq_true.mp htext _ hmem) (by decide)
  constructor
  · simp only [writtenTexts, List.forall_mem_cons]
    exact ⟨hquote _ hplain.1, hquote _ hplain.2, (hescaped _).1, (hescaped _).1, (hescaped _).1,
      fun text htext => absurd htext List.not_mem_nil⟩
  · exact (hescaped _).2

/-- The texts that go into an event are characters of XML. -/
def allXml (cot : Cot) : Bool :=
  [cot.uid, cot.type, cot.callsign, cot.remarks].all fun s => s.toList.all isXmlChar

/-- An event is a document if its texts are characters of XML. -/
theorem document_event {now stale : List Char} (hplain : now.all isPlain ∧ stale.all isPlain)
    (h : ∀ s ∈ numbersOf cot, isNumeral s) :
    document (render now stale cot) =
      if allXml cot then some (eventTokens cot (saidTexts now stale cot)) else none := by
  have hdeclaration : declaration.all isXmlChar = true := by decide +kernel
  rw [render_eq, document_render (legible_event (written_writtenTexts cot hplain) h)
    (isElement_event _ h), decode_event (reads_saidTexts cot hplain) h, List.all_append,
    hdeclaration, Bool.true_and, all_isXmlChar_event hplain h]
  simp only [writtenTexts, all_isXmlChar_xmlEsc, allXml, List.all_cons, List.all_nil,
    Bool.and_true, Bool.and_assoc]

end Document

end FastTAK.NodeRed.CotXml
