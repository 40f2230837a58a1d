import FastTAK.Base.Loop
import FastTAK.Monitor.Audit

/-!
# What redaction hides and what it shows

`_sanitise` replaces what is stored under a field with a sensitive name and copies the rest.
A place in a value is a path of positions.
-/

namespace FastTAK.Monitor

open FastTAK.PyJson

/-! ## Places -/

/-- What is stored at a place. -/
def valueAt : Value → List ℕ → Option Value
  | value, [] => some value
  | .list items, i :: path => items[i]?.bind (fun item => valueAt item path)
  | .dict fields, i :: path => fields[i]?.bind (fun field => valueAt field.2 path)
  | _, _ :: _ => none

/-- The place is under a field with a sensitive name. -/
def underRedacted : Value → List ℕ → Bool
  | .list items, i :: path => items[i]?.any (fun item => underRedacted item path)
  | .dict fields, i :: path =>
      fields[i]?.any (fun field => isRedacted field.1 || underRedacted field.2 path)
  | _, _ => false

/-- A value without what its items and fields hold. -/
def face : Value → Value
  | .list items => .list (items.map (fun _ => .null))
  | .dict fields => .dict (fields.map (fun field => (field.1, .null)))
  | value => value

/-- What there is at a place, unless it is under a field with a sensitive name. -/
def look (value : Value) (path : List ℕ) : Option Value :=
  if underRedacted value path then none else (valueAt value path).map face

/-- The values differ at most under fields with sensitive names. -/
def AgreeOutside (value value' : Value) : Prop := ∀ path, look value path = look value' path

@[simp]
theorem look_nil (value : Value) : look value [] = some (face value) := by
  cases value <;> rfl

theorem look_list (items : List Value) (i : ℕ) (path : List ℕ) :
    look (.list items) (i :: path) = items[i]?.bind (fun item => look item path) := by
  unfold look
  rw [underRedacted, valueAt]
  cases items[i]? <;> simp

theorem look_dict (fields : List (Str × Value)) (i : ℕ) (path : List ℕ) :
    look (.dict fields) (i :: path) = fields[i]?.bind (fun field =>
      if isRedacted field.1 then none else look field.2 path) := by
  unfold look
  rw [underRedacted, valueAt]
  cases fields[i]? with
  | none => simp
  | some field => cases hredacted : isRedacted field.1 <;> simp [hredacted]

/-! ## What `_sanitise` does to a value -/

/-- What it does to a field. -/
def sanitiseField (calls : ℕ) (field : Str × Value) : Option (Str × Value) :=
  if isRedacted field.1 then some (field.1, .str (str "[redacted]"))
  else (sanitise calls field.2).map (fun value => (field.1, value))

theorem sanitise_dict (calls : ℕ) (fields : List (Str × Value)) :
    sanitise (calls + 1) (.dict fields) = (fields.mapM (sanitiseField calls)).map .dict := rfl

theorem sanitise_list (calls : ℕ) (items : List Value) :
    sanitise (calls + 1) (.list items) = (items.mapM (sanitise calls)).map .list := rfl

theorem key_of_sanitiseField {calls : ℕ} {field field' : Str × Value}
    (h : sanitiseField calls field = some field') : field'.1 = field.1 := by
  unfold sanitiseField at h
  split_ifs at h
  · obtain rfl := Option.some.inj h
    rfl
  · obtain ⟨value, -, rfl⟩ := Option.map_eq_some_iff.mp h
    rfl

/-- Keys, lengths and plain values stay. -/
theorem face_of_sanitise {calls : ℕ} {value sanitised : Value}
    (h : sanitise calls value = some sanitised) : face sanitised = face value := by
  cases calls with
  | zero => cases h
  | succ calls =>
      cases value with
      | list items =>
          obtain ⟨items', hitems, rfl⟩ := Option.map_eq_some_iff.mp h
          rw [face, face, Loop.map_of_mapM hitems (fun _ _ _ => rfl)]
      | dict fields =>
          obtain ⟨fields', hfields, rfl⟩ := Option.map_eq_some_iff.mp h
          rw [face, face, Loop.map_of_mapM hfields]
          intro field field' hfield
          rw [key_of_sanitiseField hfield]
      | _ =>
          obtain rfl := Option.some.inj h
          rfl

/-- **Minimal.**  Outside fields with sensitive names everything looks as it did. -/
theorem look_of_sanitise {calls : ℕ} {value sanitised : Value}
    (h : sanitise calls value = some sanitised) : AgreeOutside sanitised value := by
  intro path
  induction path generalizing calls value sanitised with
  | nil => rw [look_nil, look_nil, face_of_sanitise h]
  | cons i path ih =>
      cases calls with
      | zero => cases h
      | succ calls =>
          cases value with
          | list items =>
              obtain ⟨items', hitems, rfl⟩ := Option.map_eq_some_iff.mp h
              rw [look_list, look_list]
              rcases Loop.getElem?_of_mapM hitems i with hnone | hsome
              · rw [hnone.1, hnone.2]
              · obtain ⟨item, item', hitem, hitem', hcall⟩ := hsome
                rw [hitem, hitem']
                exact ih hcall
          | dict fields =>
              obtain ⟨fields', hfields, rfl⟩ := Option.map_eq_some_iff.mp h
              rw [look_dict, look_dict]
              rcases Loop.getElem?_of_mapM hfields i with hnone | hsome
              · rw [hnone.1, hnone.2]
              · obtain ⟨field, field', hfield, hfield', hcall⟩ := hsome
                rw [hfield, hfield', Option.bind_some, Option.bind_some,
                  key_of_sanitiseField hcall]
                split_ifs with hredacted
                · rfl
                · rw [if_neg hredacted] at hcall
                  obtain ⟨value, hvalue, rfl⟩ := Option.map_eq_some_iff.mp hcall
                  exact ih hvalue
          | _ =>
              obtain rfl := Option.some.inj h
              rfl

/-- **Complete.**  Under a field with a sensitive name there is nothing but the placeholder. -/
theorem placeholder_of_sanitise {calls : ℕ} {value sanitised : Value}
    (h : sanitise calls value = some sanitised) {path : List ℕ} {stored : Value}
    (hstored : valueAt sanitised path = some stored) (hunder : underRedacted sanitised path) :
    stored = .str (str "[redacted]") := by
  induction path generalizing calls value sanitised with
  | nil => cases sanitised <;> cases hunder
  | cons i path ih =>
      cases calls with
      | zero => cases h
      | succ calls =>
          cases value with
          | list items =>
              obtain ⟨items', hitems, rfl⟩ := Option.map_eq_some_iff.mp h
              rw [valueAt] at hstored
              rw [underRedacted] at hunder
              rcases Loop.getElem?_of_mapM hitems i with hnone | hsome
              · rw [hnone.2] at hunder
                cases hunder
              · obtain ⟨item, item', hitem, hitem', hcall⟩ := hsome
                rw [hitem'] at hstored hunder
                exact ih hcall hstored hunder
          | dict fields =>
              obtain ⟨fields', hfields, rfl⟩ := Option.map_eq_some_iff.mp h
              rw [valueAt] at hstored
              rw [underRedacted] at hunder
              rcases Loop.getElem?_of_mapM hfields i with hnone | hsome
              · rw [hnone.2] at hunder
                cases hunder
              · obtain ⟨field, field', hfield, hfield', hcall⟩ := hsome
                rw [hfield'] at hstored hunder
                rw [Option.any_some, key_of_sanitiseField hcall] at hunder
                split_ifs at hcall with hredacted
                · obtain rfl := Option.some.inj hcall
                  cases path with
                  | nil => exact (Option.some.inj hstored).symm
                  | cons j path => cases hstored
                · obtain ⟨value, hvalue, rfl⟩ := Option.map_eq_some_iff.mp hcall
                  have hbelow : underRedacted value path := by simpa [hredacted] using hunder
                  exact ih hvalue hstored hbelow
          | _ =>
              obtain rfl := Option.some.inj h
              cases hunder

/-- A value that was redacted stays as it is. -/
theorem sanitise_idempotent {calls : ℕ} {value sanitised : Value}
    (h : sanitise calls value = some sanitised) :
    sanitise calls sanitised = some sanitised := by
  induction calls generalizing value sanitised with
  | zero => cases h
  | succ calls ih =>
      cases value with
      | list items =>
          obtain ⟨items', hitems, rfl⟩ := Option.map_eq_some_iff.mp h
          rw [sanitise_list, Loop.mapM_eq_self, Option.map_some]
          intro item' hitem'
          rw [← Loop.filterMap_of_mapM hitems] at hitem'
          obtain ⟨item, -, hitem⟩ := List.mem_filterMap.mp hitem'
          exact ih hitem
      | dict fields =>
          obtain ⟨fields', hfields, rfl⟩ := Option.map_eq_some_iff.mp h
          rw [sanitise_dict, Loop.mapM_eq_self, Option.map_some]
          intro field' hfield'
          rw [← Loop.filterMap_of_mapM hfields] at hfield'
          obtain ⟨field, -, hfield⟩ := List.mem_filterMap.mp hfield'
          unfold sanitiseField
          split_ifs at hfield with hredacted
          · obtain rfl := Option.some.inj hfield
            rw [if_pos hredacted]
          · obtain ⟨value, hvalue, rfl⟩ := Option.map_eq_some_iff.mp hfield
            rw [if_neg hredacted, ih hvalue]
            rfl
      | _ =>
          obtain rfl := Option.some.inj h
          rfl

/-- With a stack that is deep enough `_sanitise` returns. -/
theorem sanitise_isSome {calls : ℕ} {value : Value} (hdeep : sizeOf value ≤ calls) :
    (sanitise calls value).isSome := by
  induction calls generalizing value with
  | zero => cases value <;> simp at hdeep
  | succ calls ih =>
      cases value with
      | list items =>
          rw [sanitise_list, Option.isSome_map]
          apply Loop.mapM_isSome
          intro item hitem
          apply ih
          have hsmaller := List.sizeOf_lt_of_mem hitem
          simp only [Value.list.sizeOf_spec] at hdeep
          omega
      | dict fields =>
          rw [sanitise_dict, Option.isSome_map]
          apply Loop.mapM_isSome
          intro field hfield
          unfold sanitiseField
          split_ifs
          · rfl
          · rw [Option.isSome_map]
            apply ih
            have hsmaller := List.sizeOf_lt_of_mem hfield
            have hpair : sizeOf field.2 < sizeOf field := by
              obtain ⟨key, value⟩ := field
              simp
            simp only [Value.dict.sizeOf_spec] at hdeep
            omega
      | _ => rfl

/-! ## Two payloads -/

section Agree

variable {items items' : List Value} {fields fields' : List (Str × Value)} {i : ℕ}

theorem AgreeOutside.face_eq {value value' : Value} (h : AgreeOutside value value') :
    face value = face value' := by
  have hroot := h []
  rw [look_nil, look_nil] at hroot
  exact Option.some.inj hroot

theorem AgreeOutside.item (h : AgreeOutside (.list items) (.list items')) {item item' : Value}
    (hitem : items[i]? = some item) (hitem' : items'[i]? = some item') :
    AgreeOutside item item' := by
  intro path
  have hplace := h (i :: path)
  rw [look_list, look_list, hitem, hitem'] at hplace
  exact hplace

theorem AgreeOutside.key (h : AgreeOutside (.dict fields) (.dict fields'))
    {field field' : Str × Value} (hfield : fields[i]? = some field)
    (hfield' : fields'[i]? = some field') : field.1 = field'.1 := by
  have hshown := congrArg (fun shown => shown[i]?) (Value.dict.inj h.face_eq)
  simp only [List.getElem?_map, hfield, hfield', Option.map_some, Option.some_inj,
    Prod.mk.injEq] at hshown
  exact hshown.1

theorem AgreeOutside.field (h : AgreeOutside (.dict fields) (.dict fields'))
    {field field' : Str × Value} (hfield : fields[i]? = some field)
    (hfield' : fields'[i]? = some field') (hkept : ¬ isRedacted field.1) :
    AgreeOutside field.2 field'.2 := by
  intro path
  have hkept' : ¬ isRedacted field'.1 := by
    rw [← h.key hfield hfield']
    exact hkept
  have hplace := h (i :: path)
  rw [look_dict, look_dict, hfield, hfield', Option.bind_some, Option.bind_some, if_neg hkept,
    if_neg hkept'] at hplace
  exact hplace

end Agree

/-- What two values that agree outside sensitive fields are replaced by is the same. -/
theorem sanitise_of_agree {value value' : Value} (h : AgreeOutside value value') (calls : ℕ) :
    sanitise calls value = sanitise calls value' := by
  induction calls generalizing value value' with
  | zero => rfl
  | succ calls ih =>
      have hface := h.face_eq
      cases value with
      | list items =>
          cases value' with
          | list items' =>
              have hlength : items.length = items'.length := by
                simpa using congrArg List.length (Value.list.inj hface)
              rw [sanitise_list, sanitise_list, Loop.mapM_congr]
              apply List.forall₂_iff_get.mpr
              refine ⟨hlength, fun i hi hi' => ih ?_⟩
              exact h.item (List.getElem?_eq_getElem hi) (List.getElem?_eq_getElem hi')
          | _ => cases hface
      | dict fields =>
          cases value' with
          | dict fields' =>
              have hlength : fields.length = fields'.length := by
                simpa using congrArg List.length (Value.dict.inj hface)
              rw [sanitise_dict, sanitise_dict, Loop.mapM_congr]
              apply List.forall₂_iff_get.mpr
              refine ⟨hlength, fun i hi hi' => ?_⟩
              have hfield := List.getElem?_eq_getElem hi
              have hfield' := List.getElem?_eq_getElem hi'
              have hkey : (fields.get ⟨i, hi⟩).1 = (fields'.get ⟨i, hi'⟩).1 :=
                h.key hfield hfield'
              unfold sanitiseField
              rw [← hkey]
              split_ifs with hredacted
              · rfl
              · have hbelow : AgreeOutside (fields.get ⟨i, hi⟩).2 (fields'.get ⟨i, hi'⟩).2 :=
                  h.field hfield hfield' hredacted
                rw [ih hbelow]
          | _ => cases hface
      | _ =>
          cases value' <;> cases hface
          rfl

/-! ## The row of a request -/

section Rows

variable {limits : Limits} {inet : Str → Bool} {request : Request} {status : ℤ}

/-- The row depends on the body through the redacted body. -/
theorem dispatch_congr {body body' : List ℕ}
    (hbody : requestBody limits body = requestBody limits body') :
    dispatch limits inet { request with body := body } status =
      dispatch limits inet { request with body := body' } status := by
  simp only [dispatch, detail, hbody]

theorem requestBody_of_loads {body : List ℕ} {value : Value}
    (hloads : loads limits.scan body = some value) :
    requestBody limits body =
      (sanitise limits.calls value).getD (.str (str "<non-json or binary>")) := by
  have hnonempty : body.isEmpty = false := by
    cases body with
    | nil => cases hloads
    | cons byte bytes => rfl
  rw [requestBody, hnonempty, if_neg Bool.false_ne_true, readBody, hloads, Option.bind_some]

end Rows

/-- Redaction hides what is stored under fields with sensitive names and nothing else, and is
done with one pass.  Two payloads that agree outside these fields leave the same row. -/
theorem redaction_complete_and_minimal :
    (∀ value, ∃ deep, ∀ calls ≥ deep, (sanitise calls value).isSome) ∧
      (∀ calls value sanitised, sanitise calls value = some sanitised →
        (∀ path stored, valueAt sanitised path = some stored → underRedacted sanitised path →
          stored = .str (str "[redacted]")) ∧
        AgreeOutside sanitised value ∧ sanitise calls sanitised = some sanitised) ∧
      ∀ (limits : Limits) (inet : Str → Bool) (request : Request) (status : ℤ)
        (body body' : List ℕ) (value value' : Value),
        loads limits.scan body = some value → loads limits.scan body' = some value' →
        AgreeOutside value value' →
        dispatch limits inet { request with body := body } status =
          dispatch limits inet { request with body := body' } status := by
  refine ⟨?_, ?_, ?_⟩
  · intro value
    exact ⟨sizeOf value, fun calls hdeep => sanitise_isSome hdeep⟩
  · intro calls value sanitised h
    exact ⟨fun path stored => placeholder_of_sanitise h, look_of_sanitise h,
      sanitise_idempotent h⟩
  · intro limits inet request status body body' value value' hloads hloads' hagree
    apply dispatch_congr
    rw [requestBody_of_loads hloads, requestBody_of_loads hloads',
      sanitise_of_agree hagree limits.calls]

/-! ## A password that cannot be read -/

/-- A number with more digits than `int` takes is not read. -/
theorem number_of_many_digits {text : Str} (hdigits : ∀ c ∈ text, isDigit c)
    (hmany : maxStrDigits < text.length) : number text = none := by
  have hwhole : text.takeWhile isDigit = text := List.takeWhile_eq_self_iff.mpr hdigits
  have hrest : text.dropWhile isDigit = [] := List.dropWhile_eq_nil_iff.mpr hdigits
  have hsign : text.head? ≠ some 0x2d := by
    intro hhead
    have hminus := hdigits 0x2d (List.mem_of_mem_head? hhead)
    cases hminus
  have hsign' : (text.head? == some 0x2d) = false := by simpa using hsign
  simp only [number, hsign', Bool.false_eq_true, if_false, hwhole, hrest, fraction, exponent]
  simp [hmany]

/-- A body with a password of this many digits. -/
def passwordBody (digits : ℕ) : List ℕ :=
  bytes "\x7b\"password\": " ++ List.replicate digits 0x39 ++ bytes "\x7d"

theorem foldlM_feed_ascii {text : List ℕ} (htext : ∀ c ∈ text, c < 0x80) (read : Str) :
    text.foldlM Utf8.feed ⟨read, 0, 0, 0, 0⟩ = some ⟨text.reverse ++ read, 0, 0, 0, 0⟩ := by
  induction text generalizing read with
  | nil => rfl
  | cons c text ih =>
      have hfeed : Utf8.feed ⟨read, 0, 0, 0, 0⟩ c = some ⟨c :: read, 0, 0, 0, 0⟩ := by
        rw [Utf8.feed, if_pos rfl, if_pos (htext c List.mem_cons_self)]
      rw [List.foldlM_cons, hfeed]
      have hrest := ih (fun d hd => htext d (List.mem_cons_of_mem c hd)) (c :: read)
      rw [List.reverse_cons, List.append_assoc]
      exact hrest

theorem decode_passwordBody (digits : ℕ) :
    decode (passwordBody digits) = some (passwordBody digits) := by
  have hascii : ∀ c ∈ passwordBody digits, c < 0x80 := by
    intro c hc
    rw [passwordBody, List.mem_append, List.mem_append] at hc
    rcases hc with (hopening | hdigit) | hclosing
    · revert c
      decide +kernel
    · rw [List.eq_of_mem_replicate hdigit]
      decide
    · revert c
      decide +kernel
  have hutf8 : decode (passwordBody digits) = decodeUtf8 (passwordBody digits) := rfl
  rw [hutf8, decodeUtf8, foldlM_feed_ascii hascii]
  simp

theorem foldlM_feed_digits (digits : ℕ) (read : List Token) (text : Str) :
    (List.replicate digits 0x39).foldlM Lexer.feed ⟨read, .atom text⟩ =
      some ⟨read, .atom (List.replicate digits 0x39 ++ text)⟩ := by
  induction digits generalizing text with
  | zero => rfl
  | succ digits ih =>
      rw [List.replicate_succ, List.foldlM_cons]
      have hfeed : Lexer.feed ⟨read, .atom text⟩ 0x39 = some ⟨read, .atom (0x39 :: text)⟩ := rfl
      rw [hfeed]
      have hrest := ih (0x39 :: text)
      rw [← List.singleton_append, ← List.append_assoc, ← List.replicate_succ'] at hrest
      exact hrest

theorem tokens_passwordBody (digits : ℕ) :
    tokens (passwordBody (digits + 1)) = some [.lbrace, .string (str "password"), .colon,
      .atom (List.replicate (digits + 1) 0x39), .rbrace] := by
  have hopening : (bytes "\x7b\"password\": ").foldlM Lexer.feed ⟨[], .idle⟩ =
      some ⟨[.colon, .string (str "password"), .lbrace], .idle⟩ := rfl
  have hdigits : (List.replicate (digits + 1) 0x39).foldlM Lexer.feed
      ⟨[.colon, .string (str "password"), .lbrace], .idle⟩ =
      some ⟨[.colon, .string (str "password"), .lbrace],
        .atom (List.replicate digits 0x39 ++ [0x39])⟩ :=
    foldlM_feed_digits digits _ [0x39]
  have hclosing : (bytes "\x7d").foldlM Lexer.feed
      ⟨[.colon, .string (str "password"), .lbrace], .atom (List.replicate (digits + 1) 0x39)⟩ =
      some ⟨[.rbrace, .atom (List.replicate (digits + 1) 0x39).reverse, .colon,
        .string (str "password"), .lbrace], .idle⟩ := rfl
  rw [tokens, passwordBody, List.foldlM_append, List.foldlM_append, hopening]
  simp only [Option.bind_eq_bind, Option.bind_some, hdigits, ← List.replicate_succ', hclosing]
  rw [List.reverse_replicate]
  rfl

/-- A password of too many digits keeps the whole body from being read. -/
theorem loads_passwordBody {digits : ℕ} (hmany : maxStrDigits ≤ digits) (limit : ℕ) :
    loads limit (passwordBody (digits + 1)) = none := by
  have hscalar : scalar (List.replicate (digits + 1) 0x39) = none := by
    have hnumber : number (List.replicate (digits + 1) 0x39) = none := by
      apply number_of_many_digits
      · intro c hc
        rw [List.eq_of_mem_replicate hc]
        rfl
      · rw [List.length_replicate]
        omega
    have hword : ∀ word c rest, str word = c :: rest → c ≠ 0x39 →
        List.replicate (digits + 1) 0x39 ≠ str word := by
      intro word c rest hword hc hsame
      rw [hword, List.replicate_succ] at hsame
      exact hc (List.cons.inj hsame).1.symm
    rw [scalar, if_neg (hword "null" _ _ rfl (by decide)),
      if_neg (hword "true" _ _ rfl (by decide)), if_neg (hword "false" _ _ rfl (by decide)),
      if_neg (hword "NaN" _ _ rfl (by decide)), if_neg (hword "Infinity" _ _ rfl (by decide)),
      if_neg (hword "-Infinity" _ _ rfl (by decide)), hnumber]
  rw [loads, decode_passwordBody, Option.bind_eq_bind, Option.bind_some, tokens_passwordBody]
  by_cases hlimit : 0 < limit
  · simp [Parser.feed, Parser.start, hlimit, hscalar]
  · simp [Parser.feed, Parser.start, hlimit]

/-- Two bodies that differ in a password only, one of them a number that `int` refuses, leave
different rows. -/
theorem long_password_shows :
    dispatch pythonLimits (fun _ => true) { groupRequest "" with body := passwordBody 1 } 200 ≠
      dispatch pythonLimits (fun _ => true)
        { groupRequest "" with body := passwordBody 4301 } 200 := by
  have hunread : requestBody pythonLimits (passwordBody 4301) =
      requestBody pythonLimits (bytes "oops") := by
    have hloads : loads pythonLimits.scan (passwordBody 4301) = none :=
      loads_passwordBody (le_refl _) _
    have hnonempty : (passwordBody 4301).isEmpty = false := rfl
    rw [requestBody, hnonempty, if_neg Bool.false_ne_true, readBody, hloads]
    rfl
  rw [dispatch_congr hunread]
  decide +kernel

end FastTAK.Monitor
