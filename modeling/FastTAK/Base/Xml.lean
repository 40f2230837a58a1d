import FastTAK.Base.Text

/-!
# XML documents

The part of XML 1.0 that has elements, attributes in double quotes and character data with references
to the predefined entities.  A document is read into tags and texts, with its attributes normalised
and its references replaced; text with a character that XML does not have is no document.
-/

namespace FastTAK.Xml

open scoped FastTAK.Text

/-! ## Characters -/

/-- `Char` of XML 1.0. -/
def isXmlChar (c : Char) : Bool :=
  c ∈ ['\t', '\n', '\r'] || (0x20 ≤ c.toNat && c.toNat ≤ 0xfffd) || 0x10000 ≤ c.toNat

def isNameChar (c : Char) : Bool := c.isAlphanum || c ∈ ['_', '-', '.', ':']

def isName (name : List Char) : Bool := name.head?.any Char.isAlpha && name.all isNameChar

/-! ## Character data -/

/-- The end of a line is a line feed. -/
def lineEnds : List Char → List Char
  | [] => []
  | '\r' :: '\n' :: rest => '\n' :: lineEnds rest
  | c :: rest => (if c = '\r' then '\n' else c) :: lineEnds rest

def entities : List (List Char × Char) :=
  [("lt;".toList, '<'), ("gt;".toList, '>'), ("amp;".toList, '&'), ("quot;".toList, '"'),
    ("apos;".toList, '\'')]

/-- The text with its references replaced, in so many rounds. -/
def replaceUpTo : ℕ → List Char → Option (List Char)
  | _, [] => some []
  | 0, _ :: _ => none
  | n + 1, c :: rest =>
      if c = '<' then none
      else if c = '&' then
        (entities.find? fun entity => entity.1 <+: rest).bind fun entity =>
          (replaceUpTo n (rest.drop entity.1.length)).map (entity.2 :: ·)
      else (replaceUpTo n rest).map (c :: ·)

def replaceReferences (text : List Char) : Option (List Char) := replaceUpTo text.length text

/-- White space in an attribute is a space. -/
def space (c : Char) : Char := if c = '\t' ∨ c = '\n' ∨ c = '\r' then ' ' else c

def decodeAttribute (raw : List Char) : Option (List Char) :=
  replaceReferences ((lineEnds raw).map space)

def decodeText (raw : List Char) : Option (List Char) :=
  if "]]>".toList <:+: raw then none else replaceReferences (lineEnds raw)

/-! ## Tags -/

abbrev Attribute := List Char × List Char

/-- A start tag, which may be the whole element, an end tag, or text. -/
inductive Token
  | start (name : List Char) (attributes : List Attribute) (empty : Bool)
  | stop (name : List Char)
  | text (text : List Char)
deriving DecidableEq

def renderAttribute (pair : Attribute) : List Char :=
  ' ' :: (pair.1 ++ '=' :: '"' :: (pair.2 ++ ['"']))

/-- The end of a start tag. -/
def tagEnd (empty : Bool) : List Char := if empty then ['/', '>'] else ['>']

def renderToken : Token → List Char
  | .start name attributes empty =>
      '<' :: (name ++ (attributes.flatMap renderAttribute ++ tagEnd empty))
  | .stop name => '<' :: '/' :: (name ++ ['>'])
  | .text text => text

/-- A name and what follows it. -/
def readName (text : List Char) : Option (List Char × List Char) :=
  let name := text.takeWhile isNameChar
  if isName name then some (name, text.drop name.length) else none

/-- A text that begins with so and so. -/
def expect (word text : List Char) : Option (List Char) :=
  if word <+: text then some (text.drop word.length) else none

def readAttribute (text : List Char) : Option (Attribute × List Char) := do
  let (name, rest) ← readName text
  let rest ← expect ['=', '"'] rest
  let value := rest.takeWhile (· ≠ '"')
  let rest ← expect ['"'] (rest.drop value.length)
  return ((name, value), rest)

/-- The attributes and the end of a tag. -/
def readAttributes : ℕ → List Char → Option (List Attribute × Bool × List Char)
  | _, '>' :: rest => some ([], false, rest)
  | _, '/' :: '>' :: rest => some ([], true, rest)
  | n + 1, ' ' :: rest => do
      let (pair, rest) ← readAttribute rest
      let (attributes, empty, rest) ← readAttributes n rest
      return (pair :: attributes, empty, rest)
  | _, _ => none

def readStop (text : List Char) : Option (Token × List Char) := do
  let (name, rest) ← readName text
  let rest ← expect ['>'] rest
  return (.stop name, rest)

def readStart (text : List Char) : Option (Token × List Char) := do
  let (name, rest) ← readName text
  let (attributes, empty, rest) ← readAttributes rest.length rest
  return (.start name attributes empty, rest)

/-- A token and what follows it. -/
def readToken (text : List Char) : Option (Token × List Char) :=
  if ['<', '/'] <+: text then readStop (text.drop 2)
  else if ['<'] <+: text then readStart (text.drop 1)
  else
    let front := text.takeWhile (· ≠ '<')
    some (.text front, text.drop front.length)

def readTokens : ℕ → List Char → Option (List Token)
  | _, [] => some []
  | 0, _ :: _ => none
  | n + 1, c :: rest => do
      let (token, rest) ← readToken (c :: rest)
      let tokens ← readTokens n rest
      return token :: tokens

/-! ## Documents -/

/-- The elements that are open are closed in their order, and then the text ends. -/
def closes : List (List Char) → List Token → Bool
  | [], [] => true
  | _ :: _, [] => false
  | [], _ :: _ => false
  | open_, .start name _ empty :: rest => closes (if empty then open_ else name :: open_) rest
  | last :: open_, .stop name :: rest => name = last && closes open_ rest
  | open_, .text _ :: rest => closes open_ rest

/-- One element. -/
def isElement : List Token → Bool
  | .start _ _ true :: rest => rest.isEmpty
  | .start name _ false :: rest => closes [name] rest
  | _ => false

def decodeToken : Token → Option Token
  | .start name attributes empty =>
      if (attributes.map Prod.fst).Nodup then
        (attributes.mapM fun pair =>
          (decodeAttribute pair.2).map (Prod.mk pair.1)).map fun decoded =>
            .start name decoded empty
      else none
  | .stop name => some (.stop name)
  | .text text => (decodeText text).map .text

def declaration : List Char :=
  "<?xml version=\"1.0\" encoding=\"UTF-8\" standalone=\"yes\"?>\n".toList

/-- What a document says. -/
def document (text : List Char) : Option (List Token) := do
  let body ← expect declaration text
  let tokens ← readTokens body.length body
  if text.all isXmlChar && isElement tokens then tokens.mapM decodeToken else none

/-- An attribute of the first element of a name. -/
def attributeOf (element key : List Char) : List Token → Option (List Char)
  | [] => none
  | .start name attributes _ :: rest =>
      if name = element then attributes.lookup key else attributeOf element key rest
  | _ :: rest => attributeOf element key rest

/-- The text before the first tag, which ends the element. -/
def leading : List Token → Option (List Char)
  | .text text :: _ => some text
  | .stop _ :: _ => some []
  | _ => none

/-- The text of the first element of a name. -/
def contentOf (element : List Char) : List Token → Option (List Char)
  | [] => none
  | .start name _ empty :: rest =>
      if name = element then if empty then some [] else leading rest
      else contentOf element rest
  | _ :: rest => contentOf element rest

/-! ## Texts that stay as they are -/

/-- A character that is itself in every part of a document. -/
def isPlain (c : Char) : Bool := isXmlChar c && c ∉ ['<', '&', '"', '\t', '\n', '\r']

/-- An empty element of none of these names, with plain attributes. -/
def isDetail (others : List (List Char)) : Token → Bool
  | .start name attributes empty =>
      empty && isName name && name ∉ others && (attributes.map Prod.fst).Nodup &&
        attributes.all fun pair => isName pair.1 && pair.2.all isPlain
  | _ => false

theorem toNat_of_isAlphanum {c : Char} (h : c.isAlphanum) : 48 ≤ c.toNat ∧ c.toNat ≤ 122 := by
  simp only [Char.isAlphanum, Char.isAlpha, Char.isUpper, Char.isLower, Char.isDigit,
    Bool.or_eq_true, Bool.and_eq_true, decide_eq_true_eq, UInt32.le_iff_toNat_le, ge_iff_le] at h
  have hval : c.toNat = c.val.toNat := rfl
  have hupper : 'A'.val.toNat = 65 ∧ 'Z'.val.toNat = 90 := by decide
  have hlower : 'a'.val.toNat = 97 ∧ 'z'.val.toNat = 122 := by decide
  have hdigit : '0'.val.toNat = 48 ∧ '9'.val.toNat = 57 := by decide
  rw [hval]
  rcases h with (h | h) | h
  · rw [hupper.1, hupper.2] at h
    omega
  · rw [hlower.1, hlower.2] at h
    omega
  · rw [hdigit.1, hdigit.2] at h
    omega

theorem isXmlChar_of_isNameChar {c : Char} (h : isNameChar c) : isXmlChar c := by
  rw [isNameChar, Bool.or_eq_true, decide_eq_true_eq] at h
  cases h with
  | inl halphanum =>
      have hrange := toNat_of_isAlphanum halphanum
      rw [isXmlChar, Bool.or_eq_true, Bool.or_eq_true, Bool.and_eq_true, decide_eq_true_eq,
        decide_eq_true_eq, decide_eq_true_eq]
      exact Or.inl (Or.inr ⟨by omega, by omega⟩)
  | inr hmem =>
      have hall : ['_', '-', '.', ':'].all isXmlChar := by decide
      exact List.all_eq_true.mp hall c hmem

theorem isPlain_of_isNameChar {c : Char} (h : isNameChar c) : isPlain c := by
  rw [isPlain, isXmlChar_of_isNameChar h, Bool.true_and, decide_eq_true_eq]
  intro hmem
  have hall : ['<', '&', '"', '\t', '\n', '\r'].all fun d => !isNameChar d := by decide
  have hnot := List.all_eq_true.mp hall c hmem
  rw [h] at hnot
  cases hnot

section Plain

variable {c : Char} {text front rest : List Char}

theorem lineEnds_cons_of_ne (hc : c ≠ '\r') (rest : List Char) :
    lineEnds (c :: rest) = c :: lineEnds rest := by
  rw [lineEnds, if_neg hc]
  exact fun _ h _ => hc h

theorem lineEnds_return (h : text.head? ≠ some '\n') :
    lineEnds ('\r' :: text) = '\n' :: lineEnds text := by
  rw [lineEnds, if_pos rfl]
  intro rest _ htext
  rw [htext] at h
  exact h rfl

theorem lineEnds_append (hfront : '\r' ∉ front) (rest : List Char) :
    lineEnds (front ++ rest) = front ++ lineEnds rest := by
  induction front with
  | nil => rfl
  | cons c front ih =>
      rw [List.mem_cons, not_or] at hfront
      rw [List.cons_append, lineEnds_cons_of_ne (Ne.symm hfront.1), ih hfront.2, List.cons_append]

theorem not_mem_lineEnds (text : List Char) : '\r' ∉ lineEnds text := by
  induction text using lineEnds.induct with
  | case1 => exact List.not_mem_nil
  | case2 rest ih =>
      rw [lineEnds, List.mem_cons, not_or]
      exact ⟨by decide, ih⟩
  | case3 c rest hpair ih =>
      rw [lineEnds, List.mem_cons, not_or]
      · constructor
        · split_ifs with hc
          · decide
          · exact fun h => hc h.symm
        · exact ih
      · exact hpair

theorem lineEnds_eq_nil_iff : lineEnds text = [] ↔ text = [] := by
  induction text using lineEnds.induct with
  | case1 => rfl
  | case2 rest ih => simp [lineEnds]
  | case3 c rest hpair ih =>
      rw [lineEnds]
      · simp
      · exact hpair

/-- A text keeps its line ends if there is no carriage return. -/
theorem lineEnds_eq_self_iff : lineEnds text = text ↔ '\r' ∉ text := by
  constructor
  · intro h
    rw [← h]
    exact not_mem_lineEnds text
  · intro h
    rw [← List.append_nil text, lineEnds_append h]
    rfl

theorem space_eq_self_iff : space c = c ↔ c ∉ ['\t', '\n', '\r'] := by
  simp only [List.mem_cons, List.not_mem_nil, or_false]
  rw [space]
  split_ifs with h
  · constructor
    · intro hc
      rw [← hc] at h
      exact absurd h (by decide)
    · exact fun hc => absurd h hc
  · exact iff_of_true rfl h

/-- A text is itself as an attribute if its only white space are spaces. -/
theorem normalised_eq_self_iff :
    (lineEnds text).map space = text ↔ ∀ c ∈ text, c ∉ ['\t', '\n', '\r'] := by
  constructor
  · intro h c hc
    rw [← h] at hc
    obtain ⟨d, -, rfl⟩ := List.mem_map.mp hc
    rw [space]
    split_ifs with hd
    · decide
    · simpa using hd
  · intro h
    have hreturn : '\r' ∉ text := fun hmem => h _ hmem (by decide)
    have hspace : ∀ c ∈ text, space c = id c := fun c hc => space_eq_self_iff.mpr (h c hc)
    rw [lineEnds_eq_self_iff.mpr hreturn, List.map_congr_left hspace, List.map_id]

end Plain

/-! ## References -/

section References

variable {c : Char} {rest text : List Char}

/-- Enough rounds are enough. -/
theorem replaceUpTo_congr {n m : ℕ} (hn : text.length ≤ n) (hm : text.length ≤ m) :
    replaceUpTo n text = replaceUpTo m text := by
  induction n generalizing m text with
  | zero =>
      obtain rfl : text = [] := List.length_eq_zero_iff.mp (Nat.le_zero.mp hn)
      cases m <;> rfl
  | succ n ih =>
      cases text with
      | nil => cases m <;> rfl
      | cons c rest =>
          cases m with
          | zero => cases hm
          | succ m =>
              have hrest : ∀ k, replaceUpTo n (rest.drop k) = replaceUpTo m (rest.drop k) := by
                intro k
                rw [List.length_cons] at hn hm
                apply ih
                · rw [List.length_drop]
                  omega
                · rw [List.length_drop]
                  omega
              have hall := hrest 0
              rw [List.drop_zero] at hall
              rw [replaceUpTo, replaceUpTo, hall]
              simp only [hrest]

/-- A character that is no part of markup. -/
theorem replaceReferences_cons (hless : c ≠ '<') (hamp : c ≠ '&') (rest : List Char) :
    replaceReferences (c :: rest) = (replaceReferences rest).map (c :: ·) := by
  rw [replaceReferences, List.length_cons, replaceUpTo, if_neg hless, if_neg hamp]
  rfl

/-- No entity begins like another one. -/
theorem find_entity {entity : List Char × Char} (hmem : entity ∈ entities) (rest : List Char) :
    (entities.find? fun other => other.1 <+: entity.1 ++ rest) = some entity := by
  simp only [entities, String.reduceToList, List.mem_cons, List.not_mem_nil, or_false] at hmem ⊢
  rcases hmem with rfl | rfl | rfl | rfl | rfl
  all_goals simp [List.find?]

theorem replaceReferences_entity {entity : List Char × Char} (hmem : entity ∈ entities)
    (rest : List Char) :
    replaceReferences ('&' :: (entity.1 ++ rest)) =
      (replaceReferences rest).map (entity.2 :: ·) := by
  rw [replaceReferences, List.length_cons, replaceUpTo, if_neg (by decide), if_pos rfl,
    find_entity hmem, Option.bind_some, List.drop_left, replaceReferences,
    replaceUpTo_congr (by rw [List.length_append]; omega) (Nat.le_refl rest.length)]

end References

theorem replaceReferences_plain {text : List Char} (h : ∀ c ∈ text, c ≠ '<' ∧ c ≠ '&') :
    replaceReferences text = some text := by
  induction text with
  | nil => rfl
  | cons c text ih =>
      obtain ⟨hless, hamp⟩ := h c List.mem_cons_self
      rw [replaceReferences_cons hless hamp, ih fun d hd => h d (List.mem_cons_of_mem _ hd)]
      rfl

theorem decodeAttribute_plain {text : List Char} (h : text.all isPlain) :
    decodeAttribute text = some text := by
  have hplain : ∀ c ∈ text, c ∉ ['<', '&', '"', '\t', '\n', '\r'] := by
    intro c hc
    have hall := List.all_eq_true.mp h c hc
    rw [isPlain, Bool.and_eq_true, decide_eq_true_eq] at hall
    exact hall.2
  have hnormal : (lineEnds text).map space = text := by
    apply normalised_eq_self_iff.mpr
    intro c hc hmem
    exact hplain c hc (List.mem_of_mem_drop (i := 3) hmem)
  rw [decodeAttribute, hnormal]
  apply replaceReferences_plain
  intro c hc
  constructor
  · exact fun h => hplain c hc (by rw [h]; decide)
  · exact fun h => hplain c hc (by rw [h]; decide)

/-! ## Details -/

section Details

variable {others : List (List Char)} {tokens rest : List Token} {open_ : List (List Char)}
  {token : Token} {key name : List Char}

theorem isDetail_cases (h : isDetail others token) :
    ∃ name attributes, token = .start name attributes true ∧ isName name ∧ name ∉ others ∧
      (attributes.map Prod.fst).Nodup ∧
      ∀ pair ∈ attributes, isName pair.1 ∧ pair.2.all isPlain := by
  cases token with
  | stop name => cases h
  | text value => cases h
  | start name attributes empty =>
      simp only [isDetail, Bool.and_eq_true, decide_eq_true_eq, List.all_eq_true] at h
      obtain ⟨⟨⟨⟨hempty, hname⟩, hothers⟩, hkeys⟩, hattributes⟩ := h
      rw [hempty]
      refine ⟨name, attributes, rfl, hname, hothers, hkeys, ?_⟩
      intro pair hpair
      have hgood := hattributes pair hpair
      rwa [List.all_eq_true]

theorem closes_details (h : ∀ t ∈ tokens, isDetail others t) (rest : List Token) :
    closes (name :: open_) (tokens ++ rest) = closes (name :: open_) rest := by
  induction tokens with
  | nil => rfl
  | cons t tokens ih =>
      obtain ⟨other, attributes, rfl, -⟩ := isDetail_cases (h t List.mem_cons_self)
      rw [List.cons_append, closes, if_pos rfl]
      · exact ih fun u hu => h u (List.mem_cons_of_mem _ hu)
      · exact List.cons_ne_nil _ _

theorem attributeOf_details (h : ∀ t ∈ tokens, isDetail others t) (hname : name ∈ others)
    (rest : List Token) : attributeOf name key (tokens ++ rest) = attributeOf name key rest := by
  induction tokens with
  | nil => rfl
  | cons t tokens ih =>
      obtain ⟨other, attributes, rfl, -, hother, -⟩ := isDetail_cases (h t List.mem_cons_self)
      have hne : other ≠ name := fun heq => hother (heq ▸ hname)
      rw [List.cons_append, attributeOf, if_neg hne]
      exact ih fun u hu => h u (List.mem_cons_of_mem _ hu)

theorem contentOf_details (h : ∀ t ∈ tokens, isDetail others t) (hname : name ∈ others)
    (rest : List Token) : contentOf name (tokens ++ rest) = contentOf name rest := by
  induction tokens with
  | nil => rfl
  | cons t tokens ih =>
      obtain ⟨other, attributes, rfl, -, hother, -⟩ := isDetail_cases (h t List.mem_cons_self)
      have hne : other ≠ name := fun heq => hother (heq ▸ hname)
      rw [List.cons_append, contentOf, if_neg hne]
      exact ih fun u hu => h u (List.mem_cons_of_mem _ hu)

theorem decodeToken_detail (h : isDetail others token) : decodeToken token = some token := by
  obtain ⟨name, attributes, rfl, -, -, hkeys, hattributes⟩ := isDetail_cases h
  have hdecoded : ∀ pairs : List Attribute, (∀ pair ∈ pairs, pair.2.all isPlain) →
      (pairs.mapM fun pair => (decodeAttribute pair.2).map (Prod.mk pair.1)) = some pairs := by
    intro pairs hpairs
    induction pairs with
    | nil => rfl
    | cons pair pairs ih =>
        rw [List.mapM_cons, decodeAttribute_plain (hpairs pair List.mem_cons_self),
          ih fun other hother => hpairs other (List.mem_cons_of_mem _ hother)]
        rfl
  rw [decodeToken, if_pos hkeys, hdecoded attributes fun pair hpair => (hattributes pair hpair).2]
  rfl

theorem decode_details (h : ∀ t ∈ tokens, isDetail others t) :
    tokens.mapM decodeToken = some tokens := by
  induction tokens with
  | nil => rfl
  | cons t tokens ih =>
      rw [List.mapM_cons, decodeToken_detail (h t List.mem_cons_self),
        ih fun u hu => h u (List.mem_cons_of_mem _ hu)]
      rfl

end Details

/-! ## Reading what was written -/

section Reading

variable {name value rest : List Char} {c : Char}

/-- What is taken ends where it has to. -/
theorem takeWhile_append_eq {p : Char → Bool} {front rest : List Char}
    (hfront : ∀ d ∈ front, p d) (hrest : ∀ d, rest.head? = some d → p d = false) :
    (front ++ rest).takeWhile p = front := by
  rw [List.takeWhile_append_of_pos hfront]
  cases rest with
  | nil => exact List.append_nil front
  | cons d rest =>
      rw [List.takeWhile_cons_of_neg (by rw [hrest d rfl]; decide), List.append_nil]

theorem readName_append (hname : isName name) (hc : isNameChar c = false) (rest : List Char) :
    readName (name ++ c :: rest) = some (name, c :: rest) := by
  have hall : ∀ d ∈ name, isNameChar d = true := by
    rw [isName, Bool.and_eq_true, List.all_eq_true] at hname
    exact hname.2
  have htake : (name ++ c :: rest).takeWhile isNameChar = name := by
    apply takeWhile_append_eq hall
    intro d hd
    rwa [← Option.some.inj hd]
  rw [readName, htake]
  simp [hname]

theorem expect_append (word rest : List Char) : expect word (word ++ rest) = some rest := by
  rw [expect, if_pos (List.prefix_append _ _), List.drop_left]

theorem readAttribute_append (hname : isName name) (hvalue : '"' ∉ value) (rest : List Char) :
    readAttribute (name ++ '=' :: '"' :: (value ++ '"' :: rest)) = some ((name, value), rest) := by
  have hquote : ∀ d ∈ value, (decide (d ≠ '"')) = true :=
    fun d hd => decide_eq_true fun h => hvalue (h ▸ hd)
  have htake : (value ++ '"' :: rest).takeWhile (· ≠ '"') = value := by
    apply takeWhile_append_eq hquote
    intro d hd
    rw [← Option.some.inj hd]
    rfl
  have hequals : expect ['=', '"'] ('=' :: '"' :: (value ++ '"' :: rest)) =
      some (value ++ '"' :: rest) := expect_append ['=', '"'] _
  have hend : expect ['"'] ('"' :: rest) = some rest := expect_append ['"'] rest
  rw [readAttribute, readName_append hname (by decide)]
  simp only [Option.bind_eq_bind, Option.bind_some, hequals, htake, List.drop_left, hend]
  rfl

theorem readAttributes_append {attributes : List Attribute} {n : ℕ}
    (hgood : ∀ pair ∈ attributes, isName pair.1 ∧ '"' ∉ pair.2) (hn : attributes.length ≤ n)
    (empty : Bool) (rest : List Char) :
    readAttributes n (attributes.flatMap renderAttribute ++ (tagEnd empty ++ rest)) =
      some (attributes, empty, rest) := by
  induction attributes generalizing n with
  | nil =>
      cases empty with
      | true => cases n <;> rfl
      | false => cases n <;> rfl
  | cons pair attributes ih =>
      cases n with
      | zero => cases hn
      | succ n =>
          obtain ⟨hname, hvalue⟩ := hgood pair List.mem_cons_self
          have hrest := ih (fun other hother => hgood other (List.mem_cons_of_mem _ hother))
            (Nat.le_of_succ_le_succ hn)
          have htext : (pair :: attributes).flatMap renderAttribute ++ (tagEnd empty ++ rest) =
              ' ' :: (pair.1 ++ '=' :: '"' :: (pair.2 ++ '"' ::
                (attributes.flatMap renderAttribute ++ (tagEnd empty ++ rest)))) := by
            simp [renderAttribute]
          rw [htext, readAttributes, readAttribute_append hname hvalue]
          simp only [Option.bind_eq_bind, Option.bind_some, hrest]
          rfl

/-- What can be written so that it is read as it was. -/
def Token.isGood : Token → Bool
  | .start name attributes _ =>
      isName name && attributes.all fun pair => isName pair.1 && '"' ∉ pair.2
  | .stop name => isName name
  | .text value => value ≠ [] && '<' ∉ value

def Token.isText : Token → Bool
  | .text _ => true
  | _ => false

theorem isGood_of_isDetail {others : List (List Char)} {token : Token}
    (h : isDetail others token) : token.isGood := by
  obtain ⟨name, attributes, rfl, hname, -, -, hattributes⟩ := isDetail_cases h
  rw [Token.isGood, hname, Bool.true_and, List.all_eq_true]
  intro pair hpair
  obtain ⟨hkey, hvalue⟩ := hattributes pair hpair
  rw [hkey, Bool.true_and, decide_eq_true_eq]
  intro hquote
  exact absurd (List.all_eq_true.mp hvalue _ hquote) (by decide)

theorem isText_of_isDetail {others : List (List Char)} {token : Token}
    (h : isDetail others token) : token.isText = false := by
  obtain ⟨name, attributes, rfl, -⟩ := isDetail_cases h
  rfl

/-- Good tokens, no two texts of which are neighbours. -/
structure Legible (tokens : List Token) : Prop where
  good : ∀ token ∈ tokens, token.isGood
  apart : tokens.IsChain fun s t => ¬ (s.isText ∧ t.isText)

theorem Legible.cons {token : Token} {tokens : List Token} (hgood : token.isGood)
    (htag : token.isText = false) (h : Legible tokens) : Legible (token :: tokens) where
  good := List.forall_mem_cons.mpr ⟨hgood, h.good⟩
  apart := by
    cases tokens with
    | nil => exact List.isChain_singleton token
    | cons next tokens =>
        apply List.isChain_cons_cons.mpr
        constructor
        · intro hboth
          rw [htag] at hboth
          exact absurd hboth.1 Bool.false_ne_true
        · exact h.apart

theorem Legible.details {others : List (List Char)} {tokens rest : List Token}
    (htokens : ∀ t ∈ tokens, isDetail others t) (h : Legible rest) :
    Legible (tokens ++ rest) := by
  induction tokens with
  | nil => exact h
  | cons t tokens ih =>
      have ht := htokens t List.mem_cons_self
      exact (ih fun u hu => htokens u (List.mem_cons_of_mem _ hu)).cons (isGood_of_isDetail ht)
        (isText_of_isDetail ht)

theorem isName_head (h : isName name) : ∃ d rest, name = d :: rest ∧ isNameChar d := by
  cases name with
  | nil => cases h
  | cons d rest =>
      rw [isName, Bool.and_eq_true, List.all_cons, Bool.and_eq_true] at h
      exact ⟨d, rest, rfl, h.2.1⟩

theorem length_attributes_le (attributes : List Attribute) :
    attributes.length ≤ (attributes.flatMap renderAttribute).length := by
  rw [List.length_flatMap]
  have hone : ∀ n ∈ attributes.map fun pair => (renderAttribute pair).length, 1 ≤ n := by
    intro n hn
    obtain ⟨pair, -, rfl⟩ := List.mem_map.mp hn
    simp [renderAttribute]
  have hcard := List.length_le_sum_of_one_le _ hone
  rwa [List.length_map] at hcard

theorem readStart_append {attributes : List Attribute} (hname : isName name)
    (hgood : ∀ pair ∈ attributes, isName pair.1 ∧ '"' ∉ pair.2) (empty : Bool)
    (rest : List Char) :
    readStart (name ++ (attributes.flatMap renderAttribute ++ (tagEnd empty ++ rest))) =
      some (.start name attributes empty, rest) := by
  have hlength : attributes.length ≤
      (attributes.flatMap renderAttribute ++ (tagEnd empty ++ rest)).length := by
    have hle := length_attributes_le attributes
    rw [List.length_append]
    omega
  obtain ⟨e, text, htext, he⟩ : ∃ e text, attributes.flatMap renderAttribute ++
      (tagEnd empty ++ rest) = e :: text ∧ isNameChar e = false := by
    cases attributes with
    | nil => cases empty <;> exact ⟨_, _, rfl, by decide⟩
    | cons pair attributes => exact ⟨' ', _, rfl, by decide⟩
  have hattributes := readAttributes_append hgood hlength empty rest
  rw [htext] at hattributes ⊢
  rw [readStart, readName_append hname he]
  simp only [Option.bind_eq_bind, Option.bind_some, hattributes]
  rfl

theorem readStop_append (hname : isName name) (rest : List Char) :
    readStop (name ++ '>' :: rest) = some (.stop name, rest) := by
  have hend : expect ['>'] ('>' :: rest) = some rest := expect_append ['>'] rest
  rw [readStop, readName_append hname (by decide)]
  simp only [Option.bind_eq_bind, Option.bind_some, hend]
  rfl

/-- A token is read from a text that begins with it.  A text ends where a tag begins. -/
theorem readToken_append {token : Token} (hgood : token.isGood)
    (hrest : token.isText → rest = [] ∨ rest.head? = some '<') :
    readToken (renderToken token ++ rest) = some (token, rest) := by
  cases token with
  | start name attributes empty =>
      rw [Token.isGood, Bool.and_eq_true, List.all_eq_true] at hgood
      obtain ⟨d, tail, hcons, hd⟩ := isName_head hgood.1
      have hslash : '/' ≠ d := by
        rintro rfl
        exact absurd hd (by decide)
      have hstart := readStart_append hgood.1
        (fun pair hpair => by simpa using hgood.2 pair hpair) empty rest
      have htext : renderToken (.start name attributes empty) ++ rest =
          '<' :: (name ++ (attributes.flatMap renderAttribute ++ (tagEnd empty ++ rest))) := by
        simp [renderToken]
      rw [htext, readToken, if_neg, if_pos]
      · exact hstart
      · simp
      · rw [hcons]
        simp [hslash]
  | stop name =>
      have htext : renderToken (.stop name) ++ rest = '<' :: '/' :: (name ++ '>' :: rest) := by
        simp [renderToken]
      rw [htext, readToken, if_pos]
      · exact readStop_append hgood rest
      · simp
  | text value =>
      rw [Token.isGood, Bool.and_eq_true, decide_eq_true_eq, decide_eq_true_eq] at hgood
      have hvalue : ∀ d ∈ value, (decide (d ≠ '<')) = true :=
        fun d hd => decide_eq_true fun h => hgood.2 (h ▸ hd)
      have htake : (value ++ rest).takeWhile (· ≠ '<') = value := by
        apply takeWhile_append_eq hvalue
        intro d hd
        cases hrest rfl with
        | inl hnil => rw [hnil] at hd; cases hd
        | inr hless =>
            rw [hd, Option.some.injEq] at hless
            rw [hless]
            rfl
      obtain ⟨d, tail, hcons⟩ := List.exists_cons_of_ne_nil hgood.1
      have hless : '<' ≠ d := fun h => hgood.2 (by rw [hcons, h]; exact List.mem_cons_self)
      rw [readToken, if_neg, if_neg]
      · simp only [renderToken, htake, List.drop_left]
      · rw [renderToken, hcons]
        simp [hless]
      · rw [renderToken, hcons]
        simp [hless]

theorem renderToken_ne_nil {token : Token} (hgood : token.isGood) : renderToken token ≠ [] := by
  cases token with
  | start name attributes empty => exact List.cons_ne_nil _ _
  | stop name => exact List.cons_ne_nil _ _
  | text value =>
      rw [Token.isGood, Bool.and_eq_true, decide_eq_true_eq] at hgood
      exact hgood.1

/-- Legible tokens are read as they were. -/
theorem readTokens_render {tokens : List Token} (h : Legible tokens) {n : ℕ}
    (hn : (tokens.flatMap renderToken).length ≤ n) :
    readTokens n (tokens.flatMap renderToken) = some tokens := by
  induction tokens generalizing n with
  | nil => cases n <;> rfl
  | cons token tokens ih =>
      have hgood := h.good token List.mem_cons_self
      have htokens : Legible tokens :=
        ⟨fun other hother => h.good other (List.mem_cons_of_mem _ hother), h.apart.tail⟩
      have hread : readToken (renderToken token ++ tokens.flatMap renderToken) =
          some (token, tokens.flatMap renderToken) := by
        apply readToken_append hgood
        intro htext
        cases tokens with
        | nil => exact Or.inl rfl
        | cons next tokens =>
            right
            cases next with
            | start name attributes empty => rfl
            | stop name => rfl
            | text value =>
                have hapart := h.apart
                rw [List.isChain_cons_cons] at hapart
                exact absurd ⟨htext, rfl⟩ hapart.1
      rw [List.flatMap_cons] at hn ⊢
      obtain ⟨c, rest, hcons⟩ := List.exists_cons_of_ne_nil (renderToken_ne_nil hgood)
      rw [hcons, List.cons_append] at hn hread ⊢
      cases n with
      | zero => cases hn
      | succ n =>
          have hrest : (tokens.flatMap renderToken).length ≤ n := by
            rw [List.length_cons, List.length_append] at hn
            omega
          rw [readTokens, hread]
          simp only [Option.bind_eq_bind, Option.bind_some, ih htokens hrest]
          rfl

theorem isXmlChar_of_isName (h : isName name) : name.all isXmlChar := by
  rw [isName, Bool.and_eq_true, List.all_eq_true] at h
  rw [List.all_eq_true]
  exact fun c hc => isXmlChar_of_isNameChar (h.2 c hc)

theorem isXmlChar_of_isPlain (h : value.all isPlain) : value.all isXmlChar := by
  rw [List.all_eq_true] at h ⊢
  intro c hc
  have hplain := h c hc
  rw [isPlain, Bool.and_eq_true] at hplain
  exact hplain.1

/-- The characters of a start tag that XML may not have are those of its attributes. -/
theorem all_isXmlChar_start {attributes : List Attribute} (hname : isName name)
    (hkeys : ∀ pair ∈ attributes, isName pair.1) (empty : Bool) :
    (renderToken (.start name attributes empty)).all isXmlChar =
      attributes.all fun pair => pair.2.all isXmlChar := by
  have hattributes : (attributes.flatMap renderAttribute).all isXmlChar =
      attributes.all fun pair => pair.2.all isXmlChar := by
    rw [List.all_flatMap, Bool.eq_iff_iff, List.all_eq_true, List.all_eq_true]
    apply forall₂_congr
    intro pair hpair
    have hmarks : isXmlChar ' ' ∧ isXmlChar '=' ∧ isXmlChar '"' := by decide
    simp [renderAttribute, isXmlChar_of_isName (hkeys pair hpair), hmarks]
  have hend : (tagEnd empty).all isXmlChar = true := by cases empty <;> decide
  rw [renderToken, List.all_cons, List.all_append, List.all_append, isXmlChar_of_isName hname,
    hattributes, hend, Bool.true_and, Bool.and_true]
  rfl

/-- A detail has only characters of XML. -/
theorem all_isXmlChar_detail {others : List (List Char)} {token : Token}
    (h : isDetail others token) : (renderToken token).all isXmlChar := by
  obtain ⟨name, attributes, rfl, hname, -, -, hattributes⟩ := isDetail_cases h
  rw [all_isXmlChar_start hname fun pair hpair => (hattributes pair hpair).1, List.all_eq_true]
  exact fun pair hpair => isXmlChar_of_isPlain (hattributes pair hpair).2

/-- What a written document says. -/
theorem document_render {tokens : List Token} (h : Legible tokens) (helement : isElement tokens) :
    document (declaration ++ tokens.flatMap renderToken) =
      if (declaration ++ tokens.flatMap renderToken).all isXmlChar then tokens.mapM decodeToken
      else none := by
  rw [document, expect_append]
  simp only [Option.bind_eq_bind, Option.bind_some, readTokens_render h (Nat.le_refl _), helement,
    Bool.and_true]

end Reading

end FastTAK.Xml
