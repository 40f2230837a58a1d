import FastTAK.Base.PyJson

/-!
# What `json.loads` of a text raises

The text is read from left to right, and the first thing in it that does not fit decides.  What
is returned nests no deeper than the limit and repeats no key.
-/

namespace FastTAK.PyJson

open FastTAK.Fields

/-- `bytes.decode('utf-8')`. -/
def decodeStrict (bytes : List ℕ) : Option Str :=
  (decodeUtf8 bytes).filter fun text => text.all fun c => !isSurrogate c

inductive JsonError
  | jsonDecodeError
  | valueError
  | recursionError
deriving DecidableEq

/-! ## The first refusal -/

/-- The number that a text starts with is an integer with too many digits for `int`. -/
def startsLong (text : Str) : Bool :=
  let unsigned := if text.head? == some 0x2d then text.tail else text
  let whole := unsigned.takeWhile isDigit
  let (fractionDigits, afterFraction) := fraction (unsigned.dropWhile isDigit)
  whole.head? != some 0x30 && maxStrDigits < whole.length && fractionDigits.isNone &&
    (exponent afterFraction).1.isNone

/-- What is raised for a token that cannot start a value. -/
def Token.refused : Token → JsonError
  | .atom text => if startsLong text then .valueError else .jsonDecodeError
  | .lbracket => .recursionError
  | .lbrace => .recursionError
  | _ => .jsonDecodeError

/-- What is raised for a token that the parser does not take. -/
def Parser.refused (parser : Parser) (token : Token) : JsonError :=
  match parser with
  | .value _ => token.refused
  | .firstItem _ => token.refused
  | _ => .jsonDecodeError

def Parser.take (limit : ℕ) (parser : Parser) (token : Token) : Except JsonError Parser :=
  match parser.feed limit token with
  | some next => .ok next
  | none => .error (parser.refused token)

/-- A reader of text between two characters. -/
structure Scanner where
  mode : Mode
  parser : Parser

def Scanner.feed (limit : ℕ) (scanner : Scanner) (c : ℕ) : Except JsonError Scanner :=
  match Lexer.feed ⟨[], scanner.mode⟩ c with
  | none => .error .jsonDecodeError
  | some lexer => do
      let parser ← lexer.tokens.reverse.foldlM (Parser.take limit) scanner.parser
      pure ⟨lexer.mode, parser⟩

/-- The end of the text, where a number or a word may end. -/
def Scanner.close (limit : ℕ) (scanner : Scanner) : Except JsonError Parser :=
  match scanner.mode with
  | .idle => .ok scanner.parser
  | .atom text => scanner.parser.take limit (.atom text.reverse)
  | _ => .error .jsonDecodeError

def Parser.result : Parser → Except JsonError Value
  | .after v [] => .ok v
  | _ => .error .jsonDecodeError

/-- `json.loads` of a text. -/
def loadText (limit : ℕ) (text : Str) : Except JsonError Value := do
  let scanner ← text.foldlM (Scanner.feed limit) ⟨.idle, .value []⟩
  let parser ← scanner.close limit
  parser.result

/-! ## Nesting -/

mutual

/-- How deep the containers of a value nest. -/
def nesting : Value → ℕ
  | .list items => nestingItems items + 1
  | .dict fields => nestingFields fields + 1
  | _ => 0

def nestingItems : List Value → ℕ
  | [] => 0
  | item :: items => max (nesting item) (nestingItems items)

def nestingFields : List (Str × Value) → ℕ
  | [] => 0
  | (_, value) :: fields => max (nesting value) (nestingFields fields)

end

theorem nestingItems_le_iff {items : List Value} {n : ℕ} :
    nestingItems items ≤ n ↔ ∀ item ∈ items, nesting item ≤ n := by
  induction items with
  | nil => simp [nestingItems]
  | cons item items ih => rw [nestingItems, max_le_iff, ih, List.forall_mem_cons]

theorem nestingFields_le_iff {fields : List (Str × Value)} {n : ℕ} :
    nestingFields fields ≤ n ↔ ∀ field ∈ fields, nesting field.2 ≤ n := by
  induction fields with
  | nil => simp [nestingFields]
  | cons field fields ih => rw [nestingFields, max_le_iff, ih, List.forall_mem_cons]

theorem nestingItems_append_le {items : List Value} {value : Value} {n : ℕ}
    (hitems : nestingItems items ≤ n) (hvalue : nesting value ≤ n) :
    nestingItems (items ++ [value]) ≤ n := by
  apply nestingItems_le_iff.mpr
  intro item hitem
  rcases List.mem_append.mp hitem with hold | hnew
  · exact nestingItems_le_iff.mp hitems item hold
  · obtain rfl := List.mem_singleton.mp hnew
    exact hvalue

theorem nestingFields_put_le {fields : List (Str × Value)} {key : Str} {value : Value} {n : ℕ}
    (hfields : nestingFields fields ≤ n) (hvalue : nesting value ≤ n) :
    nestingFields (put key value fields) ≤ n := by
  apply nestingFields_le_iff.mpr
  intro field hfield
  rcases mem_of_mem_put hfield with rfl | hold
  · exact hvalue
  · exact nestingFields_le_iff.mp hfields field hold

/-! ## What the parser holds -/

/-- The keys of a value that is a dictionary differ. -/
def Distinct (value : Value) : Prop := ∀ fields, value = .dict fields → (keys fields).Nodup

namespace Frame

def nesting : Frame → ℕ
  | .list items => nestingItems items
  | .dict fields _ => nestingFields fields

def Distinct : Frame → Prop
  | .list _ => True
  | .dict fields _ => (keys fields).Nodup

end Frame

/-- Each container around a value leaves room for those around it. -/
def Fits (limit : ℕ) : List Frame → Prop
  | [] => True
  | frame :: stack =>
      frame.nesting + stack.length + 1 ≤ limit ∧ frame.Distinct ∧ Fits limit stack

def Parser.Fits (limit : ℕ) : Parser → Prop
  | .value stack => PyJson.Fits limit stack
  | .firstItem stack => PyJson.Fits limit (.list [] :: stack)
  | .key fields _ stack => PyJson.Fits limit (.dict fields [] :: stack)
  | .colon fields name stack => PyJson.Fits limit (.dict fields name :: stack)
  | .after v stack =>
      PyJson.nesting v + stack.length ≤ limit ∧ PyJson.Distinct v ∧ PyJson.Fits limit stack

/-- A value that is no container. -/
def Flat (value : Value) : Prop := nesting value = 0 ∧ Distinct value

theorem flat_of_leaf {value : Value} (hlist : ∀ items, value ≠ .list items)
    (hdict : ∀ fields, value ≠ .dict fields) : Flat value := by
  refine ⟨?_, fun fields hfields => absurd hfields (hdict fields)⟩
  cases value with
  | list items => exact absurd rfl (hlist items)
  | dict fields => exact absurd rfl (hdict fields)
  | _ => simp [nesting]

theorem flat_of_number {text : Str} {value : Value} (h : number text = some value) :
    Flat value := by
  unfold number at h
  dsimp only at h
  split_ifs at h
  all_goals
    cases h
    exact flat_of_leaf (fun _ h => by cases h) (fun _ h => by cases h)

theorem flat_of_scalar {text : Str} {value : Value} (h : scalar text = some value) :
    Flat value := by
  unfold scalar at h
  split_ifs at h
  case neg => exact flat_of_number h
  all_goals
    cases h
    exact flat_of_leaf (fun _ h => by cases h) (fun _ h => by cases h)

section Steps

variable {limit : ℕ} {stack : List Frame} {parser next : Parser} {token : Token}

theorem length_le_of_fits (hstack : Fits limit stack) : stack.length ≤ limit := by
  cases stack with
  | nil => exact Nat.zero_le limit
  | cons frame stack =>
      have hframe := hstack.1
      rw [List.length_cons]
      omega

theorem fits_after {value : Value} (hvalue : Flat value) (hstack : Fits limit stack) :
    (Parser.after value stack).Fits limit := by
  refine ⟨?_, hvalue.2, hstack⟩
  rw [hvalue.1, zero_add]
  exact length_le_of_fits hstack

/-- A token where a value starts. -/
theorem fits_start (hstack : Fits limit stack) (h : Parser.start limit stack token = some next) :
    next.Fits limit := by
  cases token with
  | atom text =>
      obtain ⟨value, hvalue, rfl⟩ := Option.map_eq_some_iff.mp h
      exact fits_after (flat_of_scalar hvalue) hstack
  | string s =>
      obtain rfl := Option.some.inj h
      apply fits_after _ hstack
      exact flat_of_leaf (fun _ h => by cases h) (fun _ h => by cases h)
  | lbracket =>
      obtain ⟨hroom, hnext⟩ := Option.ite_none_right_eq_some.mp h
      obtain rfl := Option.some.inj hnext
      refine ⟨?_, trivial, hstack⟩
      rw [Frame.nesting, nestingItems]
      omega
  | lbrace =>
      obtain ⟨hroom, hnext⟩ := Option.ite_none_right_eq_some.mp h
      obtain rfl := Option.some.inj hnext
      refine ⟨?_, List.nodup_nil, hstack⟩
      rw [Frame.nesting, nestingFields]
      omega
  | rbrace => cases h
  | rbracket => cases h
  | comma => cases h
  | colon => cases h

/-- A list or a dictionary ends. -/
theorem fits_close_list {items : List Value} (hfits : Fits limit (.list items :: stack)) :
    (Parser.after (.list items) stack).Fits limit := by
  refine ⟨?_, fun fields hfields => (by cases hfields), hfits.2.2⟩
  have hroom := hfits.1
  rw [Frame.nesting] at hroom
  rw [nesting]
  omega

theorem fits_close_dict {fields : List (Str × Value)} {name : Str}
    (hfits : Fits limit (.dict fields name :: stack)) :
    (Parser.after (.dict fields) stack).Fits limit := by
  have hroom := hfits.1
  refine ⟨?_, ?_, hfits.2.2⟩
  · rw [Frame.nesting] at hroom
    rw [nesting]
    omega
  · intro fields' hfields
    cases hfields
    exact hfits.2.1

/-- The value that was read goes into the container around it. -/
theorem fits_append {v : Value} {items : List Value}
    (hfits : (Parser.after v (.list items :: stack)).Fits limit) :
    Fits limit (.list (items ++ [v]) :: stack) := by
  obtain ⟨hvalue, -, hroom, -, hstack⟩ := hfits
  refine ⟨?_, trivial, hstack⟩
  rw [List.length_cons] at hvalue
  rw [Frame.nesting] at hroom ⊢
  have hitems : nestingItems (items ++ [v]) ≤ limit - (stack.length + 1) :=
    nestingItems_append_le (by omega) (by omega)
  omega

theorem fits_put {v : Value} {fields : List (Str × Value)} {name : Str}
    (hfits : (Parser.after v (.dict fields name :: stack)).Fits limit) (key : Str) :
    Fits limit (.dict (put name v fields) key :: stack) := by
  obtain ⟨hvalue, -, hroom, hdistinct, hstack⟩ := hfits
  refine ⟨?_, nodup_keys_put hdistinct, hstack⟩
  rw [List.length_cons] at hvalue
  rw [Frame.nesting] at hroom ⊢
  have hfields : nestingFields (put name v fields) ≤ limit - (stack.length + 1) :=
    nestingFields_put_le (by omega) (by omega)
  omega

theorem feed_firstItem (hclose : token ≠ .rbracket) :
    (Parser.firstItem stack).feed limit token = Parser.start limit (.list [] :: stack) token := by
  cases token with
  | rbracket => exact absurd rfl hclose
  | _ => rfl

/-- What one token keeps. -/
theorem fits_feed (hfits : parser.Fits limit) (h : parser.feed limit token = some next) :
    next.Fits limit := by
  cases parser with
  | value stack => exact fits_start hfits h
  | firstItem stack =>
      by_cases hclose : token = .rbracket
      · subst hclose
        obtain rfl := Option.some.inj h
        exact fits_close_list hfits
      · rw [feed_firstItem hclose] at h
        exact fits_start hfits h
  | key fields first stack =>
      cases token with
      | string s =>
          obtain rfl := Option.some.inj h
          exact hfits
      | rbrace =>
          cases first with
          | false => cases h
          | true =>
              obtain rfl := Option.some.inj h
              exact fits_close_dict hfits
      | _ => cases h
  | colon fields name stack =>
      cases token with
      | colon =>
          obtain rfl := Option.some.inj h
          exact hfits
      | _ => cases h
  | after v stack =>
      cases stack with
      | nil => cases token <;> cases h
      | cons frame stack =>
          cases frame with
          | list items =>
              cases token with
              | comma =>
                  obtain rfl := Option.some.inj h
                  exact fits_append hfits
              | rbracket =>
                  obtain rfl := Option.some.inj h
                  exact fits_close_list (fits_append hfits)
              | _ => cases h
          | dict fields name =>
              cases token with
              | comma =>
                  obtain rfl := Option.some.inj h
                  exact fits_put hfits []
              | rbrace =>
                  obtain rfl := Option.some.inj h
                  exact fits_close_dict (fits_put hfits [])
              | _ => cases h

end Steps

/-! ## What is returned -/

section Loops

variable {limit : ℕ}

/-- A step and the rest, which return. -/
theorem bind_eq_ok {ε α β : Type} {x : Except ε α} {f : α → Except ε β} {b : β}
    (h : x >>= f = .ok b) : ∃ a, x = .ok a ∧ f a = .ok b := by
  cases x with
  | error e => cases h
  | ok a => exact ⟨a, rfl, h⟩

/-- What every round keeps holds in the end, if no round raises. -/
theorem keeps_of_foldlM_ok {ε σ α : Type} {keeps : σ → Prop} {step : σ → α → Except ε σ}
    (hstep : ∀ s x s', keeps s → step s x = .ok s' → keeps s') {xs : List α} {s s' : σ}
    (hs : keeps s) (hloop : xs.foldlM step s = .ok s') : keeps s' := by
  induction xs generalizing s with
  | nil =>
      cases hloop
      exact hs
  | cons x xs ih =>
      rw [List.foldlM_cons] at hloop
      obtain ⟨next, hround, hrest⟩ := bind_eq_ok hloop
      exact ih (hstep s x next hs hround) hrest

theorem fits_take {parser next : Parser} {token : Token} (hfits : parser.Fits limit)
    (h : parser.take limit token = .ok next) : next.Fits limit := by
  rw [Parser.take] at h
  cases hfeed : parser.feed limit token with
  | none =>
      rw [hfeed] at h
      cases h
  | some parser' =>
      rw [hfeed] at h
      cases h
      exact fits_feed hfits hfeed

theorem fits_scan {scanner next : Scanner} {c : ℕ} (hfits : scanner.parser.Fits limit)
    (h : scanner.feed limit c = .ok next) : next.parser.Fits limit := by
  rw [Scanner.feed] at h
  cases hlexer : Lexer.feed ⟨[], scanner.mode⟩ c with
  | none =>
      rw [hlexer] at h
      cases h
  | some lexer =>
      rw [hlexer] at h
      obtain ⟨parser, hparser, hreturn⟩ := bind_eq_ok h
      cases hreturn
      exact keeps_of_foldlM_ok (fun _ _ _ => fits_take) hfits hparser

theorem fits_close {scanner : Scanner} {parser : Parser} (hfits : scanner.parser.Fits limit)
    (h : scanner.close limit = .ok parser) : parser.Fits limit := by
  rw [Scanner.close] at h
  cases hmode : scanner.mode with
  | idle =>
      rw [hmode] at h
      cases h
      exact hfits
  | atom text =>
      rw [hmode] at h
      exact fits_take hfits h
  | _ =>
      rw [hmode] at h
      cases h

theorem result_eq_ok {parser : Parser} {value : Value} (h : parser.result = .ok value) :
    parser = .after value [] := by
  cases parser with
  | after v stack =>
      cases stack with
      | nil =>
          cases h
          rfl
      | cons frame stack => cases h
  | _ => cases h

/-- What is returned nests no deeper than the limit and repeats no key. -/
theorem sound_of_loadText {text : Str} {value : Value} (h : loadText limit text = .ok value) :
    nesting value ≤ limit ∧ Distinct value := by
  obtain ⟨scanner, hscan, hrest⟩ := bind_eq_ok h
  obtain ⟨parser, hclose, hresult⟩ := bind_eq_ok hrest
  have hstart : (Parser.value []).Fits limit := trivial
  have hfits : scanner.parser.Fits limit :=
    keeps_of_foldlM_ok (fun _ _ _ => fits_scan) (by exact hstart) hscan
  have hend := fits_close hfits hclose
  rw [result_eq_ok hresult] at hend
  exact ⟨hend.1, hend.2.1⟩

end Loops

/-! ## The same as in two passes -/

def Lexer.after (lexer : Lexer) (earlier : List Token) : Lexer :=
  ⟨lexer.tokens ++ earlier, lexer.mode⟩

theorem outside_after (earlier : List Token) (c : ℕ) (ts : List Token) :
    Lexer.outside (ts ++ earlier) c = (Lexer.outside ts c).after earlier := by
  unfold Lexer.outside
  split_ifs
  · rfl
  · rfl
  · cases punctuation c <;> rfl

/-- The lexer does not look at its earlier tokens. -/
theorem feed_after (earlier : List Token) (lexer : Lexer) (c : ℕ) :
    (lexer.after earlier).feed c = (lexer.feed c).map (·.after earlier) := by
  obtain ⟨ts, mode⟩ := lexer
  cases mode with
  | idle => exact congrArg some (outside_after earlier c ts)
  | atom text =>
      simp only [Lexer.feed, Lexer.after]
      split_ifs
      · exact congrArg some (outside_after earlier c (.atom text.reverse :: ts))
      · rfl
  | string s high =>
      simp only [Lexer.feed, Lexer.after]
      split_ifs <;> rfl
  | escape s high =>
      simp only [Lexer.feed, Lexer.after]
      split_ifs
      · rfl
      · cases unescape c <;> rfl
  | hex s high digits value =>
      simp only [Lexer.feed, Lexer.after]
      cases hexDigit c with
      | none => rfl
      | some digit =>
          simp only [Option.bind_eq_bind, Option.bind_some]
          split_ifs <;> rfl

theorem foldlM_feed_after (earlier : List Token) (text : Str) (lexer : Lexer) :
    text.foldlM Lexer.feed (lexer.after earlier) =
      (text.foldlM Lexer.feed lexer).map (·.after earlier) := by
  induction text generalizing lexer with
  | nil => rfl
  | cons c text ih =>
      rw [List.foldlM_cons, List.foldlM_cons, feed_after]
      cases lexer.feed c with
      | none => rfl
      | some next => exact ih next

theorem toOption_bind {ε α β : Type} (x : Except ε α) (f : α → Except ε β) :
    (x >>= f).toOption = x.toOption.bind fun a => (f a).toOption := by
  cases x <;> rfl

theorem toOption_foldlM {ε σ α : Type} {step : σ → α → Except ε σ} {step' : σ → α → Option σ}
    (hstep : ∀ s x, (step s x).toOption = step' s x) (xs : List α) (s : σ) :
    (xs.foldlM step s).toOption = xs.foldlM step' s := by
  induction xs generalizing s with
  | nil => rfl
  | cons x xs ih =>
      rw [List.foldlM_cons, List.foldlM_cons, toOption_bind, hstep]
      exact congrArg _ (funext ih)

theorem toOption_take (limit : ℕ) (parser : Parser) (token : Token) :
    (parser.take limit token).toOption = parser.feed limit token := by
  rw [Parser.take]
  cases parser.feed limit token <;> rfl

/-- The tokens of a part of the text, taken after the part is read. -/
theorem toOption_scan (limit : ℕ) (text : Str) (mode : Mode) (parser : Parser) :
    (text.foldlM (Scanner.feed limit) ⟨mode, parser⟩).toOption =
      (text.foldlM Lexer.feed ⟨[], mode⟩).bind fun lexer =>
        (lexer.tokens.reverse.foldlM (Parser.feed limit) parser).map (⟨lexer.mode, ·⟩) := by
  induction text generalizing mode parser with
  | nil => rfl
  | cons c text ih =>
      rw [List.foldlM_cons, List.foldlM_cons, toOption_bind, Scanner.feed]
      cases hlexer : Lexer.feed ⟨[], mode⟩ c with
      | none => rfl
      | some lexer =>
          have hlater : text.foldlM Lexer.feed lexer =
              (text.foldlM Lexer.feed ⟨[], lexer.mode⟩).map (·.after lexer.tokens) :=
            foldlM_feed_after lexer.tokens text ⟨[], lexer.mode⟩
          have hsplit : ∀ later : Lexer,
              (later.after lexer.tokens).tokens.reverse.foldlM (Parser.feed limit) parser =
              (lexer.tokens.reverse.foldlM (Parser.feed limit) parser).bind fun next =>
                later.tokens.reverse.foldlM (Parser.feed limit) next := by
            intro later
            rw [Lexer.after, List.reverse_append, List.foldlM_append]
            rfl
          have hscan : ((lexer.tokens.reverse.foldlM (Parser.take limit) parser).bind
              fun next => .ok (Scanner.mk lexer.mode next)).toOption =
              (lexer.tokens.reverse.foldlM (Parser.feed limit) parser).map (⟨lexer.mode, ·⟩) := by
            rw [← toOption_foldlM (toOption_take limit)]
            cases lexer.tokens.reverse.foldlM (Parser.take limit) parser <;> rfl
          rw [Option.bind_eq_bind, Option.bind_some, hlater, Option.bind_map]
          calc
            _ = ((lexer.tokens.reverse.foldlM (Parser.feed limit) parser).map
                (Scanner.mk lexer.mode)).bind
                  fun scanner => (text.foldlM (Scanner.feed limit) scanner).toOption :=
              congrArg (fun found => Option.bind found _) hscan
            _ = (lexer.tokens.reverse.foldlM (Parser.feed limit) parser).bind fun next =>
                (text.foldlM Lexer.feed ⟨[], lexer.mode⟩).bind fun later =>
                  (later.tokens.reverse.foldlM (Parser.feed limit) next).map
                    (Scanner.mk later.mode) := by
              rw [Option.bind_map]
              exact congrArg _ (funext (ih lexer.mode))
            _ = _ := by
              rw [Option.bind_comm]
              apply congrArg
              funext later
              rw [Function.comp_apply, hsplit, Option.map_bind]
              rfl

theorem toOption_result (parser : Parser) : parser.result.toOption =
    match parser with
    | .after v [] => some v
    | _ => none := by
  cases parser with
  | after v stack => cases stack <;> rfl
  | _ => rfl

/-- `json.loads` of bytes is that of the text that they decode to. -/
theorem loads_eq_loadText (limit : ℕ) (bytes : List ℕ) :
    loads limit bytes = (decode bytes).bind fun text => (loadText limit text).toOption := by
  rw [loads]
  apply congrArg
  funext text
  simp only [loadText, tokens, toOption_bind, toOption_scan, toOption_result,
    Option.bind_eq_bind]
  cases text.foldlM Lexer.feed ⟨[], .idle⟩ with
  | none => rfl
  | some lexer =>
      simp only [Option.bind_some]
      rw [Option.bind_map]
      obtain ⟨ts, mode⟩ := lexer
      cases mode with
      | idle => rfl
      | atom text =>
          rw [Option.bind_some, List.reverse_cons, List.foldlM_append, Option.bind_eq_bind,
            Option.bind_assoc]
          apply congrArg
          funext parser
          simp only [Function.comp_apply, Scanner.close, toOption_take, List.foldlM_cons,
            List.foldlM_nil, Option.bind_eq_bind, Option.pure_def]
          cases parser.feed limit (.atom text.reverse) <;> rfl
      | _ =>
          rw [Option.bind_none]
          cases ts.reverse.foldlM (Parser.feed limit) (.value []) <;> rfl

end FastTAK.PyJson
