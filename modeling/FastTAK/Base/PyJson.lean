import Mathlib
import FastTAK.Base.Fields

/-!
# Python's `json`

`json.loads` of bytes, which accepts more than JSON, and the pieces of what `json.dumps` writes.
A string is a list of code points, surrogates among them.
-/

namespace FastTAK.PyJson

open FastTAK.Fields

abbrev Str := List ℕ

/-- The code points of a literal. -/
def str (s : String) : Str := s.toList.map Char.toNat

/-- A float, where a finite one is given by the number that it was read from. -/
inductive PyFloat
  | finite (value : ℚ)
  | infinity (negative : Bool)
  | nan
deriving DecidableEq

inductive Value where
  | null
  | bool (b : Bool)
  | int (n : ℤ)
  | float (f : PyFloat)
  | str (s : Str)
  | list (items : List Value)
  | dict (fields : List (Str × Value))

/-! ## Decoding -/

def isHigh (c : ℕ) : Bool := 0xd800 ≤ c && c < 0xdc00

def isLow (c : ℕ) : Bool := 0xdc00 ≤ c && c < 0xe000

def isSurrogate (c : ℕ) : Bool := isHigh c || isLow c

def join (high low : ℕ) : ℕ := 0x10000 + (high - 0xd800) * 0x400 + (low - 0xdc00)

/-- A UTF-8 decoder between two bytes: what it has read, the latest first, how many bytes are
due, their bits so far, and the range of the next byte. -/
structure Utf8 where
  read : Str
  due : ℕ
  bits : ℕ
  least : ℕ
  most : ℕ

def Utf8.feed (d : Utf8) (byte : ℕ) : Option Utf8 :=
  if d.due = 0 then
    if byte < 0x80 then some { d with read := byte :: d.read }
    else if byte < 0xc2 then none
    else if byte < 0xe0 then some ⟨d.read, 1, byte - 0xc0, 0x80, 0xbf⟩
    else if byte < 0xf0 then
      some ⟨d.read, 2, byte - 0xe0, if byte = 0xe0 then 0xa0 else 0x80, 0xbf⟩
    else if byte < 0xf5 then
      some ⟨d.read, 3, byte - 0xf0, if byte = 0xf0 then 0x90 else 0x80,
        if byte = 0xf4 then 0x8f else 0xbf⟩
    else none
  else if d.least ≤ byte && byte ≤ d.most then
    let bits := d.bits * 64 + (byte - 0x80)
    if d.due = 1 then some ⟨bits :: d.read, 0, 0, 0, 0⟩
    else some ⟨d.read, d.due - 1, bits, 0x80, 0xbf⟩
  else none

/-- `bytes.decode('utf-8', 'surrogatepass')`. -/
def decodeUtf8 (bytes : List ℕ) : Option Str := do
  let d ← bytes.foldlM Utf8.feed ⟨[], 0, 0, 0, 0⟩
  if d.due = 0 then some d.read.reverse else none

def units16 (big : Bool) : List ℕ → Option (List ℕ)
  | [] => some []
  | [_] => none
  | a :: b :: rest =>
      (units16 big rest).map ((if big then a * 0x100 + b else b * 0x100 + a) :: ·)

def joinUnits : List ℕ → Str
  | [] => []
  | [u] => [u]
  | u :: v :: rest =>
      if isHigh u && isLow v then join u v :: joinUnits rest else u :: joinUnits (v :: rest)

/-- `bytes.decode('utf-16-be', 'surrogatepass')` and `utf-16-le`. -/
def decodeUtf16 (big : Bool) (bytes : List ℕ) : Option Str := (units16 big bytes).map joinUnits

/-- `bytes.decode('utf-32-be', 'surrogatepass')` and `utf-32-le`. -/
def decodeUtf32 (big : Bool) : List ℕ → Option Str
  | [] => some []
  | a :: b :: c :: d :: rest =>
      let code := if big then ((a * 0x100 + b) * 0x100 + c) * 0x100 + d
        else ((d * 0x100 + c) * 0x100 + b) * 0x100 + a
      if code < 0x110000 then (decodeUtf32 big rest).map (code :: ·) else none
  | _ => none

/-- `s.decode(detect_encoding(s), 'surrogatepass')`. -/
def decode (bytes : List ℕ) : Option Str :=
  match bytes with
  | 0 :: 0 :: 0xfe :: 0xff :: rest => decodeUtf32 true rest
  | 0xff :: 0xfe :: 0 :: 0 :: rest => decodeUtf32 false rest
  | 0xfe :: 0xff :: rest => decodeUtf16 true rest
  | 0xff :: 0xfe :: rest => decodeUtf16 false rest
  | 0xef :: 0xbb :: 0xbf :: rest => decodeUtf8 rest
  | a :: b :: c :: d :: _ =>
      if a = 0 then if b ≠ 0 then decodeUtf16 true bytes else decodeUtf32 true bytes
      else if b = 0 then
        if c ≠ 0 || d ≠ 0 then decodeUtf16 false bytes else decodeUtf32 false bytes
      else decodeUtf8 bytes
  | [a, b] =>
      if a = 0 then decodeUtf16 true bytes
      else if b = 0 then decodeUtf16 false bytes
      else decodeUtf8 bytes
  | _ => decodeUtf8 bytes

/-! ## Tokens -/

inductive Token
  | lbrace
  | rbrace
  | lbracket
  | rbracket
  | comma
  | colon
  | atom (text : Str)
  | string (s : Str)

/-- Where the lexer is.  `high` says that the latest code point is a high surrogate from an
escape. -/
inductive Mode
  | idle
  | atom (text : Str)
  | string (s : Str) (high : Bool)
  | escape (s : Str) (high : Bool)
  | hex (s : Str) (high : Bool) (digits value : ℕ)

/-- The tokens, the latest first. -/
structure Lexer where
  tokens : List Token
  mode : Mode

def isSpace (c : ℕ) : Bool := c = 0x20 || c = 0x09 || c = 0x0a || c = 0x0d

def punctuation (c : ℕ) : Option Token :=
  if c = 0x7b then some .lbrace
  else if c = 0x7d then some .rbrace
  else if c = 0x5b then some .lbracket
  else if c = 0x5d then some .rbracket
  else if c = 0x2c then some .comma
  else if c = 0x3a then some .colon
  else none

def quote : ℕ := 0x22

def backslash : ℕ := 0x5c

def hexDigit (c : ℕ) : Option ℕ :=
  if 0x30 ≤ c ∧ c ≤ 0x39 then some (c - 0x30)
  else if 0x61 ≤ c ∧ c ≤ 0x66 then some (c - 0x61 + 10)
  else if 0x41 ≤ c ∧ c ≤ 0x46 then some (c - 0x41 + 10)
  else none

/-- The character that a one-letter escape stands for. -/
def unescape (c : ℕ) : Option ℕ :=
  if c = quote || c = backslash || c = 0x2f then some c
  else if c = 0x62 then some 0x08
  else if c = 0x66 then some 0x0c
  else if c = 0x6e then some 0x0a
  else if c = 0x72 then some 0x0d
  else if c = 0x74 then some 0x09
  else none

/-- A character outside strings. -/
def Lexer.outside (tokens : List Token) (c : ℕ) : Lexer :=
  if isSpace c then ⟨tokens, .idle⟩
  else if c = quote then ⟨tokens, .string [] false⟩
  else
    match punctuation c with
    | some token => ⟨token :: tokens, .idle⟩
    | none => ⟨tokens, .atom [c]⟩

/-- The end of a `\u` escape. -/
def endEscape (s : Str) (high : Bool) (value : ℕ) : Mode :=
  match s with
  | before :: rest =>
      if high && isLow value then .string (join before value :: rest) false
      else .string (value :: s) (isHigh value)
  | [] => .string [value] (isHigh value)

def Lexer.feed (lexer : Lexer) (c : ℕ) : Option Lexer :=
  match lexer.mode with
  | .idle => some (Lexer.outside lexer.tokens c)
  | .atom text =>
      if isSpace c || c = quote || (punctuation c).isSome then
        some (Lexer.outside (.atom text.reverse :: lexer.tokens) c)
      else some { lexer with mode := .atom (c :: text) }
  | .string s high =>
      if c = quote then some ⟨.string s.reverse :: lexer.tokens, .idle⟩
      else if c = backslash then some { lexer with mode := .escape s high }
      else if c < 0x20 then none
      else some { lexer with mode := .string (c :: s) false }
  | .escape s high =>
      if c = 0x75 then some { lexer with mode := .hex s high 0 0 }
      else (unescape c).map fun c => { lexer with mode := .string (c :: s) false }
  | .hex s high digits value => do
      let digit ← hexDigit c
      let value := value * 16 + digit
      if digits = 3 then some { lexer with mode := endEscape s high value }
      else some { lexer with mode := .hex s high (digits + 1) value }

def tokens (text : Str) : Option (List Token) := do
  let lexer ← text.foldlM Lexer.feed ⟨[], .idle⟩
  match lexer.mode with
  | .idle => some lexer.tokens.reverse
  | .atom text => some (.atom text.reverse :: lexer.tokens).reverse
  | _ => none

/-! ## Numbers -/

def isDigit (c : ℕ) : Bool := 0x30 ≤ c && c ≤ 0x39

def digitsValue (digits : List ℕ) : ℕ := digits.foldl (fun n c => n * 10 + (c - 0x30)) 0

/-- `sys.get_int_max_str_digits()`. -/
def maxStrDigits : ℕ := 4300

/-- The least number that `float` makes infinite. -/
def floatBound : ℚ := 2 ^ 1024 - 2 ^ 970

def toFloat (x : ℚ) : PyFloat := if abs x < floatBound then .finite x else .infinity (x < 0)

/-- The digits after a point, if there are any, and the rest. -/
def fraction (text : Str) : Option (List ℕ) × Str :=
  match text with
  | 0x2e :: rest =>
      if rest.takeWhile isDigit = [] then (none, text)
      else (some (rest.takeWhile isDigit), rest.dropWhile isDigit)
  | _ => (none, text)

/-- The exponent, if there is one, and the rest. -/
def exponent (text : Str) : Option ℤ × Str :=
  let read (negative : Bool) (digits : Str) : Option ℤ × Str :=
    if digits.takeWhile isDigit = [] then (none, text)
    else
      let value : ℤ := digitsValue (digits.takeWhile isDigit)
      (some (if negative then -value else value), digits.dropWhile isDigit)
  match text with
  | e :: rest =>
      if e = 0x65 || e = 0x45 then
        match rest with
        | 0x2b :: digits => read false digits
        | 0x2d :: digits => read true digits
        | digits => read false digits
      else (none, text)
  | [] => (none, text)

def number (text : Str) : Option Value :=
  let negative := text.head? == some 0x2d
  let unsigned := if negative then text.tail else text
  let whole := unsigned.takeWhile isDigit
  let (fractionDigits, afterFraction) := fraction (unsigned.dropWhile isDigit)
  let (exp, rest) := exponent afterFraction
  if whole = [] || (whole.length ≠ 1 && whole.head? == some 0x30) || rest ≠ [] then none
  else if fractionDigits.isNone && exp.isNone then
    if maxStrDigits < whole.length then none
    else some (.int (if negative then -digitsValue whole else digitsValue whole))
  else
    let digits := fractionDigits.getD []
    let x : ℚ := digitsValue (whole ++ digits) * (10 : ℚ) ^ (exp.getD 0 - digits.length)
    some (.float (toFloat (if negative then -x else x)))

/-- A value that is neither a string nor a container. -/
def scalar (text : Str) : Option Value :=
  if text = str "null" then some .null
  else if text = str "true" then some (.bool true)
  else if text = str "false" then some (.bool false)
  else if text = str "NaN" then some (.float .nan)
  else if text = str "Infinity" then some (.float (.infinity false))
  else if text = str "-Infinity" then some (.float (.infinity true))
  else number text

/-! ## Values -/

/-- A container around the value that is read, with what it has already. -/
inductive Frame
  | list (items : List Value)
  | dict (fields : List (Str × Value)) (key : Str)

inductive Parser
  | value (stack : List Frame)
  | firstItem (stack : List Frame)
  | key (fields : List (Str × Value)) (first : Bool) (stack : List Frame)
  | colon (fields : List (Str × Value)) (key : Str) (stack : List Frame)
  | after (value : Value) (stack : List Frame)

/-- A token where a value starts.  Containers nest no deeper than the recursion limit. -/
def Parser.start (limit : ℕ) (stack : List Frame) : Token → Option Parser
  | .atom text => (scalar text).map (.after · stack)
  | .string s => some (.after (.str s) stack)
  | .lbracket => if stack.length < limit then some (.firstItem stack) else none
  | .lbrace => if stack.length < limit then some (.key [] true stack) else none
  | _ => none

def Parser.feed (limit : ℕ) (parser : Parser) (token : Token) : Option Parser :=
  match parser, token with
  | .value stack, token => start limit stack token
  | .firstItem stack, .rbracket => some (.after (.list []) stack)
  | .firstItem stack, token => start limit (.list [] :: stack) token
  | .key fields _ stack, .string name => some (.colon fields name stack)
  | .key fields true stack, .rbrace => some (.after (.dict fields) stack)
  | .colon fields name stack, .colon => some (.value (.dict fields name :: stack))
  | .after v (.list items :: stack), .comma =>
      some (.value (.list (items ++ [v]) :: stack))
  | .after v (.list items :: stack), .rbracket =>
      some (.after (.list (items ++ [v])) stack)
  | .after v (.dict fields name :: stack), .comma =>
      some (.key (put name v fields) false stack)
  | .after v (.dict fields name :: stack), .rbrace =>
      some (.after (.dict (put name v fields)) stack)
  | _, _ => none

/-- `json.loads` of bytes, if it does not raise. -/
def loads (limit : ℕ) (bytes : List ℕ) : Option Value := do
  let text ← decode bytes
  let ts ← tokens text
  match ← ts.foldlM (Parser.feed limit) (.value []) with
  | .after value [] => some value
  | _ => none

/-! ## Writing -/

/-- A piece of the text that `json.dumps` writes.  A string is given by the code units that are
written for it, as characters or as escapes. -/
inductive Piece
  | word (text : String)
  | number
  | nan
  | infinity
  | string (units : List ℕ)
deriving DecidableEq

/-- The UTF-16 code units of a string. -/
def units : Str → List ℕ
  | [] => []
  | c :: rest =>
      if c < 0x10000 then c :: units rest
      else (0xd800 + (c - 0x10000) / 0x400) :: (0xdc00 + (c - 0x10000) % 0x400) :: units rest

def floatPiece : PyFloat → Piece
  | .finite _ => .number
  | .infinity _ => .infinity
  | .nan => .nan

mutual

/-- `json.dumps`. -/
def dumps : Value → List Piece
  | .null => [.word "null"]
  | .bool b => [.word (if b then "true" else "false")]
  | .int _ => [.number]
  | .float f => [floatPiece f]
  | .str s => [.string (units s)]
  | .list items => .word "[" :: dumpsItems items ++ [.word "]"]
  | .dict fields => .word "\x7b" :: dumpsFields fields ++ [.word "\x7d"]

def dumpsItems : List Value → List Piece
  | [] => []
  | item :: items => dumps item ++ (if items.isEmpty then [] else [.word ", "]) ++ dumpsItems items

def dumpsFields : List (Str × Value) → List Piece
  | [] => []
  | (key, value) :: fields =>
      .string (units key) :: .word ": " :: dumps value ++
        (if fields.isEmpty then [] else [.word ", "]) ++ dumpsFields fields

end

/-! ## Text without loose ends -/

/-- Every surrogate among the code units belongs to a pair. -/
def paired : List ℕ → Bool
  | [] => true
  | [u] => !isSurrogate u
  | u :: v :: rest => if isHigh u then isLow v && paired rest else !isLow u && paired (v :: rest)

/-- Text of Unicode scalar values, none of them NUL. -/
def plain (s : Str) : Bool := s.all fun c => c ≠ 0 && c < 0x110000 && !isSurrogate c

section Units

variable {s : Str} {u : ℕ} {rest : List ℕ}

theorem paired_cons (hu : isSurrogate u = false) : paired (u :: rest) = paired rest := by
  have hhigh : isHigh u = false := by
    rw [isSurrogate, Bool.or_eq_false_iff] at hu
    exact hu.1
  have hlow : isLow u = false := by
    rw [isSurrogate, Bool.or_eq_false_iff] at hu
    exact hu.2
  cases rest with
  | nil => simp [paired, hu]
  | cons v rest => simp [paired, hhigh, hlow]

theorem paired_pair {v : ℕ} (hu : isHigh u) (hv : isLow v) :
    paired (u :: v :: rest) = paired rest := by
  simp [paired, hu, hv]

theorem plain_cons {c : ℕ} :
    plain (c :: s) ↔ c ≠ 0 ∧ c < 0x110000 ∧ isSurrogate c = false ∧ plain s := by
  simp [plain, and_assoc]

theorem paired_units (hs : plain s) : paired (units s) := by
  induction s with
  | nil => rfl
  | cons c s ih =>
      obtain ⟨-, hbound, hsurrogate, hs⟩ := plain_cons.mp hs
      rw [units]
      split_ifs with hsmall
      · rw [paired_cons hsurrogate]
        exact ih hs
      · rw [paired_pair]
        · exact ih hs
        · simp only [isHigh, Bool.and_eq_true, decide_eq_true_eq]
          omega
        · simp only [isLow, Bool.and_eq_true, decide_eq_true_eq]
          omega

theorem zero_not_mem_units (hs : plain s) : 0 ∉ units s := by
  induction s with
  | nil => exact List.not_mem_nil
  | cons c s ih =>
      obtain ⟨hzero, -, -, hs⟩ := plain_cons.mp hs
      rw [units]
      split_ifs with hsmall
      · simp [hzero.symm, ih hs]
      · rw [List.mem_cons, List.mem_cons, not_or, not_or]
        exact ⟨by omega, by omega, ih hs⟩

end Units

end FastTAK.PyJson
