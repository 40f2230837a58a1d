import Mathlib
import FastTAK.Base.Text

/-!
# Binding through the proxy

The proxy reads a user name out of a bind DN, asks its token store first and
LLDAP second.  Both the LDAP listener and the HTTP endpoint go through here.
-/

namespace FastTAK.Bind

/-! ## Byte strings -/

/-- A piece of a Go string: a character, or a byte that belongs to none. -/
inductive Rune where
  | char (c : Char)
  | byte (b : UInt8)
  deriving DecidableEq, Repr

/-- A Go string, which may hold any bytes, as the loop `for range` sees it. -/
abbrev GoString := List Rune

def lit (text : String) : GoString := text.toList.map Rune.char

/-- The tables behind `unicode.ToLower` and `unicode.IsSpace`.  Outside ASCII
nothing is lowered to a comma. -/
structure Unicode where
  toLower : Char → Char
  ascii : ∀ c, c.toNat < 128 → toLower c = c.toLower
  comma : ∀ c, toLower c = ',' → c = ','
  idem : ∀ c, toLower (toLower c) = toLower c
  isSpace : Char → Bool
  comma_not_space : isSpace ',' = false

/-- The part of the tables that covers ASCII. -/
def asciiTable : Unicode where
  toLower := Char.toLower
  ascii := fun _ _ => rfl
  comma := by
    intro c hc
    have hcode := congrArg Char.toNat hc
    rw [Text.toNat_toLower] at hcode
    apply Char.toNat_inj.mp
    change _ = 44 at hcode
    change c.toNat = 44
    split_ifs at hcode <;> omega
  idem := by
    intro c
    apply Char.toNat_inj.mp
    rw [Text.toNat_toLower, Text.toNat_toLower]
    split_ifs <;> omega
  isSpace := Char.isWhitespace
  comma_not_space := rfl

variable (unicode : Unicode)

/-- A byte outside of any character becomes the replacement character. -/
def Rune.lower : Rune → Rune
  | char c => char (unicode.toLower c)
  | byte _ => char '\uFFFD'

/-- `strings.ToLower`. -/
def toLower (text : GoString) : GoString := text.map (Rune.lower unicode)

@[simp]
theorem toLower_append (left right : GoString) :
    toLower unicode (left ++ right) = toLower unicode left ++ toLower unicode right :=
  List.map_append

@[simp]
theorem toLower_cons (rune : Rune) (text : GoString) :
    toLower unicode (rune :: text) = rune.lower unicode :: toLower unicode text :=
  rfl

@[simp]
theorem lower_comma : (Rune.char ',').lower unicode = Rune.char ',' := by
  rw [Rune.lower, unicode.ascii ',' (by decide)]
  rfl

theorem lower_eq_comma_iff {rune : Rune} :
    rune.lower unicode = Rune.char ',' ↔ rune = Rune.char ',' := by
  constructor
  · intro h
    cases rune with
    | char c =>
        rw [Rune.lower, Rune.char.injEq] at h
        rw [unicode.comma c h]
    | byte b => exact absurd h (by simp [Rune.lower])
  · rintro rfl
    exact lower_comma unicode

theorem toLower_lit {text : String} (htext : ∀ c ∈ text.toList, c.toNat < 128 ∧ c.toLower = c) :
    toLower unicode (lit text) = lit text := by
  rw [toLower, lit, List.map_map]
  refine List.map_congr_left fun c hc => ?_
  obtain ⟨hascii, hlower⟩ := htext c hc
  simp [Rune.lower, unicode.ascii c hascii, hlower]

theorem toLower_takeWhile (text : GoString) :
    (toLower unicode text).takeWhile (fun rune => !(rune == Rune.char ',')) =
      toLower unicode (text.takeWhile fun rune => !(rune == Rune.char ',')) := by
  induction text with
  | nil => rfl
  | cons rune text ih =>
      rw [toLower_cons, List.takeWhile_cons, List.takeWhile_cons]
      by_cases hcomma : rune = Rune.char ','
      · simp [hcomma, toLower]
      · have hlower : rune.lower unicode ≠ Rune.char ',' :=
          mt (lower_eq_comma_iff unicode).mp hcomma
        simp [hcomma, hlower, ih]

/-! ## The user name of a DN -/

/-- The value of the first component, or nothing for a DN outside the base. -/
def extractUsername (bindDN baseDN : GoString) : GoString :=
  let dn := toLower unicode bindDN
  if ¬ (lit "," ++ toLower unicode baseDN) <:+ dn then []
  else
    let parts := dn.splitOn (Rune.char ',')
    if parts.length < 2 then []
    else
      let cnPart := parts.headD []
      if ¬ lit "uid=" <+: cnPart then [] else cnPart.drop 4

/-! ## The bind -/

/-- What answers one bind: the token store and, over its own connection, LLDAP. -/
structure Backend where
  /-- The first result of `TokenStore.Verify`; its error is only logged. -/
  verify : GoString → GoString → Bool
  /-- Does `ldap.DialURL` succeed. -/
  dials : Bool
  /-- Does `conn.Bind` succeed. -/
  accepts : GoString → GoString → Bool

/-- What a bind that succeeded has checked. -/
inductive Checked where
  | token (username password : GoString)
  | password (bindDN password : GoString)
  deriving DecidableEq, Repr

/-- The error `connect to lldap`. -/
inductive BindError where
  | connect
  deriving DecidableEq, Repr

/-- `HandleBind`.  The result `true` is given with what was checked. -/
def handleBind (baseDN : GoString) (backend : Backend) (bindDN password : GoString) :
    Except BindError (Option Checked) :=
  let username := extractUsername unicode bindDN baseDN
  if username ≠ [] ∧ password ≠ [] ∧ backend.verify username password then
    .ok (some (.token username password))
  else if ¬ backend.dials then
    .error .connect
  else if backend.accepts bindDN password then
    .ok (some (.password bindDN password))
  else
    .ok none

variable {unicode}

/-- What a successful bind rests on. -/
theorem handleBind_eq_some {baseDN : GoString} {backend : Backend}
    {bindDN password : GoString} {checked : Checked}
    (hbind : handleBind unicode baseDN backend bindDN password = .ok (some checked)) :
    (∃ username, username = extractUsername unicode bindDN baseDN ∧ username ≠ [] ∧
        password ≠ [] ∧ backend.verify username password ∧
        checked = .token username password) ∨
      (backend.dials ∧ backend.accepts bindDN password ∧
        checked = .password bindDN password) := by
  unfold handleBind at hbind
  dsimp only at hbind
  split_ifs at hbind with htoken hdials haccepts
  · obtain ⟨hname, hpassword, hverify⟩ := htoken
    simp only [Except.ok.injEq, Option.some.injEq] at hbind
    exact Or.inl ⟨_, rfl, hname, hpassword, hverify, hbind.symm⟩
  · simp only [Except.ok.injEq, Option.some.injEq] at hbind
    exact Or.inr ⟨by simpa using hdials, haccepts, hbind.symm⟩
  · simp at hbind

/-- No user name is read out of the empty DN. -/
theorem extractUsername_nil (baseDN : GoString) : extractUsername unicode [] baseDN = [] := by
  unfold extractUsername
  dsimp only
  rw [if_pos]
  rintro ⟨front, hfront⟩
  have hlength := congrArg List.length hfront
  simp [toLower, lit] at hlength

/-- Of a DN below the base the user name is the first component, up to the first comma. -/
theorem extractUsername_append (username rest baseDN : GoString) :
    extractUsername unicode
        (lit "uid=" ++ username ++ Rune.char ',' :: (rest ++ Rune.char ',' :: baseDN)) baseDN =
      toLower unicode (username.takeWhile fun rune => !(rune == Rune.char ',')) := by
  have huid : toLower unicode (lit "uid=") = lit "uid=" :=
    toLower_lit unicode (by simp)
  set dn := lit "uid=" ++ username ++ Rune.char ',' :: (rest ++ Rune.char ',' :: baseDN)
  have hdn : toLower unicode dn = lit "uid=" ++ (toLower unicode username ++
      Rune.char ',' :: (toLower unicode rest ++ Rune.char ',' :: toLower unicode baseDN)) := by
    simp [dn, huid]
  have hsuffix : lit "," ++ toLower unicode baseDN <:+ toLower unicode dn := by
    refine ⟨lit "uid=" ++ (toLower unicode username ++ Rune.char ',' ::
      toLower unicode rest), ?_⟩
    rw [hdn]
    simp [lit]
  have hcomma : Rune.char ',' ∈ toLower unicode dn := by
    rw [hdn]
    simp
  have hhead : ((toLower unicode dn).splitOn (Rune.char ',')).headD [] =
      lit "uid=" ++ toLower unicode
        (username.takeWhile fun rune => !(rune == Rune.char ',')) := by
    rw [Text.headD_splitOn, hdn, List.takeWhile_append_of_pos (by decide),
      List.takeWhile_append, ← toLower_takeWhile]
    split_ifs with hlength
    · simp only [List.takeWhile_cons, BEq.rfl, Bool.not_true, Bool.false_eq_true, if_false,
        List.append_nil]
      rw [(List.takeWhile_prefix _).eq_of_length hlength]
    · rfl
  have hparts := Text.two_le_length_splitOn hcomma
  unfold extractUsername
  dsimp only
  rw [if_neg (not_not.mpr hsuffix), if_neg (by omega), hhead,
    if_neg (not_not.mpr (List.prefix_append _ _))]
  rfl

end FastTAK.Bind
