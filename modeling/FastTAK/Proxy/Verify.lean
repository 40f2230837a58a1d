import FastTAK.Proxy.Bind
import FastTAK.Proxy.GroupHeader

/-!
# The identity that `/auth/verify` asserts

The endpoint splices the Basic user name into a DN, binds with the DN, searches
groups with the DN and answers with the user name.  This file models the way
from the header's bytes to the answer and says when all four mean one account.
-/

namespace FastTAK.Verify

open FastTAK.Bind
open FastTAK.GroupHeader (LookupFault)

/-! ## Basic credentials -/

/-- The value of a character of the standard base64 alphabet. -/
def sextet : Rune → Option ℕ
  | .byte _ => none
  | .char c =>
      if 'A' ≤ c ∧ c ≤ 'Z' then some (c.toNat - 65)
      else if 'a' ≤ c ∧ c ≤ 'z' then some (c.toNat - 71)
      else if '0' ≤ c ∧ c ≤ '9' then some (c.toNat + 4)
      else if c = '+' then some 62
      else if c = '/' then some 63
      else none

/-- Quantum by quantum: four characters, or a padded end. -/
def decodeQuanta : GoString → Option (List UInt8)
  | [] => some []
  | [a, b, .char '=', .char '='] => do
      let bits := (← sextet a) * 64 + (← sextet b)
      return [UInt8.ofNat (bits / 16)]
  | [a, b, c, .char '='] => do
      let bits := ((← sextet a) * 64 + (← sextet b)) * 64 + (← sextet c)
      return [UInt8.ofNat (bits / 1024), UInt8.ofNat (bits / 4)]
  | a :: b :: c :: d :: rest => do
      let bits := (((← sextet a) * 64 + (← sextet b)) * 64 + (← sextet c)) * 64 +
        (← sextet d)
      return UInt8.ofNat (bits / 65536) :: UInt8.ofNat (bits / 256) :: UInt8.ofNat bits ::
        (← decodeQuanta rest)
  | _ => none

/-- `base64.StdEncoding.DecodeString`, which skips line ends. -/
def decodeString (text : GoString) : Option (List UInt8) :=
  decodeQuanta (text.filter fun rune => rune ≠ .char '\n' ∧ rune ≠ .char '\r')

/-- A character written in several bytes: how many follow the first, the bits of the
first, and the least code that may be written so. -/
def leadByte (b : UInt8) : Option (ℕ × ℕ × ℕ) :=
  let n := b.toNat
  if 0xc0 ≤ n ∧ n < 0xe0 then some (1, n - 0xc0, 0x80)
  else if 0xe0 ≤ n ∧ n < 0xf0 then some (2, n - 0xe0, 0x800)
  else if 0xf0 ≤ n ∧ n < 0xf8 then some (3, n - 0xf0, 0x10000)
  else none

/-- The first character of a string that starts with a byte outside ASCII, and the
number of bytes after the first. -/
def wideRune (b : UInt8) (rest : List UInt8) : Option (Char × ℕ) := do
  let (tail, bits, least) ← leadByte b
  let following := rest.take tail
  let code := following.foldl (fun code byte => code * 64 + (byte.toNat - 0x80)) bits
  if following.length = tail ∧ (∀ byte ∈ following, 0x80 ≤ byte.toNat ∧ byte.toNat < 0xc0) ∧
      least ≤ code ∧ code.isValidChar then
    some (Char.ofNat code, tail)
  else none

/-- The bytes of a string as runes, at most so many. -/
def runesUpTo : ℕ → List UInt8 → GoString
  | 0, _ => []
  | _ + 1, [] => []
  | fuel + 1, b :: rest =>
      if b.toNat < 0x80 then .char (Char.ofNat b.toNat) :: runesUpTo fuel rest
      else
        match wideRune b rest with
        | some (c, tail) => .char c :: runesUpTo fuel (rest.drop tail)
        | none => .byte b :: runesUpTo fuel rest

/-- `string(decoded)`. -/
def runes (bytes : List UInt8) : GoString := runesUpTo bytes.length bytes

/-- `strings.SplitN(text, ":", 2)` with two parts. -/
def splitColon (text : GoString) : Option (GoString × GoString) :=
  if Rune.char ':' ∈ text then
    some (text.takeWhile (· ≠ .char ':'), (text.dropWhile (· ≠ .char ':')).tail)
  else none

/-- The user name and the password of the header, once it starts with `Basic `. -/
def basicCredentials (authHeader : GoString) : Option (GoString × GoString) := do
  let decoded ← decodeString (authHeader.drop 6)
  splitColon (runes decoded)

/-! ## LLDAP -/

/-- LLDAP as the proxy sees it. -/
structure Lldap where
  /-- The account whose DN this is. -/
  uidOf : GoString → Option GoString
  dials : Bool
  accepts : GoString → GoString → Bool
  /-- The names of the groups of an account. -/
  groupsOf : GoString → List GoString
  /-- The step at which the group lookup of this request fails. -/
  lookup : Option LookupFault

/-- The answer to a search for `(member=<DN>)` below `ou=groups`. -/
def Lldap.memberGroups (lldap : Lldap) (dn : GoString) : List GoString :=
  match lldap.uidOf dn with
  | some uid => lldap.groupsOf uid
  | none => []

/-! ## The endpoint -/

variable (unicode : Unicode) (baseDN : GoString)

/-- `fmt.Sprintf("uid=%s,ou=people,%s", username, baseDN)`. -/
def userDN (username : GoString) : GoString :=
  lit "uid=" ++ username ++ lit ",ou=people," ++ baseDN

/-- `fetchUserGroups`; `EscapeFilter` makes the filter mean the DN itself. -/
def fetchUserGroups (lldap : Lldap) (username : GoString) :
    Except LookupFault (List GoString) :=
  match lldap.lookup with
  | some fault => .error fault
  | none => .ok (lldap.memberGroups (userDN baseDN username))

/-- `strings.Join(groups, ",")`. -/
def joinGroups (groups : List GoString) : GoString := (lit ",").intercalate groups

/-- The answers of the endpoint: a 401 comes with a failure recorded by the limiter. -/
inductive Answer where
  | badRequest
  | unauthorized
  | internalError
  | ok (remoteUser remoteGroups : GoString)
  deriving DecidableEq, Repr

def backend (lldap : Lldap) (verify : GoString → GoString → Bool) : Backend :=
  ⟨verify, lldap.dials, lldap.accepts⟩

/-- `HandleVerify`. -/
def handleVerify (lldap : Lldap) (verify : GoString → GoString → Bool)
    (authHeader : GoString) : Answer :=
  if authHeader = [] ∨ ¬ lit "Basic " <+: authHeader then .unauthorized
  else
    match basicCredentials authHeader with
    | none => .badRequest
    | some (username, password) =>
        let bindDN := userDN baseDN username
        match handleBind unicode baseDN (backend lldap verify) bindDN password with
        | .error .connect => .internalError
        | .ok none => .unauthorized
        | .ok (some _) =>
            match fetchUserGroups baseDN lldap username with
            | .error _ => .ok username (joinGroups [])
            | .ok groups => .ok username (joinGroups groups)

/-! ## Names of accounts -/

/-- The case of a character does not matter; a stray byte is equal to itself only. -/
def Rune.fold : Rune → Rune
  | .char c => .char (unicode.toLower c)
  | .byte b => .byte b

def Rune.isSpace : Rune → Bool
  | .char c => unicode.isSpace c
  | .byte _ => false

def trimSpace (text : GoString) : GoString :=
  (text.dropWhile (Rune.isSpace unicode)).rdropWhile (Rune.isSpace unicode)

/-- Equality of uid values: case and blanks around them do not count. -/
def SameUid (left right : GoString) : Prop :=
  trimSpace unicode (left.map (Rune.fold unicode)) =
    trimSpace unicode (right.map (Rune.fold unicode))

instance (left right : GoString) : Decidable (SameUid unicode left right) :=
  inferInstanceAs (Decidable (_ = _))

/-- How LLDAP reads the DNs that the proxy makes: commas separate components, and only
the entries directly below `ou=people` are accounts. -/
structure Lldap.Reads (lldap : Lldap) : Prop where
  accepts_account : ∀ dn password, lldap.accepts dn password → (lldap.uidOf dn).isSome
  plain : ∀ username uid, Rune.char ',' ∉ username →
    lldap.uidOf (userDN baseDN username) = some uid → SameUid unicode username uid
  comma : ∀ username, Rune.char ',' ∈ username →
    lldap.uidOf (userDN baseDN username) = none
  groups_same : ∀ left right, SameUid unicode left right →
    lldap.groupsOf left = lldap.groupsOf right
  groups_absent : ∀ username, Rune.char ',' ∉ username →
    lldap.uidOf (userDN baseDN username) = none → lldap.groupsOf username = []

/-- The account whose token or password was checked. -/
def Lldap.principal (lldap : Lldap) : Checked → Option GoString
  | .token username _ => some username
  | .password bindDN _ => lldap.uidOf bindDN

variable {unicode baseDN}

/-! ## What the token store is asked for -/

theorem extractUsername_userDN (username : GoString) :
    extractUsername unicode (userDN baseDN username) baseDN =
      toLower unicode (username.takeWhile fun rune => !(rune == Rune.char ',')) := by
  have hdn : userDN baseDN username =
      lit "uid=" ++ username ++ Rune.char ',' :: (lit "ou=people" ++ Rune.char ',' :: baseDN) := by
    simp [userDN, lit]
  rw [hdn, extractUsername_append]

/-- A user name that can stand for itself: no separator and no stray byte. -/
structure Plain (username : GoString) : Prop where
  comma : Rune.char ',' ∉ username
  bytes : ∀ b, Rune.byte b ∉ username

theorem takeWhile_of_comma_not_mem {username : GoString} (hcomma : Rune.char ',' ∉ username) :
    (username.takeWhile fun rune => !(rune == Rune.char ',')) = username := by
  rw [List.takeWhile_eq_self_iff]
  intro rune hrune
  have hne : rune ≠ Rune.char ',' := fun h => hcomma (h ▸ hrune)
  simpa using hne

theorem fold_lower_of_not_byte {rune : Rune} (hrune : ∀ b, rune ≠ Rune.byte b) :
    Rune.fold unicode (rune.lower unicode) = Rune.fold unicode rune := by
  cases rune with
  | char c => rw [Rune.lower, Rune.fold, Rune.fold, unicode.idem]
  | byte b => exact absurd rfl (hrune b)

theorem mem_trimSpace {text : GoString} {rune : Rune} (hrune : rune ∈ text)
    (hspace : Rune.isSpace unicode rune = false) : rune ∈ trimSpace unicode text := by
  have hleft : rune ∈ text.dropWhile (Rune.isSpace unicode) := by
    have hsplit : rune ∈ text.takeWhile (Rune.isSpace unicode) ++
        text.dropWhile (Rune.isSpace unicode) := by rwa [List.takeWhile_append_dropWhile]
    rcases List.mem_append.mp hsplit with hdropped | hkept
    · have := List.mem_takeWhile_imp hdropped
      rw [hspace] at this
      cases this
    · exact hkept
  have hsplit : rune ∈ (text.dropWhile (Rune.isSpace unicode)).rdropWhile
      (Rune.isSpace unicode) ++ (text.dropWhile (Rune.isSpace unicode)).rtakeWhile
      (Rune.isSpace unicode) := by
    rwa [List.rdropWhile_append_rtakeWhile]
  rcases List.mem_append.mp hsplit with hkept | hdropped
  · exact hkept
  · have := List.mem_rtakeWhile_imp hdropped
    rw [hspace] at this
    cases this

theorem mem_of_mem_trimSpace {text : GoString} {rune : Rune}
    (hrune : rune ∈ trimSpace unicode text) : rune ∈ text :=
  (List.dropWhile_suffix _).subset ((List.rdropWhile_prefix _ _).subset hrune)

/-- The name that the store is asked for denotes the account that the client named
exactly when the client's name is plain. -/
theorem sameUid_extractUsername_iff (username : GoString) :
    SameUid unicode username (extractUsername unicode (userDN baseDN username) baseDN) ↔
      Plain username := by
  rw [extractUsername_userDN]
  constructor
  · intro hsame
    have hmem : ∀ rune ∈ username, Rune.isSpace unicode (Rune.fold unicode rune) = false →
        ∃ kept ∈ username.takeWhile (fun rune => !(rune == Rune.char ',')),
          Rune.fold unicode (kept.lower unicode) = Rune.fold unicode rune := by
      intro rune hrune hspace
      have hleft := mem_trimSpace (List.mem_map_of_mem hrune) hspace
      rw [hsame] at hleft
      obtain ⟨lowered, hlowered, hfold⟩ := List.mem_map.mp (mem_of_mem_trimSpace hleft)
      obtain ⟨kept, hkept, rfl⟩ := List.mem_map.mp hlowered
      exact ⟨kept, hkept, hfold⟩
    constructor
    · intro hcomma
      have hfold : Rune.fold unicode (Rune.char ',') = Rune.char ',' := lower_comma unicode
      obtain ⟨kept, hkept, heq⟩ := hmem _ hcomma (by
        rw [hfold]
        exact unicode.comma_not_space)
      have hne := List.mem_takeWhile_imp hkept
      simp only [Bool.not_eq_true', beq_eq_false_iff_ne] at hne
      rw [hfold] at heq
      cases kept with
      | char c =>
          rw [Rune.lower, Rune.fold, Rune.char.injEq, unicode.idem] at heq
          exact hne (by rw [unicode.comma c heq])
      | byte b =>
          rw [Rune.lower, Rune.fold, Rune.char.injEq] at heq
          exact absurd (unicode.comma _ heq) (by decide)
    · intro b hbyte
      obtain ⟨kept, -, heq⟩ := hmem _ hbyte rfl
      cases kept with
      | char c => cases heq
      | byte c => cases heq
  · rintro ⟨hcomma, hbytes⟩
    rw [takeWhile_of_comma_not_mem hcomma, SameUid, toLower, List.map_map]
    congr 1
    refine List.map_congr_left fun rune hrune => ?_
    exact (fold_lower_of_not_byte fun b h => hbytes b (h ▸ hrune)).symm

/-! ## Asserted and verified identity -/

/-- The answer names the account that was checked, and gives that account's groups. -/
def AssertsVerified (unicode : Unicode) (baseDN : GoString) (lldap : Lldap)
    (verify : GoString → GoString → Bool) (username password remoteUser remoteGroups : GoString) :
    Prop :=
  ∃ checked principal,
    handleBind unicode baseDN (backend lldap verify) (userDN baseDN username) password =
        .ok (some checked) ∧
      lldap.principal checked = some principal ∧
      SameUid unicode remoteUser principal ∧
      remoteGroups = joinGroups (lldap.groupsOf principal)

/-- The bind succeeds by a token. -/
def TokenVouches (unicode : Unicode) (baseDN : GoString)
    (verify : GoString → GoString → Bool) (username password : GoString) : Prop :=
  let name := extractUsername unicode (userDN baseDN username) baseDN
  name ≠ [] ∧ password ≠ [] ∧ verify name password

theorem handleVerify_eq_ok {lldap : Lldap} {verify : GoString → GoString → Bool}
    {authHeader remoteUser remoteGroups : GoString}
    (hanswer : handleVerify unicode baseDN lldap verify authHeader =
      .ok remoteUser remoteGroups) :
    ∃ password checked, basicCredentials authHeader = some (remoteUser, password) ∧
      handleBind unicode baseDN (backend lldap verify) (userDN baseDN remoteUser) password =
        .ok (some checked) ∧
      remoteGroups = joinGroups
        (if lldap.lookup = none then lldap.memberGroups (userDN baseDN remoteUser) else []) := by
  unfold handleVerify at hanswer
  split_ifs at hanswer
  cases hcredentials : basicCredentials authHeader with
  | none => simp [hcredentials] at hanswer
  | some credentials =>
      obtain ⟨username, password⟩ := credentials
      simp only [hcredentials] at hanswer
      cases hbind : handleBind unicode baseDN (backend lldap verify)
          (userDN baseDN username) password with
      | error fault => simp [hbind] at hanswer
      | ok result =>
          cases result with
          | none => simp [hbind] at hanswer
          | some checked =>
              simp only [hbind] at hanswer
              unfold fetchUserGroups at hanswer
              cases hlookup : lldap.lookup with
              | none =>
                  simp only [hlookup, Answer.ok.injEq] at hanswer
                  obtain ⟨rfl, rfl⟩ := hanswer
                  exact ⟨password, checked, rfl, hbind, rfl⟩
              | some fault =>
                  simp only [hlookup, Answer.ok.injEq] at hanswer
                  obtain ⟨rfl, rfl⟩ := hanswer
                  exact ⟨password, checked, rfl, hbind, rfl⟩

/-- What LLDAP lists for the DN of a name without a comma are the groups of that name. -/
theorem memberGroups_userDN {lldap : Lldap} (hreads : lldap.Reads unicode baseDN)
    {username : GoString} (hcomma : Rune.char ',' ∉ username) :
    lldap.memberGroups (userDN baseDN username) = lldap.groupsOf username := by
  unfold Lldap.memberGroups
  cases huid : lldap.uidOf (userDN baseDN username) with
  | none => exact (hreads.groups_absent username hcomma huid).symm
  | some uid => exact (hreads.groups_same _ _ (hreads.plain username uid hcomma huid)).symm

theorem handleBind_of_tokenVouches {lldap : Lldap} {verify : GoString → GoString → Bool}
    {username password : GoString}
    (htoken : TokenVouches unicode baseDN verify username password) :
    handleBind unicode baseDN (backend lldap verify) (userDN baseDN username) password =
      .ok (some (.token (extractUsername unicode (userDN baseDN username) baseDN)
        password)) := by
  unfold handleBind
  exact if_pos htoken

/-- **When the asserted identity is the verified one.**  For every header that is
answered with 200: if a token vouched, exactly when the client's name is plain, and in any
case only if a failed group lookup hides no groups. -/
theorem asserted_identity_iff (unicode : Unicode) (baseDN : GoString) (lldap : Lldap)
    (verify : GoString → GoString → Bool) (hreads : lldap.Reads unicode baseDN)
    (authHeader : GoString) {username password remoteUser remoteGroups : GoString}
    (hcredentials : basicCredentials authHeader = some (username, password))
    (hanswer : handleVerify unicode baseDN lldap verify authHeader =
      .ok remoteUser remoteGroups) :
    AssertsVerified unicode baseDN lldap verify username password remoteUser remoteGroups ↔
      (TokenVouches unicode baseDN verify username password → Plain username) ∧
        (lldap.lookup ≠ none → joinGroups (lldap.groupsOf username) = joinGroups []) := by
  obtain ⟨password', checked, hsame, hbind, hgroups⟩ := handleVerify_eq_ok hanswer
  rw [hcredentials, Option.some.injEq, Prod.mk.injEq] at hsame
  obtain ⟨rfl, rfl⟩ := hsame
  have hchecked : AssertsVerified unicode baseDN lldap verify username password username
      remoteGroups ↔ ∃ principal, lldap.principal checked = some principal ∧
        SameUid unicode username principal ∧
        remoteGroups = joinGroups (lldap.groupsOf principal) := by
    unfold AssertsVerified
    rw [hbind]
    constructor
    · rintro ⟨checked', principal, heq, hprincipal⟩
      cases heq
      exact ⟨principal, hprincipal⟩
    · rintro ⟨principal, hprincipal⟩
      exact ⟨checked, principal, rfl, hprincipal⟩
  rw [hchecked]
  -- For a name that the principal shares, only the lookup decides about the groups.
  have hjoined : ∀ principal, Rune.char ',' ∉ username → SameUid unicode username principal →
      (remoteGroups = joinGroups (lldap.groupsOf principal) ↔
        (lldap.lookup ≠ none → joinGroups (lldap.groupsOf username) = joinGroups [])) := by
    intro principal hcomma hsame
    rw [hgroups, ← hreads.groups_same _ _ hsame]
    by_cases hlookup : lldap.lookup = none
    · simp [hlookup, memberGroups_userDN hreads hcomma]
    · simp [hlookup, eq_comm]
  rcases handleBind_eq_some hbind with
    ⟨name, rfl, hname, hpassword, hverify, rfl⟩ | ⟨-, haccepts, rfl⟩
  · have htoken : TokenVouches unicode baseDN verify username password :=
      ⟨hname, hpassword, hverify⟩
    have hplain : SameUid unicode username
        (extractUsername unicode (userDN baseDN username) baseDN) ↔ Plain username :=
      sameUid_extractUsername_iff username
    simp only [Lldap.principal, Option.some.injEq, exists_eq_left']
    rw [hplain]
    constructor
    · rintro ⟨hname, hremote⟩
      exact ⟨fun _ => hname, (hjoined _ hname.comma (hplain.mpr hname)).mp hremote⟩
    · rintro ⟨hname, hlookup⟩
      have hname := hname htoken
      exact ⟨hname, (hjoined _ hname.comma (hplain.mpr hname)).mpr hlookup⟩
  · have haccount := hreads.accepts_account _ _ haccepts
    obtain ⟨uid, huid⟩ := Option.isSome_iff_exists.mp haccount
    have hcomma : Rune.char ',' ∉ username := by
      intro hcomma
      rw [hreads.comma username hcomma] at huid
      cases huid
    have hsame := hreads.plain username uid hcomma huid
    have htoken : ¬ TokenVouches unicode baseDN verify username password := by
      intro htoken
      rw [handleBind_of_tokenVouches htoken] at hbind
      cases hbind
    constructor
    · rintro ⟨principal, hprincipal, hnamed, hremote⟩
      exact ⟨fun h => absurd h htoken, (hjoined principal hcomma hnamed).mp hremote⟩
    · rintro ⟨-, hlookup⟩
      exact ⟨uid, huid, hsame, (hjoined uid hcomma hsame).mpr hlookup⟩

/-! ## A comma in the user name -/

/-- The name between the fixed parts of a DN that the proxy made. -/
def nameIn (baseDN dn : GoString) : GoString :=
  (dn.drop 4).rdrop (lit ",ou=people," ++ baseDN).length

theorem nameIn_userDN (username : GoString) :
    nameIn baseDN (userDN baseDN username) = username := by
  have hdn : userDN baseDN username =
      lit "uid=" ++ (username ++ (lit ",ou=people," ++ baseDN)) := by
    simp [userDN]
  rw [nameIn, hdn]
  change (username ++ (lit ",ou=people," ++ baseDN)).rdrop _ = username
  exact List.rdrop_append_length

/-- An LLDAP with the single account `alice`, which is in one group. -/
def smallLldap : Lldap where
  uidOf := fun dn =>
    let username := nameIn (lit "dc=takldap") dn
    if dn = userDN (lit "dc=takldap") username ∧ Rune.char ',' ∉ username ∧
        SameUid asciiTable username (lit "alice") then
      some (lit "alice")
    else none
  dials := true
  accepts := fun _ _ => false
  groupsOf := fun uid =>
    if SameUid asciiTable uid (lit "alice") then [lit "tak_ops"] else []
  lookup := none

theorem smallLldap_reads : smallLldap.Reads asciiTable (lit "dc=takldap") where
  accepts_account := fun dn password h => by cases h
  plain := by
    intro username uid hcomma huid
    simp only [smallLldap, nameIn_userDN, true_and] at huid
    split_ifs at huid with hsame
    rw [Option.some.injEq] at huid
    exact huid ▸ hsame.2
  comma := by
    intro username hcomma
    simp [smallLldap, nameIn_userDN, hcomma]
  groups_same := by
    intro left right hsame
    have hiff : SameUid asciiTable left (lit "alice") ↔
        SameUid asciiTable right (lit "alice") := by
      unfold SameUid at *
      rw [hsame]
    simp only [smallLldap, hiff]
  groups_absent := by
    intro username hcomma huid
    simp only [smallLldap, nameIn_userDN, true_and, hcomma, not_false_eq_true] at huid ⊢
    split_ifs at huid with hsame
    rw [if_neg hsame]

/-- A token of `alice`. -/
def aliceToken (username password : GoString) : Bool :=
  username = lit "alice" && password = lit "tok"

/-- `Basic alice,x:tok`: the token of `alice` makes the endpoint assert the user
`alice,x`. -/
theorem asserts_other_at_comma :
    handleVerify asciiTable (lit "dc=takldap") smallLldap aliceToken
        (lit "Basic YWxpY2UseDp0b2s=") = .ok (lit "alice,x") [] ∧
      handleBind asciiTable (lit "dc=takldap") (backend smallLldap aliceToken)
        (userDN (lit "dc=takldap") (lit "alice,x")) (lit "tok") =
          .ok (some (.token (lit "alice") (lit "tok"))) ∧
      ¬ AssertsVerified asciiTable (lit "dc=takldap") smallLldap aliceToken
        (lit "alice,x") (lit "tok") (lit "alice,x") [] := by
  have hbind : handleBind asciiTable (lit "dc=takldap") (backend smallLldap aliceToken)
      (userDN (lit "dc=takldap") (lit "alice,x")) (lit "tok") =
        .ok (some (.token (lit "alice") (lit "tok"))) := by decide +kernel
  refine ⟨by decide +kernel, hbind, ?_⟩
  rintro ⟨checked, principal, hchecked, hprincipal, hsame, -⟩
  rw [hbind] at hchecked
  cases hchecked
  cases hprincipal
  exact absurd hsame (by decide +kernel)

/-- The token of `alice` under the name `Alice` asserts that account and its groups. -/
theorem asserted_identity_alice :
    AssertsVerified asciiTable (lit "dc=takldap") smallLldap aliceToken
      (lit "Alice") (lit "tok") (lit "Alice") (lit "tak_ops") :=
  (asserted_identity_iff asciiTable (lit "dc=takldap") smallLldap aliceToken
    smallLldap_reads (lit "Basic QWxpY2U6dG9r")
    (by decide +kernel) (by decide +kernel)).mpr
    ⟨fun _ => ⟨by decide, by intro b; simp [lit]⟩, fun h => absurd rfl h⟩

end FastTAK.Verify
