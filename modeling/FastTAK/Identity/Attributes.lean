import FastTAK.Base.Text

/-!
# Custom attributes of an account

LLDAP keeps a list of texts for each attribute of an account.  The monitor reads
four attributes of its own into integers, truth values and a text, and writes
them back as texts.
-/

namespace FastTAK.Identity

open FastTAK.Text

/-! ## Integers as texts -/

/-- The digits of an integer literal, which single underscores may separate. -/
def pyDigits : List Char → Option (List Char)
  | [] => none
  | [c] => if c.isDigit then some [c] else none
  | c :: '_' :: rest => if c.isDigit then (pyDigits rest).map (c :: ·) else none
  | c :: rest => if c.isDigit then (pyDigits rest).map (c :: ·) else none

def pyNat (text : List Char) : Option ℕ :=
  (pyDigits text).map fun digits => Nat.ofDigitChars 10 digits 0

/-- `int(text)` on decimal digits; `none` is a `ValueError`. -/
def pyInt (text : String) : Option ℤ :=
  match strip text.toList with
  | '-' :: digits => (pyNat digits).map fun n : ℕ => -(n : ℤ)
  | '+' :: digits => (pyNat digits).map Int.ofNat
  | digits => (pyNat digits).map Int.ofNat

theorem pyDigits_of_isDigit {digits : List Char} (hne : digits ≠ [])
    (hdigits : ∀ c ∈ digits, c.isDigit) : pyDigits digits = some digits := by
  induction digits with
  | nil => exact absurd rfl hne
  | cons c rest ih =>
      have hc : c.isDigit := hdigits c (by simp)
      cases rest with
      | nil => simp [pyDigits, hc]
      | cons d rest =>
          have hd : d ≠ '_' := by
            rintro rfl
            exact absurd (hdigits '_' (by simp)) (by decide)
          have hrest := ih (by simp) fun c' hc' => hdigits c' (by simp [hc'])
          rw [pyDigits, if_pos hc, hrest, Option.map_some]
          · exact fun h => List.cons_ne_nil _ _ h
          · exact fun _ h => hd (List.cons.inj h).1

/-- A text of digits is neither stripped nor taken for a signed one. -/
theorem isDigit_plain {c : Char} (hc : c.isDigit) :
    ¬ isBlank c ∧ c ≠ '-' ∧ c ≠ '+' := by
  have hrange : 48 ≤ c.toNat ∧ c.toNat ≤ 57 := by
    simp only [Char.isDigit, Bool.and_eq_true, decide_eq_true_eq, ge_iff_le,
      UInt32.le_iff_toNat_le] at hc
    have hval : c.val.toNat = c.toNat := rfl
    simp_all
  refine ⟨?_, ?_, ?_⟩
  · simp only [isBlank, Bool.or_eq_true, Bool.and_eq_true, decide_eq_true_eq,
      beq_iff_eq]
    omega
  · rintro rfl
    simp at hrange
  · rintro rfl
    simp at hrange

theorem toDigits_isDigit (n : ℕ) : ∀ c ∈ Nat.toDigits 10 n, c.isDigit :=
  fun _ hc => Nat.isDigit_of_mem_toDigits (by decide) (by decide) hc

theorem toDigits_ne_nil (n : ℕ) : Nat.toDigits 10 n ≠ [] := by
  have hlength : 0 < (Nat.toDigits 10 n).length := Nat.length_toDigits_pos
  exact List.ne_nil_of_length_pos hlength

theorem pyNat_toDigits (n : ℕ) : pyNat (Nat.toDigits 10 n) = some n := by
  rw [pyNat, pyDigits_of_isDigit (toDigits_ne_nil n) (toDigits_isDigit n),
    Option.map_some, Nat.ofDigitChars_ten_toDigits]

theorem strip_toDigits (n : ℕ) : strip (Nat.toDigits 10 n) = Nat.toDigits 10 n := by
  rw [strip_eq_self_iff]
  constructor
  · intro c hc
    exact (isDigit_plain (toDigits_isDigit n c (List.mem_of_mem_head? hc))).1
  · intro c hc
    exact (isDigit_plain (toDigits_isDigit n c (List.mem_of_getLast? hc))).1

theorem pyInt_natCast (n : ℕ) : pyInt (Nat.repr n) = some (n : ℤ) := by
  have htext : (Nat.repr n).toList = Nat.toDigits 10 n := by
    rw [Nat.repr, String.toList_ofList]
  rw [pyInt, htext, strip_toDigits]
  cases hdigits : Nat.toDigits 10 n with
  | nil => exact absurd hdigits (toDigits_ne_nil n)
  | cons c rest =>
      obtain ⟨-, hminus, hplus⟩ := isDigit_plain
        (toDigits_isDigit n c (by rw [hdigits]; simp))
      have hparsed := pyNat_toDigits n
      rw [hdigits] at hparsed
      split
      · next h => exact absurd (List.cons.inj h).1 hminus
      · next h => exact absurd (List.cons.inj h).1 hplus
      · rw [hparsed]
        rfl

/-- `int(str(n)) == n`. -/
theorem pyInt_toString (n : ℤ) : pyInt (toString n) = some n := by
  rw [Int.toString_eq_repr, Int.repr_eq_if]
  split_ifs with hsign
  · rw [pyInt_natCast, Int.toNat_of_nonneg hsign]
  · have htext : ("-" ++ (-n).toNat.repr).toList =
        '-' :: Nat.toDigits 10 (-n).toNat := by
      rw [String.toList_append, Nat.repr, String.toList_ofList]
      simp
    have hstrip : strip ('-' :: Nat.toDigits 10 (-n).toNat) =
        '-' :: Nat.toDigits 10 (-n).toNat := by
      rw [strip_eq_self_iff]
      constructor
      · rintro c ⟨⟩
        decide
      · intro c hc
        rw [List.getLast?_cons_of_ne_nil (toDigits_ne_nil _)] at hc
        exact (isDigit_plain (toDigits_isDigit _ c (List.mem_of_getLast? hc))).1
    have hback : -(((-n).toNat : ℕ) : ℤ) = n := by omega
    rw [pyInt, htext, hstrip]
    simp only [pyNat_toDigits, Option.map_some, hback]

/-! ## The attributes of the monitor -/

/-- The stored attributes of an account: a list of texts for each name. -/
abbrev Stored := AList fun _ : String => List String

/-- The dictionary `_parse_attributes` returns; a missing key is `none`. -/
structure Attributes where
  expires : Option ℤ
  certsRevoked : Option Bool
  isActive : Option Bool
  userType : Option String
  deriving DecidableEq, Repr

def Attributes.none : Attributes := ⟨Option.none, Option.none, Option.none, Option.none⟩

/-- `values[0]`, if there are values. -/
def firstValue (stored : Stored) (name : String) : Option String :=
  (stored.lookup name).bind List.head?

/-- `_parse_attributes`. -/
def parseAttributes (stored : Stored) : Attributes where
  expires := (firstValue stored "fastak_expires").bind pyInt
  certsRevoked := (firstValue stored "fastak_certs_revoked").map fun text =>
    text.toLower == "true"
  isActive := (firstValue stored "is_active").map fun text =>
    text.toLower != "false"
  userType := firstValue stored "fastak_user_type"

/-- `str(value).lower()` of a truth value. -/
def boolText (value : Bool) : String := if value then "true" else "false"

/-- `_build_custom_attributes`. -/
def buildCustomAttributes (attrs : Attributes) : List (String × List String) :=
  (attrs.certsRevoked.map fun b => ("fastak_certs_revoked", [boolText b])).toList ++
    (attrs.expires.map fun n => ("fastak_expires", [toString n])).toList ++
    (attrs.isActive.map fun b => ("is_active", [boolText b])).toList ++
    (attrs.userType.map fun t => ("fastak_user_type", [t])).toList

/-- `insertAttributes` of a mutation: each name given gets the values given; an
empty list clears it. -/
def insertAttributes (stored : Stored) : List (String × List String) → Stored
  | [] => stored
  | (name, values) :: rest =>
      insertAttributes (if values = [] then stored.erase name
        else stored.insert name values) rest

theorem firstValue_insertAttributes_of_notMem (stored : Stored)
    {inserted : List (String × List String)} {name : String}
    (hname : name ∉ inserted.map Prod.fst) :
    firstValue (insertAttributes stored inserted) name = firstValue stored name := by
  induction inserted generalizing stored with
  | nil => rfl
  | cons entry rest ih =>
      obtain ⟨other, values⟩ := entry
      simp only [List.map_cons, List.mem_cons, not_or] at hname
      rw [insertAttributes, ih _ hname.2]
      split_ifs
      · rw [firstValue, firstValue, AList.lookup_erase_ne hname.1]
      · rw [firstValue, firstValue, AList.lookup_insert_ne hname.1]

theorem firstValue_insertAttributes_of_mem (stored : Stored)
    {inserted : List (String × List String)} {name : String} {values : List String}
    (hnodup : (inserted.map Prod.fst).Nodup) (hmem : (name, values) ∈ inserted) :
    firstValue (insertAttributes stored inserted) name = values.head? := by
  induction inserted generalizing stored with
  | nil => cases hmem
  | cons entry rest ih =>
      rw [List.map_cons, List.nodup_cons] at hnodup
      rcases List.mem_cons.mp hmem with rfl | hmem
      · rw [insertAttributes, firstValue_insertAttributes_of_notMem _ hnodup.1]
        split_ifs with hempty
        · rw [firstValue, AList.lookup_erase, hempty]
          rfl
        · rw [firstValue, AList.lookup_insert]
          rfl
      · exact ih _ hnodup.2 hmem

/-! ## Sending the same attributes twice -/

theorem insertAttributes_append (stored : Stored) (first second : List (String × List String)) :
    insertAttributes stored (first ++ second) =
      insertAttributes (insertAttributes stored first) second := by
  induction first generalizing stored with
  | nil => rfl
  | cons entry rest ih =>
      rw [List.cons_append, insertAttributes, insertAttributes, ih]

theorem erase_erase_self (stored : Stored) (name : String) :
    (stored.erase name).erase name = stored.erase name := by
  apply AList.ext
  exact List.kerase_of_notMem_keys (List.notMem_keys_kerase name stored.nodupKeys)

theorem erase_insert_self (stored : Stored) (name : String) (values : List String) :
    (stored.insert name values).erase name = stored.erase name := by
  apply AList.ext
  change List.kerase name (List.kinsert name values stored.entries) = _
  rw [List.kinsert_def]
  exact List.kerase_cons_eq rfl

theorem erase_insert_of_ne (stored : Stored) {name other : String} (hne : name ≠ other)
    (values : List String) :
    (stored.insert other values).erase name = (stored.erase name).insert other values := by
  apply AList.ext
  change List.kerase name (List.kinsert other values stored.entries) =
    List.kinsert other values (List.kerase name stored.entries)
  rw [List.kinsert_def, List.kinsert_def, List.kerase_cons_ne hne, List.kerase_comm]

theorem insert_erase_self (stored : Stored) (name : String) (values : List String) :
    (stored.erase name).insert name values = stored.insert name values := by
  apply AList.ext
  change List.kinsert name values (stored.erase name).entries = List.kinsert name values _
  rw [List.kinsert_def, List.kinsert_def]
  congr 1
  exact congrArg AList.entries (erase_erase_self stored name)

theorem erase_insertAttributes (stored : Stored) {inserted : List (String × List String)}
    {name : String} (hname : name ∉ inserted.map Prod.fst) :
    (insertAttributes stored inserted).erase name =
      insertAttributes (stored.erase name) inserted := by
  induction inserted generalizing stored with
  | nil => rfl
  | cons entry rest ih =>
      obtain ⟨other, values⟩ := entry
      simp only [List.map_cons, List.mem_cons, not_or] at hname
      rw [insertAttributes, insertAttributes, ih _ hname.2]
      congr 1
      split_ifs
      · exact AList.erase_erase _ _ _
      · exact erase_insert_of_ne stored hname.1 values

/-- Only the other names of what is stored matter to an insertion. -/
theorem insertAttributes_erase_singleton (stored : Stored) (name : String)
    (values : List String) :
    insertAttributes (stored.erase name) [(name, values)] =
      insertAttributes stored [(name, values)] := by
  simp only [insertAttributes]
  split_ifs
  · exact erase_erase_self stored name
  · exact insert_erase_self stored name values

theorem erase_insertAttributes_singleton (stored : Stored) (name : String)
    (values : List String) :
    (insertAttributes stored [(name, values)]).erase name = stored.erase name := by
  simp only [insertAttributes]
  split_ifs
  · exact erase_erase_self stored name
  · exact erase_insert_self stored name values

/-- Attributes with different names are inserted the second time without effect. -/
theorem insertAttributes_twice (stored : Stored) {inserted : List (String × List String)}
    (hnodup : (inserted.map Prod.fst).Nodup) :
    insertAttributes (insertAttributes stored inserted) inserted =
      insertAttributes stored inserted := by
  induction inserted using List.reverseRecOn with
  | nil => rfl
  | append_singleton front entry ih =>
      obtain ⟨name, values⟩ := entry
      rw [List.map_append, List.nodup_append'] at hnodup
      obtain ⟨hfront, -, hdisjoint⟩ := hnodup
      have hname : name ∉ front.map Prod.fst := fun h => hdisjoint h (by simp)
      have hih := ih hfront
      simp only [insertAttributes_append]
      set X := insertAttributes stored front
      calc
        insertAttributes (insertAttributes (insertAttributes X [(name, values)]) front)
            [(name, values)]
          = insertAttributes ((insertAttributes (insertAttributes X [(name, values)])
              front).erase name) [(name, values)] :=
            (insertAttributes_erase_singleton _ name values).symm
        _ = insertAttributes ((insertAttributes X front).erase name) [(name, values)] := by
            rw [erase_insertAttributes _ hname, erase_insertAttributes_singleton,
              ← erase_insertAttributes _ hname]
        _ = insertAttributes X [(name, values)] := by
            rw [insertAttributes_erase_singleton, hih]

theorem nodup_buildCustomAttributes (attrs : Attributes) :
    ((buildCustomAttributes attrs).map Prod.fst).Nodup := by
  obtain ⟨expires, certsRevoked, isActive, userType⟩ := attrs
  cases expires <;> cases certsRevoked <;> cases isActive <;> cases userType <;>
    simp [buildCustomAttributes]

/-! ## Reading back -/

/-- The attributes given, over those there are. -/
def Attributes.over (attrs existing : Attributes) : Attributes where
  expires := attrs.expires.or existing.expires
  certsRevoked := attrs.certsRevoked.or existing.certsRevoked
  isActive := attrs.isActive.or existing.isActive
  userType := attrs.userType.or existing.userType

theorem boolText_toLower_eq_true (value : Bool) :
    ((boolText value).toLower == "true") = value := by
  cases value <;> decide +kernel

theorem boolText_toLower_ne_false (value : Bool) :
    ((boolText value).toLower != "false") = value := by
  cases value <;> decide +kernel

/-- What is sent is read back; what is not sent is left alone. -/
theorem parseAttributes_insert_build (stored : Stored) (attrs : Attributes) :
    parseAttributes (insertAttributes stored (buildCustomAttributes attrs)) =
      attrs.over (parseAttributes stored) := by
  have hnodup := nodup_buildCustomAttributes attrs
  have hvalue : ∀ name value, (name, [value]) ∈ buildCustomAttributes attrs →
      firstValue (insertAttributes stored (buildCustomAttributes attrs)) name = some value :=
    fun name value h => firstValue_insertAttributes_of_mem stored hnodup h
  have hother : ∀ name, name ∉ (buildCustomAttributes attrs).map Prod.fst →
      firstValue (insertAttributes stored (buildCustomAttributes attrs)) name =
        firstValue stored name :=
    fun name h => firstValue_insertAttributes_of_notMem stored h
  obtain ⟨expires, certsRevoked, isActive, userType⟩ := attrs
  simp only [parseAttributes, Attributes.over, Attributes.mk.injEq]
  refine ⟨?_, ?_, ?_, ?_⟩
  · cases expires with
    | none => rw [hother _ (by simp [buildCustomAttributes]), Option.none_or]
    | some n =>
        rw [hvalue "fastak_expires" (toString n) (by simp [buildCustomAttributes])]
        exact pyInt_toString n
  · cases certsRevoked with
    | none => rw [hother _ (by simp [buildCustomAttributes]), Option.none_or]
    | some b =>
        rw [hvalue "fastak_certs_revoked" (boolText b) (by simp [buildCustomAttributes])]
        exact congrArg some (boolText_toLower_eq_true b)
  · cases isActive with
    | none => rw [hother _ (by simp [buildCustomAttributes]), Option.none_or]
    | some b =>
        rw [hvalue "is_active" (boolText b) (by simp [buildCustomAttributes])]
        exact congrArg some (boolText_toLower_ne_false b)
  · cases userType with
    | none => rw [hother _ (by simp [buildCustomAttributes]), Option.none_or]
    | some t =>
        rw [hvalue "fastak_user_type" t (by simp [buildCustomAttributes])]
        rfl

end FastTAK.Identity
