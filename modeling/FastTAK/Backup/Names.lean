import FastTAK.Base.Calendar
import FastTAK.Base.Newest
import FastTAK.Base.Text
import Mathlib.Data.Prod.Lex
import Mathlib.Data.String.Basic

/-!
# Names of backups

An archive is named after the time of its run and the release.  Retention reads the time
back from the name and orders by it.
-/

namespace FastTAK.Backup

open FastTAK.Calendar FastTAK.Text

/-! ## Stamps -/

/-- `n` as a decimal number of `width` digits. -/
def digitsOf : ℕ → ℕ → List Char
  | 0, _ => []
  | width + 1, n => digitsOf width (n / 10) ++ [digitChar (n % 10)]

/-- `created_at.strftime("%Y%m%dT%H%M%SZ")`. -/
def compact (t : DateTime) : List Char :=
  digitsOf 4 t.year ++ digitsOf 2 t.month ++ digitsOf 2 t.day ++ ['T'] ++
    digitsOf 2 t.hour ++ digitsOf 2 t.minute ++ digitsOf 2 t.second ++ ['Z']

/-- `_filename`. -/
def archiveName (createdAt : DateTime) (version : String) : String :=
  "fasttak-backup-" ++ String.ofList (compact createdAt) ++ "-" ++ version ++ ".age"

/-- Two digits, of which `strptime` takes the second from all of Unicode after a first digit
in `wide`. -/
def twoDigits (wide : List ℕ) (tens units : Char) : Option ℕ := do
  let t ← asciiDigit tens
  (if t ∈ wide then digit units else asciiDigit units).map (10 * t + ·)

/-- `datetime.strptime(stamp, "%Y%m%dT%H%M%SZ")` on a text of this shape. -/
def readStamp : List Char → Option DateTime
  | [y₁, y₂, y₃, y₄, m₁, m₂, d₁, d₂, 'T', h₁, h₂, n₁, n₂, s₁, s₂, 'Z'] => do
      let a ← digit y₁
      let b ← digit y₂
      let c ← digit y₃
      let d ← digit y₄
      let month ← twoDigits [] m₁ m₂
      let day ← twoDigits [1, 2] d₁ d₂
      let hour ← twoDigits [0, 1] h₁ h₂
      let minute ← twoDigits [0, 1, 2, 3, 4, 5] n₁ n₂
      let second ← twoDigits [0, 1, 2, 3, 4, 5] s₁ s₂
      DateTime.ofStamp ⟨1000 * a + 100 * b + 10 * c + d, month, day, hour, minute, second⟩
  | _ => none

/-- The time in a name that fits the glob `fasttak-backup-*.age` and the pattern
`_BACKUP_NAME`. -/
def stampOf (name : String) : Option DateTime :=
  let body := name.toList.drop "fasttak-backup-".length
  let rest := body.drop 17
  if "fasttak-backup-".toList <+: name.toList ∧ body[16]? = some '-' ∧
      ".age".toList <:+ rest ∧ ".age".length < rest.length ∧ '\n' ∉ rest then
    readStamp (body.take 16)
  else none

/-! ## Reading a stamp back -/

theorem length_digitsOf (width n : ℕ) : (digitsOf width n).length = width := by
  induction width generalizing n with
  | zero => rfl
  | succ width ih => rw [digitsOf, List.length_append, ih]; rfl

theorem digitsOf_two {n : ℕ} :
    digitsOf 2 n = [digitChar (n / 10 % 10), digitChar (n % 10)] := rfl

theorem digitsOf_four (n : ℕ) : digitsOf 4 n =
    [digitChar (n / 10 / 10 / 10 % 10), digitChar (n / 10 / 10 % 10),
      digitChar (n / 10 % 10), digitChar (n % 10)] := rfl

theorem twoDigits_digitsOf (wide : List ℕ) {n : ℕ} (hn : n < 100) :
    twoDigits wide (digitChar (n / 10 % 10)) (digitChar (n % 10)) = some n := by
  have htens : asciiDigit (digitChar (n / 10 % 10)) = some (n / 10 % 10) :=
    asciiDigit_digitChar (Nat.mod_lt _ (by decide))
  have hunits : (if n / 10 % 10 ∈ wide then digit (digitChar (n % 10))
      else asciiDigit (digitChar (n % 10))) = some (n % 10) := by
    split_ifs
    · exact digit_digitChar (Nat.mod_lt _ (by decide))
    · exact asciiDigit_digitChar (Nat.mod_lt _ (by decide))
  have hvalue : 10 * (n / 10 % 10) + n % 10 = n := by omega
  simp [twoDigits, htens, hunits, hvalue]

theorem readStamp_compact (t : DateTime) : readStamp (compact t) = some t := by
  have hyear : 1000 * (t.year / 10 / 10 / 10 % 10) + 100 * (t.year / 10 / 10 % 10) +
      10 * (t.year / 10 % 10) + t.year % 10 = t.year := by
    have := t.valid.year.2
    omega
  have hdigit : ∀ n, digit (digitChar (n % 10)) = some (n % 10) := fun n =>
    digit_digitChar (Nat.mod_lt _ (by decide))
  have hmonth : t.month < 100 := by have := t.valid.month.2; omega
  have hday : t.day < 100 := by
    have := t.valid.day.2.trans (daysInMonth_le _ _)
    omega
  have hhour : t.hour < 100 := by have := t.valid.hour; omega
  have hminute : t.minute < 100 := by have := t.valid.minute; omega
  have hsecond : t.second < 100 := by have := t.valid.second; omega
  rw [compact, digitsOf_four, digitsOf_two, digitsOf_two, digitsOf_two, digitsOf_two,
    digitsOf_two]
  simp only [List.cons_append, List.nil_append, readStamp, hdigit, Option.bind_eq_bind,
    Option.bind_some, twoDigits_digitsOf _ hmonth, twoDigits_digitsOf _ hday,
    twoDigits_digitsOf _ hhour, twoDigits_digitsOf _ hminute, twoDigits_digitsOf _ hsecond,
    hyear]
  exact DateTime.ofStamp_toStamp t

theorem length_compact (t : DateTime) : (compact t).length = 16 := by
  simp only [compact, List.length_append, length_digitsOf, List.length_singleton]

theorem toList_archiveName (t : DateTime) (version : String) :
    (archiveName t version).toList = "fasttak-backup-".toList ++
      (compact t ++ '-' :: (version.toList ++ ".age".toList)) := by
  have hdash : "-".toList = ['-'] := by simp
  unfold archiveName
  simp only [String.toList_append, String.toList_ofList, hdash, List.append_assoc,
    List.cons_append, List.nil_append]

theorem drop_archiveName (t : DateTime) (version : String) :
    (archiveName t version).toList.drop "fasttak-backup-".length =
      compact t ++ '-' :: (version.toList ++ ".age".toList) := by
  rw [toList_archiveName, ← String.length_toList, List.drop_left]

theorem drop_compact (t : DateTime) (rest : List Char) :
    (compact t ++ '-' :: rest).drop 17 = rest := by
  rw [List.drop_append, length_compact, List.drop_of_length_le (by simp [length_compact])]
  rfl

theorem prefix_archiveName (t : DateTime) (version : String) :
    "fasttak-backup-".toList <+: (archiveName t version).toList := by
  rw [toList_archiveName]
  exact List.prefix_append _ _

/-- The time of a run is read back from the name of its archive, unless the release is empty
or breaks the line. -/
theorem stampOf_archiveName (t : DateTime) (version : String) :
    stampOf (archiveName t version) =
      if version ≠ "" ∧ '\n' ∉ version.toList then some t else none := by
  have htake : (compact t ++ '-' :: (version.toList ++ ".age".toList)).take 16 = compact t := by
    rw [← length_compact t, List.take_left]
  have hdash : (compact t ++ '-' :: (version.toList ++ ".age".toList))[16]? = some '-' := by
    rw [List.getElem?_append_right (length_compact t).le, length_compact]
    rfl
  have hlength : ".age".length < (version.toList ++ ".age".toList).length ↔ version ≠ "" := by
    rw [List.length_append, ← String.length_toList, Nat.lt_add_left_iff_pos,
      List.length_pos_iff, Ne, String.toList_eq_nil_iff]
  have hbreak : '\n' ∉ version.toList ++ ".age".toList ↔ '\n' ∉ version.toList := by
    rw [List.mem_append, not_or]
    exact and_iff_left (by decide)
  have hsuffix : ".age".toList <:+ version.toList ++ ".age".toList := List.suffix_append _ _
  have hlead := prefix_archiveName t version
  unfold stampOf
  simp only [drop_archiveName, drop_compact, htake, hdash, hlength, hbreak, readStamp_compact]
  by_cases hversion : version ≠ "" ∧ '\n' ∉ version.toList
  · rw [if_pos ⟨hlead, trivial, hsuffix, hversion⟩, if_pos hversion]
  · rw [if_neg (fun hall => hversion hall.2.2.2), if_neg hversion]

/-! ## Names beside the archives -/

theorem getLast_append {lead tail : String} {c : Char} (htail : tail.toList.getLast? = some c) :
    (lead ++ tail).toList.getLast? = some c := by
  rw [String.toList_append, List.getLast?_append, htail]
  rfl

/-- A name with a stamp ends like an archive. -/
theorem getLast_of_stampOf {name : String} (hname : stampOf name ≠ none) :
    name.toList.getLast? = some 'e' := by
  have hage : ".age".toList <:+ name.toList := by
    by_contra hage
    apply hname
    unfold stampOf
    apply if_neg
    intro hfits
    apply hage
    have hinner := hfits.2.2.1
    exact hinner.trans ((List.drop_suffix _ _).trans (List.drop_suffix _ _))
  obtain ⟨lead, hlead⟩ := hage
  rw [← hlead, List.getLast?_append]
  rfl

theorem getLast_archiveName (t : DateTime) (version : String) :
    (archiveName t version).toList.getLast? = some 'e' := by
  unfold archiveName
  exact getLast_append rfl

theorem stampOf_of_getLast {name : String} {c : Char} (hlast : name.toList.getLast? = some c)
    (hc : c ≠ 'e') : stampOf name = none := by
  by_contra hname
  rw [getLast_of_stampOf hname] at hlast
  exact hc (Option.some.inj hlast).symm

theorem getLast_partialName (name : String) :
    (name ++ ".partial").toList.getLast? = some 'l' := getLast_append rfl

theorem getLast_sidecar (name : String) :
    (name ++ ".sha256").toList.getLast? = some '6' := getLast_append rfl

@[simp]
theorem stampOf_partialName (name : String) : stampOf (name ++ ".partial") = none :=
  stampOf_of_getLast (getLast_partialName name) (by decide)

@[simp]
theorem stampOf_sidecar (name : String) : stampOf (name ++ ".sha256") = none :=
  stampOf_of_getLast (getLast_sidecar name) (by decide)

theorem getLast_of_fitsPartial {lead name : String} (hfits : fitsStar lead ".partial" name) :
    name.toList.getLast? = some 'l' := by
  obtain ⟨middle, rfl⟩ := (fitsStar_iff lead ".partial" name).mp hfits
  exact getLast_partialName _

/-! ## The order of backups -/

/-- An archive with the time in its name.  `sorted` compares the time, then the path. -/
abbrev Stamped := DateTime ×ₗ String

def stamped (name : String) : Option Stamped :=
  (stampOf name).map (fun takenAt => toLex (takenAt, name))

/-- `stamped_backups`. -/
def stampedBackups (names : List String) : List Stamped :=
  Newest.newestFirst (names.filterMap stamped)

theorem stamped_eq_some {name : String} {s : Stamped} (hs : stamped name = some s) :
    stampOf name = some (ofLex s).1 ∧ (ofLex s).2 = name := by
  obtain ⟨takenAt, htaken, rfl⟩ := Option.map_eq_some_iff.mp hs
  exact ⟨htaken, rfl⟩

theorem nodup_stamped {names : List String} (hnames : names.Nodup) :
    (names.filterMap stamped).Nodup := by
  apply hnames.filterMap
  intro first second s hfirst hsecond
  rw [Option.mem_def] at hfirst hsecond
  rw [← (stamped_eq_some hfirst).2, ← (stamped_eq_some hsecond).2]

end FastTAK.Backup
