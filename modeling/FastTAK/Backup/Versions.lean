import FastTAK.Backup.Requests

/-!
# Names of all versions

The version in the name of an archive is what the deployment scripts export.  Retention, the
pass over partial files and the API each have a pattern of their own for such names.
-/

namespace FastTAK.Backup

open FastTAK.Calendar FastTAK.Text

/-! ## The version -/

/-- The directory that the stack is started from: the text of `pyproject.toml`, and what
`git describe --tags --always` prints if it succeeds. -/
structure Checkout where
  pyproject : Option String
  hasGit : Bool
  described : Option String

/-- `/^version *=/`. -/
def isVersionLine (line : List Char) : Bool :=
  "version".toList.isPrefixOf line &&
    ((line.drop "version".length).dropWhile (· = ' ')).head? = some '='

/-- `awk -F'"' '/^version *=/{print $2; exit}'`. -/
def pyprojectVersion (text : String) : List Char :=
  match (text.toList.splitOn '\n').find? isVersionLine with
  | some line => ((line.splitOn '"')[1]?).getD []
  | none => []

/-- `$(…)` drops the line breaks at the end. -/
def captured (output : List Char) : List Char := output.rdropWhile (· = '\n')

/-- `FASTTAK_VERSION` after `stack_export_version`. -/
def stackExportVersion (checkout : Checkout) : String :=
  let version := captured ((checkout.pyproject.map pyprojectVersion).getD [])
  let version :=
    if version = [] && checkout.hasGit then captured (checkout.described.getD "dev").toList
    else version
  if version = [] then "dev" else String.ofList version

/-! ## The consumers -/

/-- What every consumer of the name of an archive makes of it. -/
structure Understood (takenAt : DateTime) (version : String) : Prop where
  /-- It is the name of a file. -/
  named : '/' ∉ (archiveName takenAt version).toList
  listed : stampOf (archiveName takenAt version) = some takenAt
  spared : ¬ fitsStar "fasttak-backup-" ".partial" (archiveName takenAt version)
  /-- The file that a run writes first is reaped, and is no archive. -/
  reaped : fitsStar "fasttak-backup-" ".partial" (archiveName takenAt version ++ ".partial")
  unlisted : stampOf (archiveName takenAt version ++ ".partial") = none
  accepted : safeFilename (archiveName takenAt version)

/-- `[A-Za-z0-9._-]`. -/
def isVersionChar (c : Char) : Bool := isWord c || c ∈ ['.', '_', '-']

/-- A letter or a digit and then letters, digits and `._-`, without two dots in a row or a dot
at the end. -/
structure Portable (version : String) : Prop where
  head : version.toList.head?.any isWord
  chars : version.toList.all isVersionChar
  dots : ¬ ['.', '.'] <:+: version.toList
  last : version.toList.getLast? ≠ some '.'

/-! ## The pattern of the API -/

theorem hasDoubleDot_iff (text : List Char) : hasDoubleDot text ↔ ['.', '.'] <:+: text := by
  induction text using hasDoubleDot.induct with
  | case1 rest => exact iff_of_true rfl ⟨[], rest, rfl⟩
  | case2 c rest hfirst ih =>
      rw [hasDoubleDot.eq_2 c rest hfirst, ih, List.infix_cons_iff]
      apply (or_iff_right _).symm
      intro hprefix
      obtain ⟨tail, htail⟩ := hprefix
      cases htail
      exact hfirst tail rfl rfl
  | case3 => exact iff_of_false Bool.false_ne_true (by simp)

theorem hasDoubleDot_append_age (text : List Char) :
    hasDoubleDot (text ++ ".age".toList) ↔ ['.', '.'] <:+: text ∨ text.getLast? = some '.' := by
  rw [← hasDoubleDot_iff]
  induction text using hasDoubleDot.induct with
  | case1 rest => exact iff_of_true rfl (.inl rfl)
  | case2 c rest hfirst ih =>
      cases rest with
      | nil =>
          by_cases hdot : c = '.'
          · subst hdot
            exact iff_of_true rfl (.inr rfl)
          · have hplain : hasDoubleDot (c :: ".age".toList) = hasDoubleDot ".age".toList :=
              hasDoubleDot.eq_2 c _ (fun _ h => absurd h hdot)
            rw [List.singleton_append, hplain, hasDoubleDot.eq_2 c [] hfirst]
            simp [hasDoubleDot, hdot]
      | cons d rest =>
          have hplain : hasDoubleDot (c :: (d :: rest ++ ".age".toList)) =
              hasDoubleDot (d :: rest ++ ".age".toList) := by
            apply hasDoubleDot.eq_2
            intro tail hc htail
            rw [List.cons_append] at htail
            exact hfirst rest hc (by rw [(List.cons.inj htail).1])
          rw [List.cons_append, hplain, ih, hasDoubleDot.eq_2 c _ hfirst,
            List.getLast?_cons_cons]
  | case3 => simp [hasDoubleDot]

theorem isWord_digitChar (n : ℕ) : isWord (digitChar (n % 10)) := by
  have hall : ∀ d < 10, isWord (digitChar d) := by decide
  exact hall _ (Nat.mod_lt _ (by decide))

theorem isWord_of_mem_compact {t : DateTime} {c : Char} (hc : c ∈ compact t) : isWord c := by
  rw [compact, digitsOf_four, digitsOf_two, digitsOf_two, digitsOf_two, digitsOf_two,
    digitsOf_two] at hc
  simp only [List.cons_append, List.nil_append, List.mem_cons, List.not_mem_nil, or_false] at hc
  rcases hc with rfl | rfl | rfl | rfl | rfl | rfl | rfl | rfl | rfl | rfl | rfl | rfl | rfl |
    rfl | rfl | rfl
  all_goals first
    | exact isWord_digitChar _
    | rfl

theorem isSome_digit_digitChar (n : ℕ) : (digit (digitChar (n % 10))).isSome := by
  rw [digit_digitChar (Nat.mod_lt _ (by decide))]
  rfl

theorem dropLast_age (text : List Char) :
    (text ++ ".age".toList).dropLast.dropLast.dropLast.dropLast = text := by
  have hage : text ++ ".age".toList = text ++ ['.'] ++ ['a'] ++ ['g'] ++ ['e'] := by simp
  rw [hage, List.dropLast_concat, List.dropLast_concat, List.dropLast_concat,
    List.dropLast_concat]

theorem safeFilename_eq (t : DateTime) (version : String) :
    safeFilename (archiveName t version) =
      (version.toList.head?.any isWord && version.toList.all isVersionChar &&
        !hasDoubleDot (version.toList ++ ".age".toList)) := by
  have hlast : ¬ (archiveName t version).toList.getLast? = some '\n' := by
    rw [getLast_archiveName]
    decide
  have hlead := List.isPrefixOf_iff_prefix.mpr (prefix_archiveName t version)
  have hsuffix : ".age".toList.isSuffixOf (version.toList ++ ".age".toList) :=
    List.isSuffixOf_iff_suffix.mpr (List.suffix_append _ _)
  have hchars : version.toList.all isVersionChar =
      version.toList.all (fun c => isWord c || c ∈ ['.', '_', '-']) := rfl
  unfold safeFilename
  simp only [hlast, if_false, drop_archiveName, hlead, drop_compact, hsuffix, dropLast_age,
    Bool.true_and, hchars]
  rw [compact, digitsOf_four, digitsOf_two, digitsOf_two, digitsOf_two, digitsOf_two,
    digitsOf_two]
  simp [isSome_digit_digitChar]

/-- The API takes the names of the portable versions. -/
theorem safeFilename_archiveName (t : DateTime) (version : String) :
    safeFilename (archiveName t version) ↔ Portable version := by
  rw [safeFilename_eq, Bool.and_eq_true, Bool.and_eq_true, Bool.not_eq_true',
    ← Bool.not_eq_true, hasDoubleDot_append_age, not_or]
  constructor
  · intro h
    exact ⟨h.1.1, h.1.2, h.2.1, h.2.2⟩
  · intro h
    exact ⟨⟨h.head, h.chars⟩, h.dots, h.last⟩

/-! ## The names together -/

theorem not_mem_of_portable {version : String} (hversion : Portable version) {c : Char}
    (hc : isVersionChar c = false) : c ∉ version.toList := by
  intro hmem
  rw [List.all_eq_true.mp hversion.chars c hmem] at hc
  cases hc

theorem ne_empty_of_portable {version : String} (hversion : Portable version) : version ≠ "" := by
  rintro rfl
  exact absurd hversion.head (by decide)

theorem slash_not_mem_archiveName {t : DateTime} {version : String}
    (hversion : '/' ∉ version.toList) : '/' ∉ (archiveName t version).toList := by
  rw [toList_archiveName]
  simp only [List.mem_append, List.mem_cons, not_or]
  refine ⟨by decide, ?_, by decide, hversion, by decide⟩
  intro hmem
  exact absurd (isWord_of_mem_compact hmem) (by decide)

theorem fitsPartial_archiveName (t : DateTime) (version : String) :
    fitsStar "fasttak-backup-" ".partial" (archiveName t version ++ ".partial") := by
  rw [fitsStar_iff]
  refine ⟨String.ofList (compact t ++ '-' :: (version.toList ++ ".age".toList)), ?_⟩
  apply String.toList_inj.mp
  simp only [String.toList_append, toList_archiveName, String.toList_ofList]

/-- The name of an archive is understood by every consumer exactly if its version is one that the
API takes. -/
theorem understood_iff_portable (t : DateTime) (checkout : Checkout) :
    Understood t (stackExportVersion checkout) ↔ Portable (stackExportVersion checkout) := by
  constructor
  · intro h
    exact (safeFilename_archiveName t _).mp h.accepted
  · intro hversion
    constructor
    · exact slash_not_mem_archiveName (not_mem_of_portable hversion (by decide))
    · rw [stampOf_archiveName]
      exact if_pos ⟨ne_empty_of_portable hversion, not_mem_of_portable hversion (by decide)⟩
    · intro hfits
      have hlast := getLast_archiveName t (stackExportVersion checkout)
      rw [getLast_of_fitsPartial hfits] at hlast
      exact absurd hlast (by decide)
    · exact fitsPartial_archiveName t _
    · exact stampOf_partialName _
    · exact (safeFilename_archiveName t _).mpr hversion

/-! ## A local version -/

/-- A checkout whose version has a local part. -/
def patchedCheckout : Checkout where
  pyproject := some "[project]\nname = \"fastak-dev\"\nversion = \"1.4.0+build.7\"\n"
  hasGit := true
  described := none

/-- The archive of this version is listed, and the API refuses its name. -/
theorem local_version_refused :
    stackExportVersion patchedCheckout = "1.4.0+build.7" ∧
      stampOf (archiveName newDir.clock (stackExportVersion patchedCheckout)) =
        some newDir.clock ∧
      ¬ Understood newDir.clock (stackExportVersion patchedCheckout) := by
  refine ⟨by decide +kernel, by decide +kernel, ?_⟩
  intro h
  exact absurd h.accepted (by decide +kernel)

end FastTAK.Backup
