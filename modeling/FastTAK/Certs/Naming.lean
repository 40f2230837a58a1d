import FastTAK.Base.Text

/-!
# Names of certificate files

Every certificate lives in one directory under the stem the monitor chose for
it: `<user>-<name>` for users, `<account>` for service accounts.  This file
models the validators of these names and the three ways the monitor finds a
user's files again: the shell pattern of `find`, the pattern of `Path.glob`
and concatenation.
-/

namespace FastTAK.Naming

open FastTAK.Text

/-! ## Validators -/

/-- The characters of `[a-zA-Z0-9._-]`. -/
def isNameChar (c : Char) : Bool :=
  c.isAlphanum || c == '.' || c == '_' || c == '-'

/-- `re.match(r"^[a-zA-Z0-9._-]+$", name)`.  The `$` of Python also matches
right before a final line feed. -/
def matchesName (name : String) : Bool :=
  let core :=
    if name.toList.getLast? = some '\n' then name.toList.dropLast
    else name.toList
  core ≠ [] && core.all isNameChar

/-- `_validate_name` of `cert_gen`: the error text, if any. -/
def validateName (name : String) : Option String :=
  if name = "" ∨ ¬ matchesName name then
    some "Name must contain only letters, numbers, dots, hyphens, underscores"
  else if 64 < name.length then
    some "Name must be 64 characters or fewer"
  else none

/-- `CreateUserRequest.validate_username` accepts the name. -/
def acceptsUsername (username : String) : Bool :=
  matchesName username && username.length ≤ 64

/-- `GenerateCertRequest` accepts the name. -/
def acceptsCertName (name : String) : Bool :=
  1 ≤ name.length && name.length ≤ 64 && matchesName name

/-- `CreateServiceAccountRequest.validate_name` accepts the name. -/
def acceptsServiceName (name : String) : Bool :=
  let raw :=
    if "svc_".toList <+: name.toList then String.ofList (name.toList.drop 4)
    else name
  matchesName raw && name.length ≤ 64

/-- The username of a service account: `svc_` is prepended unless present. -/
def serviceUsername (name : String) : String :=
  if "svc_".toList <+: name.toList then name else "svc_" ++ name

theorem svc_prefix_serviceUsername (name : String) :
    "svc_".toList <+: (serviceUsername name).toList := by
  rw [serviceUsername]
  split_ifs with hsvc
  · exact hsvc
  · rw [String.toList_append]
    exact List.prefix_append _ _

/-- Without its final line feed an accepted name consists of name characters. -/
theorem matchesName_iff (name : String) :
    matchesName name ↔
      ∃ core, core ≠ [] ∧ (∀ c ∈ core, isNameChar c) ∧
        (name.toList = core ∨ name.toList = core ++ ['\n']) := by
  have hline : isNameChar '\n' = false := by decide
  simp only [matchesName, Bool.and_eq_true, decide_eq_true_eq, List.all_eq_true]
  constructor
  · rintro ⟨hne, hall⟩
    refine ⟨_, hne, hall, ?_⟩
    split_ifs with hlast
    · right
      exact (List.dropLast_append_getLast? _ hlast).symm
    · exact Or.inl rfl
  · rintro ⟨core, hne, hall, hcore | hcore⟩
    · have hlast : name.toList.getLast? ≠ some '\n' := by
        intro h
        rw [hcore] at h
        have := hall _ (List.mem_of_getLast? h)
        simp [hline] at this
      rw [if_neg hlast, hcore]
      exact ⟨hne, hall⟩
    · rw [if_pos (by rw [hcore]; simp), hcore, List.dropLast_concat]
      exact ⟨hne, hall⟩

theorem validateName_eq_none_iff (name : String) :
    validateName name = none ↔ matchesName name ∧ name.length ≤ 64 := by
  unfold validateName
  split_ifs with hbad hlong
  · have hempty : matchesName "" = false := by decide
    rcases hbad with rfl | hbad
    · simp [hempty]
    · simp [hbad]
  · simp only [false_iff, not_and, not_le]
    exact fun _ => hlong
  · push Not at hbad
    simp only [true_iff]
    exact ⟨hbad.2, Nat.le_of_not_lt hlong⟩

/-! ## Owners -/

/-- For whom a file of the certificate directory was written: a named
certificate of a user, the certificate of a service account, a file of the
deployment (CA, server certificate), or the scratch copy of a PEM that is being
revoked. -/
inductive Origin where
  | user (username name : String)
  | service (account : String)
  | system
  | scratch
  deriving DecidableEq, Repr

/-- The account for which the certificate was generated. -/
def Origin.owner : Origin → Option String
  | .user username _ => some username
  | .service account => some account
  | .system => none
  | .scratch => none

/-- `f"{username}-{name}"`. -/
def userStem (username name : String) : String := username ++ "-" ++ name

/-! ## What the monitor finds on disk -/

def certFilesDir : String := "/opt/tak/certs/files"

/-- The output of
`find CERT_FILES -maxdepth 1 -type f -name "<username>-*.pem"`. -/
def findOutput (username : String) (files : List String) : List Char :=
  (files.filter (fitsStar (username ++ "-") ".pem")).flatMap fun file =>
    (certFilesDir ++ "/" ++ file).toList ++ ['\n']

/-- `[line.strip() for line in output.splitlines() if line.strip()]`. -/
def outputPaths (output : List Char) : List (List Char) :=
  ((splitlines output).map strip).filter (· ≠ [])

/-- `path.rsplit("/", 1)[-1].removesuffix(".pem")`. -/
def targetName (path : List Char) : String :=
  removeSuffix (String.ofList (lastComponent path)) ".pem"

/-- The names `revoke_certs_on_disk_for_user` hands to `_revoke_via_crl`. -/
def diskTargets (username : String) (files : List String) : List String :=
  (outputPaths (findOutput username files)).map targetName

/-- The bundles `list_user_certs` finds:
`CERT_FILES_PATH.glob(f"{username}-*.p12")`. -/
def listedBundles (username : String) (files : List String) : List String :=
  files.filter (fitsStar (username ++ "-") ".p12")

/-- The names `revoke_certs_on_disk_for_user` reads off the line or lines that
`find` prints for one file. -/
def fileTargets (file : String) : List String :=
  (outputPaths ((certFilesDir ++ "/" ++ file).toList ++ ['\n'])).map targetName

/-- The targets are those of the matching files, one after the other. -/
theorem diskTargets_eq_flatMap (username : String) (files : List String) :
    diskTargets username files =
      (files.filter (fitsStar (username ++ "-") ".pem")).flatMap fileTargets := by
  have hpaths : ∀ matching : List String,
      outputPaths (matching.flatMap fun file =>
        (certFilesDir ++ "/" ++ file).toList ++ ['\n']) =
      matching.flatMap fun file =>
        outputPaths ((certFilesDir ++ "/" ++ file).toList ++ ['\n']) := by
    intro matching
    induction matching with
    | nil => rfl
    | cons file matching ih =>
        rw [List.flatMap_cons, List.flatMap_cons, ← ih, outputPaths,
          List.append_assoc, List.singleton_append, splitlines_append,
          List.map_append, List.filter_append]
        rfl
  rw [diskTargets, findOutput, hpaths, List.map_flatMap]
  rfl

/-- File names that `find` prints on one line.  No file name has a slash. -/
def PlainName (file : String) : Prop :=
  ∀ c ∈ file.toList, isLineBreak c = false ∧ c ≠ '/'

theorem toList_certFilesDir_append (file : String) :
    (certFilesDir ++ "/" ++ file).toList =
      certFilesDir.toList ++ '/' :: file.toList := by
  simp [String.toList_append]

theorem certFilesDir_plain : ∀ c ∈ certFilesDir.toList, isLineBreak c = false := by
  simp [certFilesDir, isLineBreak]

/-- A path below the certificate directory survives stripping if the file name
does not end in a blank. -/
theorem strip_certPath {name : List Char}
    (hlast : ∀ c ∈ name.getLast?, ¬ isBlank c) (hne : name ≠ []) :
    strip (certFilesDir.toList ++ '/' :: name) =
      certFilesDir.toList ++ '/' :: name := by
  rw [strip_eq_self_iff]
  constructor
  · intro c hc
    obtain rfl : c = '/' := by
      simpa [certFilesDir, eq_comm] using hc
    decide
  · intro c hc
    rw [List.getLast?_append_of_ne_nil _ (List.cons_ne_nil _ _),
      List.getLast?_cons_of_ne_nil hne] at hc
    exact hlast c hc

theorem fileTargets_plain {file : String} (hplain : PlainName file)
    (hlast : ∀ c ∈ file.toList.getLast?, ¬ isBlank c) (hne : file.toList ≠ []) :
    fileTargets file = [removeSuffix file ".pem"] := by
  have hline : ∀ c ∈ certFilesDir.toList ++ '/' :: file.toList,
      isLineBreak c = false := by
    intro c hc
    rcases List.mem_append.mp hc with hc | hc
    · exact certFilesDir_plain c hc
    · rcases List.mem_cons.mp hc with rfl | hc
      · decide
      · exact (hplain c hc).1
  rw [fileTargets, toList_certFilesDir_append, outputPaths, splitlines_line hline,
    splitlines, List.map_singleton, strip_certPath hlast hne]
  have hslash : '/' ∉ file.toList := fun h => (hplain _ h).2 rfl
  simp [targetName, lastComponent_append hslash]

theorem pem_getLast {stem : String} :
    ∀ c ∈ (stem ++ ".pem").toList.getLast?, ¬ isBlank c := by
  intro c hc
  rw [String.toList_append, List.getLast?_append_of_ne_nil _ (by decide)] at hc
  obtain rfl : c = 'm' := by simpa [eq_comm] using hc
  decide

theorem fileTargets_pem {stem : String} (hplain : PlainName stem) :
    fileTargets (stem ++ ".pem") = [stem] := by
  have hpem : PlainName (stem ++ ".pem") := by
    intro c hc
    rw [String.toList_append] at hc
    rcases List.mem_append.mp hc with hc | hc
    · exact hplain c hc
    · revert hc
      simp only [String.reduceToList, List.mem_cons, List.not_mem_nil, or_false]
      rintro (rfl | rfl | rfl | rfl) <;> decide
  have hne : (stem ++ ".pem").toList ≠ [] := by
    rw [String.toList_append]
    exact List.append_ne_nil_of_right_ne_nil _ (by decide)
  rw [fileTargets_plain hpem pem_getLast hne, removeSuffix_append]

theorem isNameChar_plain {c : Char} (hc : isNameChar c) :
    isBlank c = false ∧ isLineBreak c = false ∧ c ≠ '/' := by
  have hrange : (48 ≤ c.toNat ∧ c.toNat ≤ 57) ∨ (65 ≤ c.toNat ∧ c.toNat ≤ 90) ∨
      (97 ≤ c.toNat ∧ c.toNat ≤ 122) ∨ c.toNat = 46 ∨ c.toNat = 95 ∨
      c.toNat = 45 := by
    simp only [isNameChar, Char.isAlphanum, Char.isAlpha, Char.isUpper,
      Char.isLower, Char.isDigit, Bool.or_eq_true, Bool.and_eq_true,
      decide_eq_true_eq, beq_iff_eq, ge_iff_le, UInt32.le_iff_toNat_le] at hc
    have hval : c.val.toNat = c.toNat := rfl
    rcases hc with (((hc | hc) | hc) | hc) | rfl
    all_goals simp_all
    all_goals omega
  refine ⟨?_, ?_, ?_⟩
  · simp only [isBlank, Bool.or_eq_false_iff, Bool.and_eq_false_iff,
      decide_eq_false_iff_not, beq_eq_false_iff_ne]
    omega
  · simp only [isLineBreak, Bool.or_eq_false_iff, Bool.and_eq_false_iff,
      decide_eq_false_iff_not, beq_eq_false_iff_ne]
    omega
  · rintro rfl
    simp at hrange

/-- A stem that ends in a line feed is printed on two lines: the first names
another file, the second only the suffix. -/
theorem fileTargets_feed {core : String} (hne : core.toList ≠ [])
    (hcore : ∀ c ∈ core.toList, isNameChar c) :
    fileTargets (core ++ "\n" ++ ".pem") = [removeSuffix core ".pem", ""] := by
  have hline : ∀ c ∈ certFilesDir.toList ++ '/' :: core.toList,
      isLineBreak c = false := by
    intro c hc
    rcases List.mem_append.mp hc with hc | hc
    · exact certFilesDir_plain c hc
    · rcases List.mem_cons.mp hc with rfl | hc
      · decide
      · exact (isNameChar_plain (hcore c hc)).2.1
  have htext : (certFilesDir ++ "/" ++ (core ++ "\n" ++ ".pem")).toList ++ ['\n'] =
      (certFilesDir.toList ++ '/' :: core.toList) ++ '\n' ::
        (".pem".toList ++ ['\n']) := by
    rw [toList_certFilesDir_append, String.toList_append, String.toList_append]
    simp
  have hlast : ∀ c ∈ core.toList.getLast?, ¬ isBlank c := fun c hc => by
    rw [(isNameChar_plain (hcore c (List.mem_of_getLast? hc))).1]
    exact Bool.false_ne_true
  have hslash : '/' ∉ core.toList := fun h =>
    (isNameChar_plain (hcore _ h)).2.2 rfl
  have hsecond : splitlines (".pem".toList ++ ['\n']) = [".pem".toList] := by decide
  have hstrip : strip ".pem".toList = ".pem".toList := by decide
  have hrest : targetName ".pem".toList = "" := by decide
  rw [fileTargets, htext, outputPaths, splitlines_line hline, hsecond,
    List.map_cons, List.map_singleton, strip_certPath hlast hne, hstrip]
  rw [List.filter_cons_of_pos (by simp), List.filter_cons_of_pos (by decide),
    List.filter_nil, List.map_cons, List.map_singleton, hrest, targetName,
    lastComponent_append hslash, String.ofList_toList]

end FastTAK.Naming
