import FastTAK.Certs.Revocation

/-!
# Whose files an operation opens

Four operations find the files of a user's certificates in four ways.  All of
them rest on the stem `<user>-<name>`, in which the separator may also occur in
both halves.  This file proves that they stay with the user's own files exactly
when no other account has a stem that starts with `<user>-`.
-/

namespace FastTAK.Certs

open FastTAK.Text FastTAK.Api FastTAK.Naming

/-! ## Downloads and listings -/

/-- `get_revoked_serials()`: nothing when openssl cannot read the list. -/
def revokedSerials (readable : Bool) (s : Pki) : List ℕ :=
  if readable then s.crl else []

/-- The check of a certificate file against the revocation list. -/
def isRevokedOnDisk (readable : Bool) (stem : String) (s : Pki) : Bool :=
  match s.certOf stem with
  | none => false
  | some cert => cert.serial ∈ revokedSerials readable s

/-- `download_user_cert` once the user is found. -/
def downloadUserCert (readable : Bool) (username certName : String) (s : Pki) :
    Except Exn CertFile :=
  if ¬ matchesName certName then .error (.http 400 "Invalid certificate name")
  else
    match s.file (userStem username certName ++ ".p12") with
    | none => .error (.http 404 ("Certificate '" ++ certName ++ "' not found"))
    | some bundle =>
        if isRevokedOnDisk readable (userStem username certName) s then
          .error (.http 403 "Certificate has been revoked")
        else .ok bundle

/-- An entry of `list_user_certs` made from a file. -/
structure DiskEntry where
  name : String
  downloadable : Bool
  revoked : Bool
  deriving DecidableEq, Repr

/-- The scan of `list_user_certs` over the bundles on disk. -/
def scanBundles (readable : Bool) (username : String) (s : Pki) : List DiskEntry :=
  (listedBundles username s.fileNames).map fun bundle =>
    let stem := removeSuffix bundle ".p12"
    let isRevoked := isRevokedOnDisk readable stem s
    { name := String.ofList (stem.toList.drop (username ++ "-").length)
      downloadable := !isRevoked
      revoked := isRevoked }

/-! ## Directories written by the API -/

/-- The stem a principal's certificate gets, with the checks its name passed. -/
inductive StemOf : Origin → String → Prop where
  | user (username name : String) (husername : acceptsUsername username)
      (hname : acceptsCertName name)
      (hstem : validateName (userStem username name) = none) :
      StemOf (.user username name) (userStem username name)
  | service (name : String) (hname : acceptsServiceName name)
      (hstem : validateName (serviceUsername name) = none) :
      StemOf (.service (serviceUsername name)) (serviceUsername name)

theorem StemOf.valid {origin : Origin} {stem : String}
    (hstem : StemOf origin stem) : validateName stem = none := by
  cases hstem with
  | user _ _ _ _ hvalid => exact hvalid
  | service _ _ hvalid => exact hvalid

/-- Every file was written by `generate_user_cert` or `create_service_account`. -/
def Issued (s : Pki) : Prop :=
  ∀ name f, s.file name = some f → ∃ stem, StemOf f.origin stem ∧
    (name = stem ++ ".key" ∨ name = stem ++ ".csr" ∨ name = stem ++ ".pem" ∨
      name = stem ++ ".p12")

theorem issued_empty : Issued .empty := fun name f hfile => by
  rw [Pki.file_empty] at hfile
  cases hfile

theorem Issued.writeFile {s : Pki} (hissued : Issued s) {origin : Origin}
    {stem name : String} (hstem : StemOf origin stem)
    (hname : name = stem ++ ".key" ∨ name = stem ++ ".csr" ∨
      name = stem ++ ".pem" ∨ name = stem ++ ".p12") (body : Body) :
    Issued (s.writeFile name body origin) := by
  intro other f hfile
  rcases eq_or_ne other name with rfl | hne
  · rw [Pki.file_writeFile_self] at hfile
    obtain rfl := Option.some.inj hfile
    exact ⟨stem, hstem, hname⟩
  · rw [Pki.file_writeFile_of_ne _ _ _ hne] at hfile
    exact hissued other f hfile

/-- If the file exists, it was generated for the user. -/
def OwnedBy (username : String) (s : Pki) (name : String) : Prop :=
  ∀ f, s.file name = some f → f.origin.owner = some username

/-- The operations on the user's certificates open only files generated for the
user, whatever the name of the certificate. -/
structure Isolated (username : String) (s : Pki) : Prop where
  disk : ∀ name ∈ diskTargets username s.fileNames,
    OwnedBy username s (name ++ ".pem")
  list : ∀ bundle ∈ listedBundles username s.fileNames,
    OwnedBy username s bundle ∧
      OwnedBy username s (removeSuffix bundle ".p12" ++ ".pem")
  revoke : ∀ name, validateName (userStem username name) = none →
    OwnedBy username s (userStem username name ++ ".pem")
  download : ∀ name, matchesName name →
    OwnedBy username s (userStem username name ++ ".p12") ∧
      OwnedBy username s (userStem username name ++ ".pem")

/-! ## Stems that start with the user's name and a hyphen -/

/-- The stem starts with `<user>-`. -/
def StartsLike (username stem : String) : Prop :=
  (username ++ "-").toList <+: stem.toList

theorem startsLike_iff (username stem : String) :
    StartsLike username stem ↔ ∃ rest, stem = userStem username rest := by
  constructor
  · rintro ⟨rest, hrest⟩
    refine ⟨String.ofList rest, String.toList_inj.mp ?_⟩
    rw [userStem, String.toList_append, String.toList_ofList, hrest]
  · rintro ⟨rest, rfl⟩
    exact ⟨rest.toList, by simp [userStem]⟩

/-- A text that ends in a hyphen reaches into a suffix only if that holds one. -/
theorem startsLike_of_append {username stem suffix : String}
    (hsuffix : '-' ∉ suffix.toList)
    (hstarts : StartsLike username (stem ++ suffix)) : StartsLike username stem := by
  rw [StartsLike, String.toList_append (s := stem)] at hstarts
  rcases List.prefix_or_prefix_of_prefix hstarts
    (List.prefix_append stem.toList suffix.toList) with h | ⟨rest, hrest⟩
  · exact h
  · rw [← hrest, List.prefix_append_right_inj] at hstarts
    have hnil : rest = [] := by
      by_contra hne
      have hlast := congrArg List.getLast? hrest
      rw [List.getLast?_append_of_ne_nil _ hne, String.toList_append,
        List.getLast?_append_of_ne_nil _ (by decide)] at hlast
      exact hsuffix (hstarts.subset (List.mem_of_getLast? hlast))
    rw [StartsLike, ← hrest, hnil, List.append_nil]

theorem fitsStar_append_iff {username stem suffix : String}
    (hsuffix : '-' ∉ suffix.toList) :
    fitsStar (username ++ "-") suffix (stem ++ suffix) ↔
      StartsLike username stem := by
  rw [fitsStar_iff]
  constructor
  · rintro ⟨middle, hmiddle⟩
    refine startsLike_of_append hsuffix ((startsLike_iff _ _).mpr ?_)
    exact ⟨middle ++ suffix, by rw [hmiddle, userStem, String.append_assoc]⟩
  · intro hstarts
    obtain ⟨rest, rfl⟩ := (startsLike_iff username stem).mp hstarts
    exact ⟨rest, rfl⟩

theorem suffix_append_inj {left right ext ext' : String}
    (hlength : ext.length = ext'.length) (h : left ++ ext = right ++ ext') :
    left = right ∧ ext = ext' := by
  have htext := congrArg String.toList h
  rw [String.toList_append, String.toList_append] at htext
  have hinj := List.append_inj_right' htext (by
    rwa [String.length_toList, String.length_toList])
  rw [hinj, List.append_cancel_right_eq] at htext
  exact ⟨String.toList_inj.mp htext, String.toList_inj.mp hinj⟩

/-- A file of an issued directory with the suffix of certificates is the
certificate of its stem. -/
theorem Issued.stem_of_suffix {s : Pki} (hissued : Issued s)
    {stem suffix : String} {f : CertFile}
    (hsuffix : suffix = ".pem" ∨ suffix = ".p12")
    (hfile : s.file (stem ++ suffix) = some f) : StemOf f.origin stem := by
  obtain ⟨stem', hstem, hname⟩ := hissued _ f hfile
  have hsame : stem = stem' := by
    have hlength : suffix.length = 4 := by rcases hsuffix with rfl | rfl <;> rfl
    rcases hname with h | h | h | h
    all_goals exact (suffix_append_inj hlength h).1
  exact hsame ▸ hstem

/-! ## What `find` leads to -/

/-- Every target of a matching file is a stem that starts like the user's, or
the empty name that the second line of a broken file name leaves. -/
theorem startsLike_of_mem_fileTargets {username stem target : String}
    (hvalid : validateName stem = none) (hstarts : StartsLike username stem)
    (htarget : target ∈ fileTargets (stem ++ ".pem")) :
    StartsLike username target ∨ StartsLike username (target ++ ".pem") ∨
      target = "" := by
  obtain ⟨core, hne, hchars, hcore | hcore⟩ :=
    (matchesName_iff stem).mp ((validateName_eq_none_iff stem).mp hvalid).1
  · have hplain : PlainName stem := fun c hc =>
      (isNameChar_plain (hchars c (hcore ▸ hc))).2
    rw [fileTargets_pem hplain, List.mem_singleton] at htarget
    exact Or.inl (htarget ▸ hstarts)
  · obtain ⟨line, rfl⟩ : ∃ line, core = String.toList line :=
      ⟨String.ofList core, String.toList_ofList.symm⟩
    have hstem : stem = line ++ "\n" := by
      rw [← String.toList_inj, hcore, String.toList_append]
      rfl
    rw [hstem, fileTargets_feed hne hchars] at htarget
    have hline : StartsLike username line := by
      rw [hstem] at hstarts
      exact startsLike_of_append (by decide) hstarts
    simp only [List.mem_cons, List.not_mem_nil, or_false] at htarget
    rcases htarget with rfl | rfl
    · unfold removeSuffix
      split_ifs with hends
      · right
        left
        obtain ⟨rest, hrest⟩ := hends
        have hjoin : String.ofList (line.toList.take (line.length - ".pem".length)) ++
            ".pem" = line := by
          rw [← String.toList_inj, String.toList_append, String.toList_ofList,
            ← hrest]
          congr 1
          rw [← String.length_toList, ← hrest, List.length_append,
            String.length_toList, Nat.add_sub_cancel, List.take_left]
        rwa [hjoin]
      · exact Or.inl hline
    · exact Or.inr (Or.inr rfl)

/-- The operations stay with the user's own files exactly when every certificate
or bundle whose stem starts with `<user>-` was generated for the user. -/
theorem isolated_iff (username : String) (s : Pki) (hissued : Issued s) :
    Isolated username s ↔
      ∀ stem suffix f, suffix = ".pem" ∨ suffix = ".p12" →
        s.file (stem ++ suffix) = some f → StartsLike username stem →
          f.origin.owner = some username := by
  constructor
  · intro hisolated stem suffix f hsuffix hfile hstarts
    obtain ⟨name, rfl⟩ := (startsLike_iff username stem).mp hstarts
    have hstem := hissued.stem_of_suffix hsuffix hfile
    rcases hsuffix with rfl | rfl
    · exact hisolated.revoke name hstem.valid f hfile
    · refine (hisolated.list _ ?_).1 f hfile
      refine List.mem_filter.mpr ⟨(s.mem_fileNames_iff _).mpr ⟨f, hfile⟩, ?_⟩
      exact (fitsStar_append_iff (by decide)).mpr hstarts
  · intro hown
    have hpem : ∀ stem, StartsLike username stem →
        OwnedBy username s (stem ++ ".pem") := fun stem hstarts f hfile =>
      hown stem ".pem" f (Or.inl rfl) hfile hstarts
    have hp12 : ∀ stem, StartsLike username stem →
        OwnedBy username s (stem ++ ".p12") := fun stem hstarts f hfile =>
      hown stem ".p12" f (Or.inr rfl) hfile hstarts
    have huser : ∀ name, StartsLike username (userStem username name) :=
      fun name => (startsLike_iff _ _).mpr ⟨name, rfl⟩
    refine ⟨fun target htarget => ?_, fun bundle hbundle => ?_,
      fun name _ => hpem _ (huser name),
      fun name _ => ⟨hp12 _ (huser name), hpem _ (huser name)⟩⟩
    · rw [diskTargets_eq_flatMap] at htarget
      obtain ⟨file, hfile, htarget⟩ := List.mem_flatMap.mp htarget
      obtain ⟨hlisted, hfits⟩ := List.mem_filter.mp hfile
      obtain ⟨middle, rfl⟩ := (fitsStar_iff _ _ _).mp hfits
      obtain ⟨f, hf⟩ := (s.mem_fileNames_iff _).mp hlisted
      have hstem := hissued.stem_of_suffix (Or.inl rfl) hf
      rcases startsLike_of_mem_fileTargets hstem.valid (huser middle)
        htarget with h | h | rfl
      · exact hpem target h
      · intro g hg
        exact hpem target (startsLike_of_append (by decide) h) g hg
      · intro g hg
        have hempty := (hissued.stem_of_suffix (Or.inl rfl) hg).valid
        exact absurd hempty (by decide)
    · obtain ⟨-, hfits⟩ := List.mem_filter.mp hbundle
      obtain ⟨middle, rfl⟩ := (fitsStar_iff _ _ _).mp hfits
      rw [removeSuffix_append]
      exact ⟨hp12 _ (huser middle), hpem _ (huser middle)⟩

/-- A directory with one certificate of one user. -/
def singleCert (username name : String) (serial : ℕ) : Pki :=
  Pki.empty.writeFile (userStem username name ++ ".pem")
    (.certificate ⟨serial, username, 365⟩) (.user username name)

theorem issued_singleCert {username name : String} (serial : ℕ)
    (hstem : StemOf (.user username name) (userStem username name)) :
    Issued (singleCert username name serial) :=
  issued_empty.writeFile hstem (Or.inr (Or.inr (Or.inl rfl))) _

theorem isolated_alice : Isolated "alice" (singleCert "alice" "phone" 7) := by
  have hstem : StemOf (.user "alice" "phone") (userStem "alice" "phone") :=
    .user _ _ (by decide) (by decide) (by decide)
  refine (isolated_iff "alice" _ (issued_singleCert 7 hstem)).mpr ?_
  intro stem suffix f _ hfile _
  rcases eq_or_ne (stem ++ suffix) (userStem "alice" "phone" ++ ".pem")
    with heq | hne
  · rw [singleCert, heq, Pki.file_writeFile_self] at hfile
    rw [← Option.some.inj hfile]
    rfl
  · rw [singleCert, Pki.file_writeFile_of_ne _ _ _ hne, Pki.file_empty] at hfile
    cases hfile

/-- Deleting the certificates of `bob` revokes the one of `bob-phone`. -/
theorem not_isolated_bob :
    Issued (singleCert "bob-phone" "tablet" 7) ∧
      ¬ Isolated "bob" (singleCert "bob-phone" "tablet" 7) ∧
      (revokeCertsOnDiskForUser "bob"
        (singleCert "bob-phone" "tablet" 7)).2.crl = [7] := by
  have hstem : StemOf (.user "bob-phone" "tablet")
      (userStem "bob-phone" "tablet") :=
    .user _ _ (by decide) (by decide) (by decide)
  refine ⟨issued_singleCert 7 hstem, fun hisolated => ?_, by decide +kernel⟩
  have howned := hisolated.disk "bob-phone-tablet" (by decide +kernel) _
    (Pki.file_writeFile_self _ _ _ _)
  exact absurd howned (by decide)

end FastTAK.Certs
