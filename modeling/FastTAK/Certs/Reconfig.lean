import FastTAK.Certs.Naming
import FastTAK.Env.Rewriters

/-!
# What `reconfig.sh` deletes

The server certificate of the old address goes by the pattern `<old address>.*`, in the directory
that holds the certificates of everybody.  A user name may have dots.
-/

namespace FastTAK.Reconfig

open FastTAK.Text FastTAK.Naming

/-! ## The directory -/

/-- What a certificate file is of. -/
inductive Purpose where
  | authority (stem : String)
  | service (name : String)
  | user (username name : String)
  | server (address : String)
  deriving DecidableEq, Repr

namespace Purpose

/-- The files of the authority, up to their extensions. -/
def authorityStems : List String :=
  ["ca", "ca-do-not-share", "ca-trusted", "ca-signing", "root-ca", "root-ca-do-not-share",
    "root-ca-trusted", "truststore-root"]

/-- `init-config` lets the value of `SERVER_ADDRESS` pass. -/
def acceptsAddress (address : String) : Bool :=
  address ≠ "" && address.toList.all isNameChar

def accepted : Purpose → Bool
  | authority stem => stem ∈ authorityStems
  | service name => acceptsServiceName name
  | user username name => acceptsUsername username && acceptsCertName name
  | server address => acceptsAddress address

def stem : Purpose → String
  | authority stem => stem
  | service name => serviceUsername name
  | user username name => userStem username name
  | server address => address

/-- `reconfig.sh` promises to preserve it. -/
def isPreserved : Purpose → Bool
  | authority _ | service _ | user _ _ => true
  | server _ => false

end Purpose

structure CertFile where
  purpose : Purpose
  accepted : purpose.accepted
  ext : String
  deriving DecidableEq

/-- `<stem>.<ext>`. -/
def CertFile.name (file : CertFile) : String := file.purpose.stem ++ "." ++ file.ext

/-! ## The script -/

/-- The directory after the deletions, and `DELETED`. -/
structure Cleared where
  dir : List CertFile
  deleted : ℕ

/-- Removes what the test selects, and counts it. -/
def Cleared.remove (cleared : Cleared) (selects : CertFile → Bool) : Cleared where
  dir := cleared.dir.filter (!selects ·)
  deleted := cleared.deleted + cleared.dir.countP selects

def defaultFiles : List String := ["takserver.jks", "takserver.pem", "takserver.p12"]

/-- Section `Delete server certs`. -/
def deleteServerCerts (oldAddress : String) (dir : List CertFile) : Cleared :=
  let cleared := (Cleared.mk dir 0).remove fun file => file.name ∈ defaultFiles
  if oldAddress ≠ "" then cleared.remove fun file => fitsStar (oldAddress ++ ".") "" file.name
  else cleared

/-- A run of `reconfig.sh` against a certificate directory. -/
def reconfig (sed : Env.Sed) (env address mode : List Char) (dir : List CertFile) :
    List CertFile :=
  match Env.reconfig sed env address mode with
  | .reported _ => (deleteServerCerts (String.ofList (Env.envGet env Env.serverAddress)) dir).dir
  | _ => dir

/-! ## What it promises -/

/-- Only the default server certificate and that of the old address go, and nothing that is to be
preserved. -/
def Spares (oldAddress : String) (dir after : List CertFile) : Prop :=
  ∀ file ∈ dir, file ∉ after →
    (file.name ∈ defaultFiles ∨ file.purpose = .server oldAddress) ∧ ¬ file.purpose.isPreserved

/-- The old address is the stem of the file, or the stem goes on from it after a dot, or the
address goes on from the stem into an extension that has dots itself. -/
def Collides (address : String) (file : CertFile) : Prop :=
  address = file.purpose.stem ∨ (address ++ ".").toList <+: file.purpose.stem.toList ∨
    ∃ head, address = file.purpose.stem ++ "." ++ head ∧ (head ++ ".").toList <+: file.ext.toList

/-! ## The pattern -/

/-- One dotted text begins another. -/
theorem dotted_prefix_iff {lead stem ext : List Char} :
    lead ++ ['.'] <+: stem ++ '.' :: ext ↔
      lead = stem ∨ lead ++ ['.'] <+: stem ∨
        ∃ head, lead = stem ++ '.' :: head ∧ head ++ ['.'] <+: ext := by
  constructor
  · intro h
    rcases List.prefix_or_prefix_of_prefix h (List.prefix_append stem _) with hshort | hlong
    · exact Or.inr (Or.inl hshort)
    · rcases List.prefix_concat_iff.mp hlong with heq | ⟨rest, hrest⟩
      · exact Or.inr (Or.inl (heq ▸ List.prefix_rfl))
      · subst hrest
        rw [List.append_assoc, List.prefix_append_right_inj] at h
        cases rest with
        | nil => exact Or.inl (List.append_nil _)
        | cons c head =>
            rw [List.cons_append, List.cons_prefix_cons] at h
            exact Or.inr (Or.inr ⟨head, by rw [h.1], h.2⟩)
  · rintro (rfl | h | ⟨head, rfl, h⟩)
    · exact ⟨ext, by simp⟩
    · exact h.trans (List.prefix_append _ _)
    · rw [List.append_assoc, List.prefix_append_right_inj, List.cons_append,
        List.cons_prefix_cons]
      exact ⟨rfl, h⟩

theorem toList_name (file : CertFile) :
    file.name.toList = file.purpose.stem.toList ++ '.' :: file.ext.toList := by
  simp [CertFile.name, String.toList_append]

theorem fitsStar_name_iff (address : String) (file : CertFile) :
    fitsStar (address ++ ".") "" file.name ↔ Collides address file := by
  have hdot : ∀ text : String, (text ++ ".").toList = text.toList ++ ['.'] := fun text =>
    String.toList_append
  have hfits : fitsStar (address ++ ".") "" file.name ↔
      (address ++ ".").toList <+: file.name.toList := by
    simp [fitsStar]
  rw [hfits, toList_name, hdot, dotted_prefix_iff, Collides, hdot, String.toList_inj]
  apply or_congr_right
  apply or_congr_right
  constructor
  · rintro ⟨head, haddress, hhead⟩
    refine ⟨String.ofList head, String.toList_inj.mp ?_, ?_⟩
    · simpa [String.toList_append] using haddress
    · simpa [String.toList_append] using hhead
  · rintro ⟨head, rfl, hhead⟩
    exact ⟨head.toList, by simp [String.toList_append], by rwa [hdot] at hhead⟩

/-! ## The default certificate -/

/-- A text with one dot is split at it in one way only. -/
theorem stem_of_dotted {stem ext lead tail : List Char} (hlead : '.' ∉ lead) (htail : '.' ∉ tail)
    (h : stem ++ '.' :: ext = lead ++ '.' :: tail) : stem = lead := by
  rcases List.append_eq_append_iff.mp h with ⟨rest, rfl, hrest⟩ | ⟨rest, rfl, hrest⟩
  · cases rest with
    | nil => simp
    | cons c rest =>
        rw [List.cons_append, List.cons.injEq] at hrest
        exact absurd (by simp [← hrest.1]) hlead
  · cases rest with
    | nil => simp
    | cons c rest =>
        rw [List.cons_append, List.cons.injEq] at hrest
        exact absurd (by simp [hrest.2]) htail

theorem dotted_default {name : String} (h : name ∈ defaultFiles) {stem ext : List Char}
    (hname : name.toList = stem ++ '.' :: ext) : stem = "takserver".toList := by
  have hcases : ∃ tail ∈ ["jks", "pem", "p12"], name = "takserver" ++ "." ++ tail := by
    simpa [defaultFiles] using h
  obtain ⟨tail, htail, rfl⟩ := hcases
  have hplain : '.' ∉ tail.toList := by
    simp only [List.mem_cons, List.not_mem_nil, or_false] at htail
    rcases htail with rfl | rfl | rfl <;> decide
  apply stem_of_dotted (by decide) hplain
  rw [← hname]
  simp [String.toList_append]

theorem stem_of_default {file : CertFile} (h : file.name ∈ defaultFiles) :
    file.purpose.stem = "takserver" :=
  String.toList_inj.mp (dotted_default h (toList_name file))

/-- The default certificate is no certificate that is preserved. -/
theorem not_preserved_of_default {file : CertFile} (h : file.name ∈ defaultFiles) :
    ¬ file.purpose.isPreserved := by
  have hstem := stem_of_default h
  have haccepted := file.accepted
  cases hpurpose : file.purpose with
  | authority stem =>
      rw [hpurpose] at hstem haccepted
      obtain rfl : stem = "takserver" := hstem
      exact absurd haccepted (by decide)
  | service name =>
      rw [hpurpose] at hstem
      have hsvc := svc_prefix_serviceUsername name
      rw [show serviceUsername name = "takserver" from hstem] at hsvc
      exact absurd hsvc (by decide)
  | user username name =>
      rw [hpurpose] at hstem
      have hdash : '-' ∈ "takserver".toList := by
        rw [← hstem]
        simp [Purpose.stem, userStem, String.toList_append]
      exact absurd hdash (by decide)
  | server address => exact Bool.false_ne_true

/-! ## The deletions -/

theorem mem_remove {cleared : Cleared} {selects : CertFile → Bool} {file : CertFile} :
    file ∈ (cleared.remove selects).dir ↔ file ∈ cleared.dir ∧ ¬ selects file := by
  simp [Cleared.remove]

/-- The count is that of the files that are gone. -/
theorem deleted_remove (cleared : Cleared) (selects : CertFile → Bool) :
    (cleared.remove selects).deleted + (cleared.remove selects).dir.length =
      cleared.deleted + cleared.dir.length := by
  have hsplit := List.length_eq_countP_add_countP selects (l := cleared.dir)
  have hrest : cleared.dir.countP (fun file => decide ¬ selects file) =
      (cleared.dir.filter (!selects ·)).length := by
    rw [List.countP_eq_length_filter]
    simp
  change cleared.deleted + cleared.dir.countP selects + (cleared.dir.filter (!selects ·)).length = _
  omega

theorem deleted_deleteServerCerts (oldAddress : String) (dir : List CertFile) :
    (deleteServerCerts oldAddress dir).deleted + (deleteServerCerts oldAddress dir).dir.length =
      dir.length := by
  rw [deleteServerCerts]
  split_ifs
  · rw [deleted_remove, deleted_remove, Nat.zero_add]
  · rw [deleted_remove, Nat.zero_add]

theorem mem_deleteServerCerts {oldAddress : String} (hold : oldAddress ≠ "")
    {dir : List CertFile} {file : CertFile} :
    file ∈ (deleteServerCerts oldAddress dir).dir ↔
      file ∈ dir ∧ file.name ∉ defaultFiles ∧ ¬ Collides oldAddress file := by
  rw [deleteServerCerts, if_pos hold, mem_remove, mem_remove, fitsStar_name_iff,
    decide_eq_true_iff, and_assoc]

/-- **What is deleted.**  Only server certificates go if and only if no other file of the
directory collides with the old address. -/
theorem deleteServerCerts_spares_iff (oldAddress : String)
    (hold : Purpose.acceptsAddress oldAddress) (dir : List CertFile) :
    Spares oldAddress dir (deleteServerCerts oldAddress dir).dir ↔
      ∀ file ∈ dir, file.purpose ≠ .server oldAddress → ¬ Collides oldAddress file := by
  have hne : oldAddress ≠ "" := by
    rintro rfl
    exact absurd hold (by decide)
  constructor
  · intro hspares file hfile hpurpose hcollides
    have hgone : file ∉ (deleteServerCerts oldAddress dir).dir := fun h =>
      ((mem_deleteServerCerts hne).mp h).2.2 hcollides
    obtain ⟨hdefault | hserver, hpreserved⟩ := hspares file hfile hgone
    · -- The address is `takserver` as well, so the file is of its certificate after all.
      have hstem := stem_of_default hdefault
      have haddress : oldAddress = "takserver" := by
        obtain ⟨rest, hrest⟩ : (oldAddress ++ ".").toList <+: file.name.toList := by
          simpa [fitsStar] using (fitsStar_name_iff oldAddress file).mpr hcollides
        apply String.toList_inj.mp
        apply dotted_default hdefault
        rw [← hrest, String.toList_append, List.append_assoc]
        rfl
      cases hcase : file.purpose with
      | server address =>
          rw [hcase] at hstem hpurpose
          exact hpurpose (congrArg Purpose.server (hstem.trans haddress.symm))
      | authority _ | service _ | user _ _ =>
          rw [hcase] at hpreserved
          exact hpreserved rfl
    · exact hpurpose hserver
  · intro hclear file hfile hgone
    have hcases : file.name ∈ defaultFiles ∨ Collides oldAddress file := by
      by_contra hnone
      push Not at hnone
      exact hgone ((mem_deleteServerCerts hne).mpr ⟨hfile, hnone.1, hnone.2⟩)
    by_cases hpurpose : file.purpose = .server oldAddress
    · exact ⟨Or.inr hpurpose, by rw [hpurpose]; exact Bool.false_ne_true⟩
    · have hdefault := hcases.resolve_right (hclear file hfile hpurpose)
      exact ⟨Or.inl hdefault, not_preserved_of_default hdefault⟩

/-- A run that gets as far as deleting, with what it read from `.env` before it wrote there. -/
theorem reconfig_spares {sed : Env.Sed} {env address mode : List Char} {dir : List CertFile}
    (hold : Purpose.acceptsAddress (String.ofList (Env.envGet env Env.serverAddress)))
    (hclear : ∀ file ∈ dir,
      file.purpose ≠ .server (String.ofList (Env.envGet env Env.serverAddress)) →
        ¬ Collides (String.ofList (Env.envGet env Env.serverAddress)) file) :
    Spares (String.ofList (Env.envGet env Env.serverAddress)) dir
      (reconfig sed env address mode dir) := by
  rw [reconfig]
  split
  · exact (deleteServerCerts_spares_iff _ hold dir).mpr hclear
  · intro file hfile hgone
    exact absurd hfile hgone

/-- No short address is safe: there is a user name that it takes along. -/
theorem exists_user_collides {address : String} (haccepts : Purpose.acceptsAddress address)
    (hlength : address.length ≤ 62) :
    ∃ file : CertFile, file.purpose.isPreserved ∧ Collides address file := by
  have hchars : ∀ c ∈ address.toList, isNameChar c := by
    simpa [Purpose.acceptsAddress] using (Bool.and_eq_true_iff.mp haccepts).2
  have huser : acceptsUsername (address ++ ".a") := by
    have hlong : (address ++ ".a").length ≤ 64 := by
      rw [String.length_append]
      exact Nat.add_le_add_right hlength 2
    have hmatches : matchesName (address ++ ".a") := by
      apply (matchesName_iff _).mpr
      use address.toList ++ ['.', 'a']
      refine ⟨by simp, ?_, Or.inl (by simp [String.toList_append])⟩
      intro c hc
      rcases List.mem_append.mp hc with hc | hc
      · exact hchars c hc
      · obtain rfl | rfl : c = '.' ∨ c = 'a' := by simpa using hc
        · decide
        · decide
    rw [acceptsUsername, hmatches, Bool.true_and, decide_eq_true_iff]
    exact hlong
  have haccepted : (Purpose.user (address ++ ".a") "b").accepted := by
    rw [Purpose.accepted, huser, Bool.true_and]
    decide
  use ⟨.user (address ++ ".a") "b", haccepted, "pem"⟩
  refine ⟨rfl, Or.inr (Or.inl ?_)⟩
  use ['a', '-', 'b']
  simp [Purpose.stem, userStem, String.toList_append]

/-! ## A stack at `tak` -/

def authorityFile : CertFile := ⟨.authority "ca", by decide, "pem"⟩

def defaultFile : CertFile := ⟨.server "takserver", by decide, "jks"⟩

def addressFile : CertFile := ⟨.server "tak", by decide, "jks"⟩

/-- The phone of the user `tak.admin`. -/
def adminFile : CertFile := ⟨.user "tak.admin" "phone", by decide, "p12"⟩

theorem deleteServerCerts_spares_authority :
    Spares "tak" [authorityFile, defaultFile, addressFile]
      (deleteServerCerts "tak" [authorityFile, defaultFile, addressFile]).dir := by
  apply (deleteServerCerts_spares_iff "tak" (by decide) _).mpr
  intro file hfile hpurpose
  rw [← fitsStar_name_iff]
  simp only [List.mem_cons, List.not_mem_nil, or_false] at hfile
  rcases hfile with rfl | rfl | rfl
  · decide
  · decide
  · exact absurd rfl hpurpose

/-- The certificate of a user goes with the old address. -/
theorem deleteServerCerts_user :
    ¬ Spares "tak" [authorityFile, adminFile, addressFile]
      (deleteServerCerts "tak" [authorityFile, adminFile, addressFile]).dir := by
  intro hspares
  have hgone : adminFile ∉
      (deleteServerCerts "tak" [authorityFile, adminFile, addressFile]).dir := by decide
  exact (hspares adminFile (by decide) hgone).2 rfl

end FastTAK.Reconfig
