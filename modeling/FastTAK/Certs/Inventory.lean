import FastTAK.Base.Lowering
import FastTAK.Base.OuterJoin
import FastTAK.Certs.Ownership

/-!
# The certificates of a user

`list_user_certs` joins the bundles on disk with the rows of certadmin by the SHA-256 of the
certificates.  Of either side it knows in its own way what is revoked.
-/

namespace FastTAK.Certs

open FastTAK.Text FastTAK.Api FastTAK.Naming

/-- What openssl and Python make of texts: the fingerprint and the end of a certificate as
openssl prints them, the latter as an ISO date, and `str.lower`. -/
structure Printing where
  fingerprint : Certificate → String
  expiry : Certificate → Option String
  lowering : Lowering

/-- An entry of the answer. -/
structure CertEntry where
  name : Option String
  downloadable : Bool
  revoked : Bool
  certId : Option ℤ
  expirationDate : Option String
  deriving DecidableEq, Repr

section Listing

variable (printing : Printing) (readable : Bool) (username : String) (s : Pki)
  (takCerts : List CertadminCert)

/-- `_normalize_hash(h)`. -/
def normalizeHash (h : String) : String :=
  String.ofList (printing.lowering.lower (h.toList.filter (· ≠ ':')))

/-- `tak_by_hash`: the last row of a hash replaces those before it. -/
def takByHash (h : String) : Option CertadminCert :=
  takCerts.reverse.find? fun c => c.hash ≠ "" ∧ normalizeHash printing c.hash = h

/-- `_compute_cert_hash(pem_path)`. -/
def fileHash (stem : String) : Option String :=
  (s.certOf stem).map fun cert => normalizeHash printing (printing.fingerprint cert)

/-- The bundles in the order of their paths. -/
def sortedBundles : List String :=
  (listedBundles username s.fileNames).mergeSort fun a b => a ≤ b

/-- The hash under which the loop matches a bundle, with the row. -/
def matchedCert (stem : String) : Option (String × CertadminCert) :=
  match fileHash printing s stem with
  | none => none
  | some h => if h = "" then none else (takByHash printing takCerts h).map fun c => (h, c)

/-- The body of the loop over the bundles. -/
def diskEntry (bundle : String) : CertEntry :=
  let stem := removeSuffix bundle ".p12"
  let isRevoked := isRevokedOnDisk readable stem s
  let entry : CertEntry :=
    { name := some (String.ofList (stem.toList.drop (username ++ "-").length))
      downloadable := !isRevoked
      revoked := isRevoked
      certId := none
      expirationDate := (s.certOf stem).bind printing.expiry }
  match matchedCert printing s takCerts stem with
  | none => entry
  | some (_, takCert) =>
      { entry with
        certId := some takCert.id
        revoked := takCert.revocationDate.isSome
        expirationDate := takCert.expirationDate }

/-- `matched_hashes` after the loop. -/
def matchedHashes : List String :=
  (sortedBundles username s).filterMap fun bundle =>
    (matchedCert printing s takCerts (removeSuffix bundle ".p12")).map Prod.fst

/-- The entry of a row without a file. -/
def serverEntry (takCert : CertadminCert) : CertEntry where
  name := none
  downloadable := false
  revoked := takCert.revocationDate.isSome
  certId := some takCert.id
  expirationDate := takCert.expirationDate

/-- The rows that the second loop adds. -/
def serverCerts : List CertadminCert :=
  takCerts.filter fun c => normalizeHash printing c.hash ≠ "" ∧
    normalizeHash printing c.hash ∉ matchedHashes printing username s takCerts

/-- `list_user_certs` once it has the user and the rows of certadmin. -/
def unifiedCerts : List CertEntry :=
  (sortedBundles username s).map (diskEntry printing readable username s takCerts) ++
    (serverCerts printing username s takCerts).map serverEntry

/-! ## Which certificate an entry is about -/

/-- What tells certificates apart: the hash, or else where they come from. -/
inductive CertKey where
  | hash (h : String)
  | file (bundle : String)
  | row (id : ℤ)
  deriving DecidableEq, Repr

def diskKey (bundle : String) : CertKey :=
  match fileHash printing s (removeSuffix bundle ".p12") with
  | none => .file bundle
  | some h => if h = "" then .file bundle else .hash h

def rowKey (takCert : CertadminCert) : CertKey :=
  if normalizeHash printing takCert.hash = "" then .row takCert.id
  else .hash (normalizeHash printing takCert.hash)

/-- The answer with the certificates its entries were made for. -/
def keyedCerts : List (CertKey × CertEntry) :=
  (sortedBundles username s).map
    (fun bundle => (diskKey printing s bundle,
      diskEntry printing readable username s takCerts bundle)) ++
    (serverCerts printing username s takCerts).map
      fun takCert => (rowKey printing takCert, serverEntry takCert)

theorem keyedCerts_snd :
    (keyedCerts printing readable username s takCerts).map Prod.snd =
      unifiedCerts printing readable username s takCerts := by
  rw [keyedCerts, unifiedCerts, List.map_append, List.map_map, List.map_map]
  rfl

/-- The revocation list has the serial of the certificate, or certadmin dates its revocation. -/
def IsRevoked (key : CertKey) : Prop :=
  (∃ bundle ∈ listedBundles username s.fileNames, diskKey printing s bundle = key ∧
    isRevokedOnDisk readable (removeSuffix bundle ".p12") s) ∨
  ∃ takCert ∈ takCerts, rowKey printing takCert = key ∧
    (takCert.revocationDate.isSome ∨ takCert.serialNumber ∈ revokedSerials readable s)

/-- `download_user_cert` serves the name of the entry. -/
def Served (entry : CertEntry) : Prop :=
  ∃ name f, entry.name = some name ∧ downloadUserCert readable username name s = .ok f

/-- The answer has one entry for each certificate, with its status. -/
structure ExactInventory : Prop where
  once : ((keyedCerts printing readable username s takCerts).map Prod.fst).Nodup
  complete : ∀ key, key ∈ (keyedCerts printing readable username s takCerts).map Prod.fst ↔
    (∃ bundle ∈ listedBundles username s.fileNames, diskKey printing s bundle = key) ∨
      ∃ takCert ∈ takCerts, rowKey printing takCert = key
  revoked : ∀ p ∈ keyedCerts printing readable username s takCerts,
    p.2.revoked ↔ IsRevoked printing readable username s takCerts p.1
  downloadable : ∀ p ∈ keyedCerts printing readable username s takCerts,
    p.2.downloadable ↔ Served readable username s p.2

/-! ## When the answer is exact -/

/-- The last row with the key. -/
def LastRow (key : CertKey) (takCert : CertadminCert) : Prop :=
  ∃ front back, takCerts = front ++ takCert :: back ∧ rowKey printing takCert = key ∧
    ∀ later ∈ back, rowKey printing later ≠ key

/-- The rows of certificates that no bundle has. -/
def remoteCerts : List CertadminCert :=
  OuterJoin.unmatched (diskKey printing s) (rowKey printing)
    (listedBundles username s.fileNames) takCerts

/-- Every row has a hash.  No two bundles hold one certificate, nor do two rows without a bundle.
The last row of a bundle's hash knows of a revocation that the list or another row of the hash
knows of, and so does a row without a bundle.  Every bundle not revoked has a name that can be
asked for. -/
structure Unambiguous : Prop where
  hashed : ∀ takCert ∈ takCerts, normalizeHash printing takCert.hash ≠ ""
  files : ((listedBundles username s.fileNames).map (diskKey printing s)).Nodup
  rows : ((remoteCerts printing username s takCerts).map (rowKey printing)).Nodup
  last : ∀ bundle ∈ listedBundles username s.fileNames, ∀ takCert,
    LastRow printing takCerts (diskKey printing s bundle) takCert →
    (isRevokedOnDisk readable (removeSuffix bundle ".p12") s ∨
      ∃ other ∈ takCerts, rowKey printing other = diskKey printing s bundle ∧
        (other.revocationDate.isSome ∨ other.serialNumber ∈ revokedSerials readable s)) →
    takCert.revocationDate.isSome
  remote : ∀ takCert ∈ remoteCerts printing username s takCerts,
    takCert.serialNumber ∈ revokedSerials readable s → takCert.revocationDate.isSome
  names : ∀ name, userStem username name ++ ".p12" ∈ s.fileNames →
    ¬ isRevokedOnDisk readable (userStem username name) s → matchesName name

end Listing

section Proof

variable {printing : Printing} {readable : Bool} {username : String} {s : Pki}
  {takCerts : List CertadminCert}

theorem normalizeHash_empty : normalizeHash printing "" = "" := by
  rw [normalizeHash]
  change String.ofList (printing.lowering.lower []) = ""
  rw [printing.lowering.nil]

theorem rowKey_eq_hash_iff {takCert : CertadminCert} {h : String} (hne : h ≠ "") :
    rowKey printing takCert = .hash h ↔ normalizeHash printing takCert.hash = h := by
  rw [rowKey]
  split_ifs with hempty
  · rw [hempty]
    exact iff_of_false id hne.symm
  · exact CertKey.hash.injEq _ _ ▸ Iff.rfl

theorem diskKey_eq_hash_iff {bundle h : String} :
    diskKey printing s bundle = .hash h ↔
      h ≠ "" ∧ fileHash printing s (removeSuffix bundle ".p12") = some h := by
  rw [diskKey]
  cases hhash : fileHash printing s (removeSuffix bundle ".p12") with
  | none => simp
  | some h' =>
      dsimp only
      split_ifs with hempty
      · simp only [Option.some.injEq, false_iff, not_and]
        rintro hne rfl
        exact hne hempty
      · simp only [CertKey.hash.injEq, Option.some.injEq]
        constructor
        · rintro rfl
          exact ⟨hempty, rfl⟩
        · exact And.right

theorem diskKey_ne_row {bundle : String} {id : ℤ} : diskKey printing s bundle ≠ .row id := by
  rw [diskKey]
  cases fileHash printing s (removeSuffix bundle ".p12") with
  | none => exact CertKey.noConfusion
  | some h =>
      dsimp only
      split_ifs
      · exact CertKey.noConfusion
      · exact CertKey.noConfusion

theorem rowKey_ne_file {takCert : CertadminCert} {bundle : String} :
    rowKey printing takCert ≠ .file bundle := by
  rw [rowKey]
  split_ifs
  · exact CertKey.noConfusion
  · exact CertKey.noConfusion

theorem lastRow_iff {key : CertKey} {takCert : CertadminCert} :
    LastRow printing takCerts key takCert ↔
      takCerts.reverse.find? (fun c => rowKey printing c = key) = some takCert := by
  rw [List.find?_eq_some_iff_append]
  simp only [decide_eq_true_eq, Bool.not_eq_true', decide_eq_false_iff_not]
  constructor
  · rintro ⟨front, back, rfl, hkey, hlater⟩
    refine ⟨hkey, back.reverse, front.reverse, by simp, ?_⟩
    simpa using hlater
  · rintro ⟨hkey, back, front, hsplit, hlater⟩
    refine ⟨front.reverse, back.reverse, ?_, hkey, by simpa using hlater⟩
    rw [← List.reverse_inj, hsplit]
    simp

theorem takByHash_eq_some_iff {h : String} (hne : h ≠ "") {takCert : CertadminCert} :
    takByHash printing takCerts h = some takCert ↔
      LastRow printing takCerts (.hash h) takCert := by
  have hsame : ∀ c : CertadminCert,
      (c.hash ≠ "" ∧ normalizeHash printing c.hash = h) ↔ rowKey printing c = .hash h := by
    intro c
    rw [rowKey_eq_hash_iff hne]
    constructor
    · exact And.right
    · intro hhash
      refine ⟨?_, hhash⟩
      intro hempty
      rw [hempty, normalizeHash_empty] at hhash
      exact hne hhash.symm
  rw [lastRow_iff, takByHash]
  simp only [hsame]

theorem exists_lastRow {key : CertKey} (hrow : ∃ c ∈ takCerts, rowKey printing c = key) :
    ∃ takCert, LastRow printing takCerts key takCert := by
  obtain ⟨c, hc, hkey⟩ := hrow
  have hsome : (takCerts.reverse.find? (fun c => rowKey printing c = key)).isSome := by
    rw [List.find?_isSome]
    exact ⟨c, List.mem_reverse.mpr hc, by simpa using hkey⟩
  obtain ⟨takCert, hfind⟩ := Option.isSome_iff_exists.mp hsome
  exact ⟨takCert, lastRow_iff.mpr hfind⟩

theorem LastRow.mem {key : CertKey} {takCert : CertadminCert}
    (hlast : LastRow printing takCerts key takCert) :
    takCert ∈ takCerts ∧ rowKey printing takCert = key := by
  obtain ⟨front, back, rfl, hkey, -⟩ := hlast
  exact ⟨by simp, hkey⟩

/-- The loop matches a bundle with the last row of its hash. -/
theorem matchedCert_eq_some_iff {bundle h : String} {takCert : CertadminCert} :
    matchedCert printing s takCerts (removeSuffix bundle ".p12") = some (h, takCert) ↔
      diskKey printing s bundle = .hash h ∧
        LastRow printing takCerts (diskKey printing s bundle) takCert := by
  rw [matchedCert]
  cases hhash : fileHash printing s (removeSuffix bundle ".p12") with
  | none =>
      have hkey : diskKey printing s bundle ≠ .hash h := by
        intro hkey
        rw [diskKey_eq_hash_iff, hhash] at hkey
        cases hkey.2
      exact iff_of_false (by simp) fun hboth => hkey hboth.1
  | some h' =>
      dsimp only
      split_ifs with hempty
      · have hkey : diskKey printing s bundle ≠ .hash h := by
          intro hkey
          rw [diskKey_eq_hash_iff, hhash, hempty] at hkey
          exact hkey.1 (Option.some.inj hkey.2).symm
        exact iff_of_false (by simp) fun hboth => hkey hboth.1
      · have hkey : diskKey printing s bundle = .hash h' :=
          diskKey_eq_hash_iff.mpr ⟨hempty, hhash⟩
        simp only [Option.map_eq_some_iff, Prod.mk.injEq, hkey, takByHash_eq_some_iff hempty,
          CertKey.hash.injEq]
        constructor
        · rintro ⟨c, hlast, rfl, rfl⟩
          exact ⟨rfl, hlast⟩
        · rintro ⟨rfl, hlast⟩
          exact ⟨takCert, hlast, rfl, rfl⟩

/-- The hashes matched are those that a bundle and a row have. -/
theorem mem_matchedHashes_iff {h : String} :
    h ∈ matchedHashes printing username s takCerts ↔
      .hash h ∈ (listedBundles username s.fileNames).map (diskKey printing s) ∧
        ∃ takCert ∈ takCerts, rowKey printing takCert = .hash h := by
  have hperm : ∀ bundle, bundle ∈ sortedBundles username s ↔
      bundle ∈ listedBundles username s.fileNames := fun bundle =>
    (List.mergeSort_perm _ _).mem_iff
  simp only [matchedHashes, List.mem_filterMap, Option.map_eq_some_iff, Prod.exists,
    exists_and_right, exists_eq_right, matchedCert_eq_some_iff, List.mem_map, hperm]
  constructor
  · rintro ⟨bundle, hbundle, takCert, hkey, hlast⟩
    obtain ⟨hmem, hrow⟩ := hlast.mem
    exact ⟨⟨bundle, hbundle, hkey⟩, takCert, hmem, hrow.trans hkey⟩
  · rintro ⟨⟨bundle, hbundle, hkey⟩, hrow⟩
    rw [← hkey] at hrow
    obtain ⟨takCert, hlast⟩ := exists_lastRow hrow
    exact ⟨bundle, hbundle, takCert, hkey, hlast⟩

theorem sortedBundles_perm (username : String) (s : Pki) :
    (sortedBundles username s).Perm (listedBundles username s.fileNames) :=
  List.mergeSort_perm _ _

/-- The rows that are added are those with a hash that no bundle has. -/
theorem serverCerts_eq :
    serverCerts printing username s takCerts = remoteCerts printing username s
      (takCerts.filter fun c => normalizeHash printing c.hash ≠ "") := by
  rw [serverCerts, remoteCerts, OuterJoin.unmatched, List.filter_filter]
  apply List.filter_congr
  intro c hc
  rw [Bool.eq_iff_iff]
  simp only [decide_eq_true_eq, Bool.and_eq_true, mem_matchedHashes_iff]
  by_cases hempty : normalizeHash printing c.hash = ""
  · simp [hempty]
  · have hkey : rowKey printing c = .hash (normalizeHash printing c.hash) := if_neg hempty
    rw [hkey]
    constructor
    · rintro ⟨-, hnot⟩
      exact ⟨fun hmem => hnot ⟨hmem, c, hc, hkey⟩, hempty⟩
    · rintro ⟨hnot, -⟩
      exact ⟨hempty, fun hmem => hnot hmem.1⟩

/-- The keys of the answer are those of the join. -/
theorem keyedCerts_fst :
    ((keyedCerts printing readable username s takCerts).map Prod.fst).Perm
      (OuterJoin.keys (diskKey printing s) (rowKey printing)
        (listedBundles username s.fileNames)
        (takCerts.filter fun c => normalizeHash printing c.hash ≠ "")) := by
  rw [keyedCerts, List.map_append, List.map_map, List.map_map, serverCerts_eq]
  exact ((sortedBundles_perm username s).map _).append_right _

theorem mem_keyedCerts_iff {p : CertKey × CertEntry} :
    p ∈ keyedCerts printing readable username s takCerts ↔
      (∃ bundle ∈ listedBundles username s.fileNames, (diskKey printing s bundle,
        diskEntry printing readable username s takCerts bundle) = p) ∨
      ∃ c ∈ remoteCerts printing username s
        (takCerts.filter fun c => normalizeHash printing c.hash ≠ ""),
        (rowKey printing c, serverEntry c) = p := by
  rw [keyedCerts, List.mem_append, List.mem_map, List.mem_map, serverCerts_eq]
  simp only [(sortedBundles_perm username s).mem_iff]

/-! ### Entries -/

/-- What the loop makes of the revocation of a bundle. -/
theorem diskEntry_revoked (bundle : String) :
    (diskEntry printing readable username s takCerts bundle).revoked =
      match matchedCert printing s takCerts (removeSuffix bundle ".p12") with
      | none => isRevokedOnDisk readable (removeSuffix bundle ".p12") s
      | some (_, takCert) => takCert.revocationDate.isSome := by
  rw [diskEntry]
  cases matchedCert printing s takCerts (removeSuffix bundle ".p12") with
  | none => rfl
  | some matched => rfl

theorem diskEntry_downloadable (bundle : String) :
    (diskEntry printing readable username s takCerts bundle).downloadable =
      !isRevokedOnDisk readable (removeSuffix bundle ".p12") s := by
  rw [diskEntry]
  cases matchedCert printing s takCerts (removeSuffix bundle ".p12") with
  | none => rfl
  | some matched => rfl

theorem diskEntry_name (name : String) :
    (diskEntry printing readable username s takCerts
      (userStem username name ++ ".p12")).name = some name := by
  have hdrop : String.ofList ((userStem username name).toList.drop (username ++ "-").length) =
      name := by
    rw [userStem, String.toList_append, ← String.length_toList, List.drop_left,
      String.ofList_toList]
  rw [diskEntry, removeSuffix_append]
  cases matchedCert printing s takCerts (userStem username name) with
  | none => exact congrArg some hdrop
  | some matched => exact congrArg some hdrop

/-- Up to their order, the bundles are those that the endpoint scans. -/
theorem scanBundles_perm :
    ((sortedBundles username s).map fun bundle =>
      ((diskEntry printing readable username s takCerts bundle).name,
        (diskEntry printing readable username s takCerts bundle).downloadable)).Perm
      ((scanBundles readable username s).map fun entry =>
        (some entry.name, entry.downloadable)) := by
  have hentry : ∀ bundle, ((diskEntry printing readable username s takCerts bundle).name,
      (diskEntry printing readable username s takCerts bundle).downloadable) =
      (some (String.ofList ((removeSuffix bundle ".p12").toList.drop (username ++ "-").length)),
        !isRevokedOnDisk readable (removeSuffix bundle ".p12") s) := by
    intro bundle
    rw [diskEntry_downloadable, diskEntry]
    cases matchedCert printing s takCerts (removeSuffix bundle ".p12") with
    | none => rfl
    | some matched => rfl
  rw [scanBundles, List.map_map]
  simp only [hentry]
  exact (sortedBundles_perm username s).map _

/-- A bundle of the list is there under the name of its entry. -/
theorem exists_name_of_mem {bundle : String}
    (hbundle : bundle ∈ listedBundles username s.fileNames) :
    ∃ name, bundle = userStem username name ++ ".p12" ∧ bundle ∈ s.fileNames := by
  obtain ⟨hmem, hfits⟩ := List.mem_filter.mp hbundle
  obtain ⟨middle, rfl⟩ := (fitsStar_iff _ _ _).mp hfits
  exact ⟨middle, rfl, hmem⟩

/-- The bundle is served if it has a proper name and is not revoked. -/
theorem served_iff {name : String} {entry : CertEntry} (hname : entry.name = some name)
    (hfile : userStem username name ++ ".p12" ∈ s.fileNames) :
    Served readable username s entry ↔
      matchesName name ∧ ¬ isRevokedOnDisk readable (userStem username name) s := by
  obtain ⟨f, hf⟩ := (s.mem_fileNames_iff _).mp hfile
  have hdownload : (∃ g, downloadUserCert readable username name s = .ok g) ↔
      matchesName name ∧ ¬ isRevokedOnDisk readable (userStem username name) s := by
    rw [downloadUserCert, hf]
    dsimp only
    split_ifs with hmatches hrevoked
    · simp [hmatches, hrevoked]
    · simp [hmatches, hrevoked]
    · simp [hmatches]
  rw [Served, hname, ← hdownload]
  simp

/-! ### Revocations -/

/-- A row with the key of a bundle has a hash, and the loop finds the last such row. -/
theorem matchedCert_of_lastRow {bundle : String} {takCert : CertadminCert}
    (hlast : LastRow printing takCerts (diskKey printing s bundle) takCert) :
    ∃ h, matchedCert printing s takCerts (removeSuffix bundle ".p12") = some (h, takCert) := by
  cases hkey : diskKey printing s bundle with
  | hash h => exact ⟨h, matchedCert_eq_some_iff.mpr ⟨hkey, hlast⟩⟩
  | file other => exact absurd (hlast.mem.2.trans hkey) rowKey_ne_file
  | row id => exact absurd hkey diskKey_ne_row

/-- Of a bundle that holds a certificate alone, the revocation is right exactly if the last row
of its hash has the last word. -/
theorem diskEntry_revoked_iff
    (hfiles : ((listedBundles username s.fileNames).map (diskKey printing s)).Nodup)
    {bundle : String} (hbundle : bundle ∈ listedBundles username s.fileNames) :
    ((diskEntry printing readable username s takCerts bundle).revoked ↔
      IsRevoked printing readable username s takCerts (diskKey printing s bundle)) ↔
    ∀ takCert, LastRow printing takCerts (diskKey printing s bundle) takCert →
      (isRevokedOnDisk readable (removeSuffix bundle ".p12") s ∨
        ∃ other ∈ takCerts, rowKey printing other = diskKey printing s bundle ∧
          (other.revocationDate.isSome ∨ other.serialNumber ∈ revokedSerials readable s)) →
      takCert.revocationDate.isSome := by
  have hrevoked : IsRevoked printing readable username s takCerts (diskKey printing s bundle) ↔
      (isRevokedOnDisk readable (removeSuffix bundle ".p12") s ∨
        ∃ other ∈ takCerts, rowKey printing other = diskKey printing s bundle ∧
          (other.revocationDate.isSome ∨ other.serialNumber ∈ revokedSerials readable s)) := by
    apply or_congr_left
    constructor
    · rintro ⟨other, hother, hsame, h⟩
      rwa [← List.inj_on_of_nodup_map hfiles hother hbundle hsame]
    · intro h
      exact ⟨bundle, hbundle, rfl, h⟩
  rw [hrevoked, diskEntry_revoked]
  cases hmatched : matchedCert printing s takCerts (removeSuffix bundle ".p12") with
  | none =>
      have hnone : ∀ takCert,
          ¬ LastRow printing takCerts (diskKey printing s bundle) takCert := by
        intro takCert hlast
        obtain ⟨h, hsome⟩ := matchedCert_of_lastRow hlast
        rw [hmatched] at hsome
        cases hsome
      have hrows : ¬ ∃ other ∈ takCerts, rowKey printing other = diskKey printing s bundle ∧
          (other.revocationDate.isSome ∨ other.serialNumber ∈ revokedSerials readable s) := by
        rintro ⟨other, hother, hkey, -⟩
        obtain ⟨takCert, hlast⟩ := exists_lastRow ⟨other, hother, hkey⟩
        exact hnone takCert hlast
      apply iff_of_true
      · exact (or_iff_left hrows).symm
      · exact fun takCert hlast => absurd hlast (hnone takCert)
  | some matched =>
      obtain ⟨h, takCert⟩ := matched
      have hlast := (matchedCert_eq_some_iff.mp hmatched).2
      constructor
      · intro hright other hother hknown
        have hsame : other = takCert := by
          rw [lastRow_iff] at hother hlast
          exact Option.some.inj (hother.symm.trans hlast)
        rw [hsame]
        exact hright.mpr hknown
      · intro hword
        constructor
        · intro hdate
          exact Or.inr ⟨takCert, hlast.mem.1, hlast.mem.2, Or.inl hdate⟩
        · exact hword takCert hlast

/-- Of a certificate in one row and no bundle, the revocation is right exactly if the row knows
of it. -/
theorem serverEntry_revoked_iff
    (hrows : ((remoteCerts printing username s takCerts).map (rowKey printing)).Nodup)
    {takCert : CertadminCert} (hremote : takCert ∈ remoteCerts printing username s takCerts) :
    ((serverEntry takCert).revoked ↔
      IsRevoked printing readable username s takCerts (rowKey printing takCert)) ↔
    (takCert.serialNumber ∈ revokedSerials readable s → takCert.revocationDate.isSome) := by
  obtain ⟨hmem, hnot⟩ := OuterJoin.mem_unmatched_iff.mp hremote
  have hrevoked : IsRevoked printing readable username s takCerts (rowKey printing takCert) ↔
      (takCert.revocationDate.isSome ∨ takCert.serialNumber ∈ revokedSerials readable s) := by
    constructor
    · rintro (⟨bundle, hbundle, hkey, -⟩ | ⟨other, hother, hkey, h⟩)
      · exact absurd (List.mem_map.mpr ⟨bundle, hbundle, hkey⟩) hnot
      · have hotherRemote : other ∈ remoteCerts printing username s takCerts := by
          apply OuterJoin.mem_unmatched_iff.mpr
          rw [hkey]
          exact ⟨hother, hnot⟩
        rwa [← List.inj_on_of_nodup_map hrows hotherRemote hremote hkey]
    · intro h
      exact Or.inr ⟨takCert, hmem, rfl, h⟩
  rw [hrevoked]
  change (takCert.revocationDate.isSome = true ↔ _) ↔ _
  constructor
  · intro hright hserial
    exact hright.mpr (Or.inr hserial)
  · intro hserial
    constructor
    · exact Or.inl
    · rintro (hdate | hlisted)
      · exact hdate
      · exact hserial hlisted

end Proof

/-- The list of a user's certificates is exact just if bundles and rows leave nothing open. -/
theorem unifiedCerts_exact_iff (printing : Printing) (readable : Bool) (username : String) (s : Pki)
    (takCerts : List CertadminCert) :
    ExactInventory printing readable username s takCerts ↔
      Unambiguous printing readable username s takCerts := by
  have hkeep : (∀ c ∈ takCerts, normalizeHash printing c.hash ≠ "") →
      (takCerts.filter fun c => normalizeHash printing c.hash ≠ "") = takCerts := by
    intro hhashed
    rw [List.filter_eq_self]
    exact fun c hc => decide_eq_true (hhashed c hc)
  constructor
  · intro hexact
    have hhashed : ∀ c ∈ takCerts, normalizeHash printing c.hash ≠ "" := by
      intro c hc hempty
      have hkey : rowKey printing c = .row c.id := if_pos hempty
      have hlisted := (hexact.complete (.row c.id)).mpr (Or.inr ⟨c, hc, hkey⟩)
      rw [keyedCerts_fst.mem_iff, OuterJoin.mem_keys_iff] at hlisted
      rcases hlisted with hdisk | hrow
      · obtain ⟨bundle, -, hbundle⟩ := List.mem_map.mp hdisk
        exact diskKey_ne_row hbundle
      · obtain ⟨other, hother, hsame⟩ := List.mem_map.mp hrow
        have hne : normalizeHash printing other.hash ≠ "" := by
          simpa using (List.mem_filter.mp hother).2
        rw [rowKey, if_neg hne] at hsame
        cases hsame
    have honce := hexact.once
    rw [keyedCerts_fst.nodup_iff, OuterJoin.nodup_keys_iff, hkeep hhashed] at honce
    obtain ⟨hfiles, hrows⟩ := honce
    refine ⟨hhashed, hfiles, hrows, ?_, ?_, ?_⟩
    · intro bundle hbundle
      apply (diskEntry_revoked_iff hfiles hbundle).mp
      exact hexact.revoked _ (mem_keyedCerts_iff.mpr (Or.inl ⟨bundle, hbundle, rfl⟩))
    · intro c hc
      apply (serverEntry_revoked_iff hrows hc).mp
      apply hexact.revoked (rowKey printing c, serverEntry c)
      rw [mem_keyedCerts_iff, hkeep hhashed]
      exact Or.inr ⟨c, hc, rfl⟩
    · intro name hfile hvalid
      have hbundle : userStem username name ++ ".p12" ∈ listedBundles username s.fileNames :=
        List.mem_filter.mpr ⟨hfile, (fitsStar_iff _ _ _).mpr ⟨name, rfl⟩⟩
      have hserved := hexact.downloadable _
        (mem_keyedCerts_iff.mpr (Or.inl ⟨_, hbundle, rfl⟩))
      dsimp only at hserved
      rw [served_iff (diskEntry_name name) hfile, diskEntry_downloadable,
        removeSuffix_append] at hserved
      exact (hserved.mp (by simpa using hvalid)).1
  · intro hclear
    have hfilter := hkeep hclear.hashed
    constructor
    · rw [keyedCerts_fst.nodup_iff, OuterJoin.nodup_keys_iff, hfilter]
      exact ⟨hclear.files, hclear.rows⟩
    · intro key
      rw [keyedCerts_fst.mem_iff, OuterJoin.mem_keys_iff, hfilter, List.mem_map, List.mem_map]
    · intro p hp
      rw [mem_keyedCerts_iff, hfilter] at hp
      rcases hp with ⟨bundle, hbundle, rfl⟩ | ⟨c, hc, rfl⟩
      · exact (diskEntry_revoked_iff hclear.files hbundle).mpr (hclear.last bundle hbundle)
      · exact (serverEntry_revoked_iff hclear.rows hc).mpr (hclear.remote c hc)
    · intro p hp
      rw [mem_keyedCerts_iff, hfilter] at hp
      rcases hp with ⟨bundle, hbundle, rfl⟩ | ⟨c, -, rfl⟩
      · obtain ⟨name, rfl, hfile⟩ := exists_name_of_mem hbundle
        dsimp only
        rw [served_iff (diskEntry_name name) hfile, diskEntry_downloadable, removeSuffix_append]
        constructor
        · intro hvalid
          have hnot : ¬ isRevokedOnDisk readable (userStem username name) s := by
            simpa using hvalid
          exact ⟨hclear.names name hfile hnot, hnot⟩
        · intro hboth
          simpa using hboth.2
      · apply iff_of_false Bool.noConfusion
        rintro ⟨name, f, hname, -⟩
        cases hname

/-! ## A revocation that certadmin has not heard of -/

/-- Fingerprints that show the serial. -/
def serialPrinting : Printing where
  fingerprint := fun cert => "AA:" ++ toString cert.serial
  expiry := fun _ => none
  lowering := asciiLowering

/-- A certificate of "kim" on disk, revoked. -/
def revokedPhone : Pki :=
  Pki.empty.writeFile "kim-phone.pem" (.certificate ⟨7, "kim", 365⟩) (.user "kim" "phone")
    |>.writeFile "kim-phone.p12" (.bundle ⟨7, "kim", 365⟩) (.user "kim" "phone")
    |>.mark 7
    |>.genCrl

/-- The row of the certificate, in which nothing is said of a revocation. -/
def phoneRow : CertadminCert where
  id := 3
  username := "kim"
  hash := "aa7"
  serialNumber := 7
  certificate := none
  expirationDate := none
  revocationDate := none
  honest := fun _ h => by cases h

/-- The row has the last word on a certificate in the revocation list. -/
theorem unifiedCerts_forgets_revocation :
    unifiedCerts serialPrinting true "kim" revokedPhone [phoneRow] =
        [⟨some "phone", false, false, some 3, none⟩] ∧
      isRevokedOnDisk true "kim-phone" revokedPhone ∧
      ¬ ExactInventory serialPrinting true "kim" revokedPhone [phoneRow] := by
  refine ⟨by decide +kernel, by decide +kernel, fun hexact => ?_⟩
  have hkeyed : keyedCerts serialPrinting true "kim" revokedPhone [phoneRow] =
      [(.hash "aa7", ⟨some "phone", false, false, some 3, none⟩)] := by decide +kernel
  have hright := hexact.revoked (.hash "aa7", ⟨some "phone", false, false, some 3, none⟩)
    (by rw [hkeyed]; exact List.mem_singleton_self _)
  have hrevoked : IsRevoked serialPrinting true "kim" revokedPhone [phoneRow] (.hash "aa7") :=
    Or.inl ⟨"kim-phone.p12", by decide +kernel, by decide +kernel, by decide +kernel⟩
  exact absurd (hright.mpr hrevoked) Bool.noConfusion

end FastTAK.Certs
