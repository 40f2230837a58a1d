import FastTAK.Certs.Revocation

/-!
# Certificate generation

`generate_client_cert` as the code runs it: a key and a request, the signed
certificate, and the bundle, each by one exec that may be cut off, and what all
its runs leave alone.
-/

namespace FastTAK.Certs

open FastTAK.Effect FastTAK.Effect.Call FastTAK.Api FastTAK.Naming

/-- The files written for a stem. -/
def generatedFiles (stem : String) : List String :=
  [stem ++ ".key", stem ++ ".csr", stem ++ ".pem", stem ++ ".p12"]

/-! ## The execs -/

section Steps

variable (origin : Origin) (name : String)

/-- `openssl req -new -newkey rsa:2048 -keyout ... -out ...`, file by file. -/
def opensslReq (cn : String) : List (Pki → Option Pki) :=
  [fun s => some (({ s with entropy := s.entropy.tail } : Pki).writeFile
      (name ++ ".key") (.key (s.entropy.headD 0)) origin),
    fun s => some (s.writeFile (name ++ ".csr") (.request cn) origin)]

/-- `openssl x509 -req ... -set_serial 0x$(openssl rand -hex 8)`. -/
def opensslSign (validityDays : ℕ) (s : Pki) : Option Pki :=
  match s.file (name ++ ".csr") with
  | some ⟨.request cn, _⟩ =>
      if s.hasFile "ca.pem" && s.hasFile "ca-do-not-share.key" then
        let cert : Certificate := ⟨s.entropy.headD 0 % 2 ^ 64, cn, validityDays⟩
        some (({ s with entropy := s.entropy.tail } : Pki).writeFile
          (name ++ ".pem") (.certificate cert) origin)
      else none
  | _ => none

/-- `openssl pkcs12 -export`. -/
def opensslBundle (s : Pki) : Option Pki :=
  match s.certOf name, s.file (name ++ ".key") with
  | some cert, some ⟨.key _, _⟩ =>
      some (s.writeFile (name ++ ".p12") (.bundle cert) origin)
  | _, _ => none

/-- `generate_client_cert(name, validity_days, cn_override)`.  `origin` only
labels the files. -/
def generateClientCert (validityDays : ℕ) (cnOverride : Option String) :
    Call Exn Pki Outcome :=
  let override := cnOverride.filter (· ≠ "")
  match validateName name, override.bind validateName with
  | some error, _ => pure (.fail error)
  | none, some error => pure (.fail ("CN override: " ++ error))
  | none, none => do
      match ← getTakContainer with
      | some error => return error
      | none =>
          tryExcept
            (do
              let _ ← execRun []
              let requested ← execRun (opensslReq origin name (override.getD name))
              if ¬ requested then return .fail "CSR generation failed: "
              let signed ← execRun [opensslSign origin name validityDays]
              if ¬ signed then return .fail "Signing failed: "
              let bundled ← execRun [opensslBundle origin name]
              if ¬ bundled then return .fail "P12 creation failed: "
              return .ok)
            (fun _ => pure (.fail ""))

end Steps

/-- An exec that is cut off after the key leaves a new key. -/
theorem generateClientCert_cut {origin : Origin} {name : String}
    (hvalid : validateName name = none) (validityDays : ℕ) {s : Pki}
    (hdocker : s.docker = [.runs, .runs, .fails 1]) :
    ∃ s', generateClientCert origin name validityDays none s =
        (.ok (.fail "CSR generation failed: "), s') ∧
      s'.file (name ++ ".key") = some ⟨.key (s.entropy.headD 0), origin⟩ := by
  refine ⟨({ s with docker := [], entropy := s.entropy.tail } : Pki).writeFile (name ++ ".key")
    (.key (s.entropy.headD 0)) origin, ?_, Pki.file_writeFile_self _ _ _ _⟩
  simp only [generateClientCert, hvalid, Option.filter_none, Option.bind_none, getTakContainer,
    takeDocker, execRun, Call.bind_apply, update_apply, hdocker, nextVerdict_cons, List.tail_cons,
    tryExcept, Call.pure_apply]
  rfl

/-! ## Work beside the certificate directory -/

/-- An exec that changes no file of the directory, between `try` and `except`. -/
def execBeside : Call Exn Pki Outcome :=
  tryExcept
    (do
      let exited ← execRun []
      return if exited then .ok else .fail "")
    (fun _ => pure (.fail ""))

/-- `write_nodered_pems(name)` and `remove_nodered_pems(name)`: both work in the
subdirectory of Node-RED. -/
def noderedPems (name : String) : Call Exn Pki Outcome :=
  match validateName name with
  | some error => pure (.fail error)
  | none => do
      match ← getTakContainer with
      | some error => return error
      | none => execBeside

/-- `register_admin_cert(name)`: TAK Server is told about the certificate. -/
def registerAdminCert : Call Exn Pki Outcome := do
  match ← getTakContainer with
  | some error => return error
  | none => execBeside

/-! ## What generation leaves alone -/

/-- Only files of the stem were written, all of them for the origin. -/
structure Generates (stem : String) (origin : Origin) (s s' : Pki) : Prop where
  index : s'.index = s.index
  crl : s'.crl = s.crl
  certadmin : s'.certadmin = s.certadmin
  others : ∀ name, name ∉ generatedFiles stem → s'.file name = s.file name
  written : ∀ name, s'.file name = s.file name ∨
    ∃ f, s'.file name = some f ∧ f.origin = origin

instance (stem : String) (origin : Origin) : IsPreorder Pki (Generates stem origin) where
  refl _ := ⟨rfl, rfl, rfl, fun _ _ => rfl, fun _ => Or.inl rfl⟩
  trans _ _ _ hfirst hsecond := {
    index := hsecond.index.trans hfirst.index
    crl := hsecond.crl.trans hfirst.crl
    certadmin := hsecond.certadmin.trans hfirst.certadmin
    others := fun name h => (hsecond.others name h).trans (hfirst.others name h)
    written := fun name => by
      rcases hsecond.written name with h | h
      · rcases hfirst.written name with h' | ⟨f, h', horigin⟩
        · exact Or.inl (h.trans h')
        · exact Or.inr ⟨f, h.trans h', horigin⟩
      · exact Or.inr h }

section Frame

variable {stem : String} {origin : Origin}

theorem generates_of_files_eq {s s' : Pki} (hindex : s'.index = s.index)
    (hcrl : s'.crl = s.crl) (hcertadmin : s'.certadmin = s.certadmin)
    (hfiles : s'.files = s.files) : Generates stem origin s s' where
  index := hindex
  crl := hcrl
  certadmin := hcertadmin
  others := fun name _ => by rw [Pki.file, hfiles, Pki.file]
  written := fun name => Or.inl (by rw [Pki.file, hfiles, Pki.file])

theorem generates_writeFile (s : Pki) {name : String} (hname : name ∈ generatedFiles stem)
    (body : Body) : Generates stem origin s (s.writeFile name body origin) where
  index := rfl
  crl := rfl
  certadmin := rfl
  others := fun other hother =>
    s.file_writeFile_of_ne body origin fun h => hother (h ▸ hname)
  written := fun other => by
    rcases eq_or_ne other name with rfl | hne
    · exact Or.inr ⟨_, s.file_writeFile_self _ _ _, rfl⟩
    · exact Or.inl (s.file_writeFile_of_ne body origin hne)

theorem generates_docker (s : Pki) (queue : List Verdict) :
    Generates stem origin s { s with docker := queue } :=
  generates_of_files_eq rfl rfl rfl rfl

theorem generates_entropy (s : Pki) (entropy : List ℕ) :
    Generates stem origin s { s with entropy := entropy } :=
  generates_of_files_eq rfl rfl rfl rfl

theorem generates_opensslReq (cn : String) : ∀ step ∈ opensslReq origin stem cn,
    ∀ s s', step s = some s' → Generates stem origin s s' := by
  intro step hstep s s' hrun
  simp only [opensslReq, List.mem_cons, List.not_mem_nil, or_false] at hstep
  rcases hstep with rfl | rfl
  · obtain rfl := Option.some.inj hrun
    exact trans_of (Generates stem origin) (generates_entropy s _)
      (generates_writeFile _ (by simp [generatedFiles]) _)
  · obtain rfl := Option.some.inj hrun
    exact generates_writeFile s (by simp [generatedFiles]) _

theorem generates_opensslSign (validityDays : ℕ) {s s' : Pki}
    (hrun : opensslSign origin stem validityDays s = some s') :
    Generates stem origin s s' := by
  unfold opensslSign at hrun
  split at hrun
  · split_ifs at hrun
    obtain rfl := Option.some.inj hrun
    exact trans_of (Generates stem origin) (generates_entropy s _)
      (generates_writeFile _ (by simp [generatedFiles]) _)
  · cases hrun

theorem generates_opensslBundle {s s' : Pki}
    (hrun : opensslBundle origin stem s = some s') : Generates stem origin s s' := by
  unfold opensslBundle at hrun
  split at hrun
  · obtain rfl := Option.some.inj hrun
    exact generates_writeFile s (by simp [generatedFiles]) _
  · cases hrun

theorem keeps_getTakContainer_generates :
    Keeps (Generates stem origin) getTakContainer := by
  refine keeps_bind (keeps_update fun s => generates_docker s _) fun verdict => ?_
  cases verdict with
  | runs => exact keeps_pure _
  | fails _ => exact keeps_pure _
  | raises _ => exact keeps_raise _

/-- Whatever fails, `generate_client_cert` writes only files of its stem. -/
theorem keeps_generateClientCert (validityDays : ℕ) (cnOverride : Option String) :
    Keeps (Generates stem origin)
      (generateClientCert origin stem validityDays cnOverride) := by
  have hexec : ∀ {steps : List (Pki → Option Pki)},
      (∀ step ∈ steps, ∀ s s', step s = some s' → Generates stem origin s s') →
        Keeps (Generates stem origin) (execRun steps) :=
    fun hsteps => keeps_execRun generates_docker hsteps
  have hsingle : ∀ {step : Pki → Option Pki},
      (∀ s s', step s = some s' → Generates stem origin s s') →
        Keeps (Generates stem origin) (execRun [step]) :=
    fun hstep => hexec fun _ hmem => List.mem_singleton.mp hmem ▸ hstep
  unfold generateClientCert
  dsimp only
  split
  · exact keeps_pure _
  · exact keeps_pure _
  · refine keeps_bind keeps_getTakContainer_generates fun missing => ?_
    cases missing with
    | some error => exact keeps_pure _
    | none =>
        refine keeps_tryExcept ?_ fun _ => keeps_pure _
        refine keeps_bind (hexec (by simp)) fun _ => ?_
        refine keeps_bind (hexec (generates_opensslReq _)) fun requested => ?_
        split_ifs
        · refine keeps_bind (hsingle fun _ _ => generates_opensslSign _) fun signed => ?_
          split_ifs
          · refine keeps_bind (hsingle fun _ _ => generates_opensslBundle) fun bundled => ?_
            split_ifs
            · exact keeps_pure _
            · exact keeps_pure _
          · exact keeps_pure _
        · exact keeps_pure _

end Frame

end FastTAK.Certs
