import FastTAK.Certs.Pki

/-!
# Revocation through the CRL

The revocation operations of `cert_gen` and `TakServerClient`, as the code
runs them: one shell pipeline for each certificate, a loop over what `find`
prints, and a loop over what certadmin lists.
-/

namespace FastTAK.Certs

open FastTAK.Effect FastTAK.Effect.Call FastTAK.Api FastTAK.Naming

/-! ## One certificate -/

/-- The serial `_revoke_via_crl(name)` gets to revoke, if it finds one.  `sed`
reads a file name with a leading hyphen as an option and fails. -/
def Pki.openedSerial (s : Pki) (name : String) : Option ℕ :=
  if name.toList.head? = some '-' then none
  else (s.certOf name).map Certificate.serial

/-- `sed -i "/^$/d" "${NAME}.pem"`. -/
def sedBlankLines (name : String) (s : Pki) : Option Pki :=
  if name.toList.head? = some '-' then none
  else if s.hasFile (name ++ ".pem") then some s else none

/-- `openssl ca -revoke "${NAME}.pem"`: fails without a certificate and for a
serial that the index already marks revoked. -/
def opensslRevoke (name : String) (s : Pki) : Option Pki :=
  match s.certOf name with
  | none => none
  | some cert => if cert.serial ∈ s.index then none else some (s.mark cert.serial)

/-- `openssl ca -gencrl -out ca.crl`. -/
def opensslGenCrl (s : Pki) : Option Pki := some s.genCrl

/-- The pipeline of `_revoke_via_crl` after its changes of directory and
attributes. -/
def revokeSteps (name : String) : List (Pki → Option Pki) :=
  [sedBlankLines name, opensslRevoke name, opensslGenCrl]

/-- The body of `_revoke_via_crl` once it has a container. -/
def revokeInContainer (name : String) : Call Exn Pki Outcome :=
  tryExcept
    (do
      let exited ← execRun (revokeSteps name)
      return if exited then .ok else .fail "")
    (fun _ => pure (.fail ""))

/-- `_revoke_via_crl(name)` without a container. -/
def revokeViaCrl (name : String) : Call Exn Pki Outcome := do
  match ← getTakContainer with
  | some error => return error
  | none => revokeInContainer name

/-- `revoke_cert_by_name(name)`. -/
def revokeCertByName (name : String) : Call Exn Pki Outcome :=
  match validateName name with
  | some error => pure (.fail error)
  | none => revokeViaCrl name

/-- `f"revoke-tmp-{secrets.token_hex(4)}"`. -/
def scratchName (random : ℕ) : String :=
  "revoke-tmp-" ++ String.ofList
    ((List.range 8).reverse.map fun i => Nat.digitChar (random / 16 ^ i % 16))

/-- `container.put_archive(CERT_FILES, buf)`, which raises on every error
status. -/
def putArchive (name : String) (body : Body) : Call Exn Pki Unit := do
  match ← takeDocker with
  | .runs => modify fun s => s.writeFile name body .scratch
  | .fails done | .raises done => do
      modify fun s => if done = 0 then s else s.writeFile name body .scratch
      raise .external

/-- `container.exec_run(["rm", "-f", ...])`. -/
def removeScratch (name : String) : Call Exn Pki Unit := do
  let _ ← execRun [fun s => some (s.removeFile name)]
  return ()

/-- `revoke_cert_by_pem(pem_content)`. -/
def revokeCertByPem (content : Body) : Call Exn Pki Outcome := do
  match ← getTakContainer with
  | some error => return error
  | none =>
      let random ← takeEntropy
      let tmpName := scratchName random
      tryExcept
        (do
          putArchive (tmpName ++ ".pem") content
          let result ← revokeInContainer tmpName
          removeScratch (tmpName ++ ".pem")
          return result)
        (fun _ => pure (.fail ""))

/-! ## All certificates of a user -/

/-- The result of `revoke_certs_on_disk_for_user`; an error pairs the name of a
certificate with the text of its failure. -/
structure DiskOutcome where
  success : Bool
  revoked : ℕ
  errors : List (String × String)
  deriving DecidableEq, Repr

/-- The loop over the paths: `errors` grows with each failure. -/
def revokeTargets : List String → List (String × String) →
    Call Exn Pki (List (String × String))
  | [], errors => pure errors
  | name :: names, errors => do
      let result ← revokeInContainer name
      if result.success then revokeTargets names errors
      else revokeTargets names (errors ++ [(name, result.error)])

/-- `revoke_certs_on_disk_for_user(username)`. -/
def revokeCertsOnDiskForUser (username : String) : Call Exn Pki DiskOutcome :=
  match validateName username with
  | some error => pure ⟨false, 0, [("", error)]⟩
  | none => do
      match ← getTakContainer with
      | some error => return ⟨false, 0, [("", error.error)]⟩
      | none =>
          match ← takeDocker with
          | .fails _ => return ⟨false, 0, [("", "")]⟩
          | .raises _ => raise .external
          | .runs =>
              let names ← read fun s => diskTargets username s.fileNames
              if names = [] then return ⟨true, 0, []⟩
              let errors ← revokeTargets names []
              return ⟨errors.length = 0, names.length - errors.length, errors⟩

/-- `TakServerClient.list_user_certs(username)`.  An `httpx.HTTPError` is logged
and answered with no certificates. -/
def listUserCerts (username : String) : Call Exn Pki (List CertadminCert) := do
  match ← takeTak with
  | .runs => read fun s => s.certadmin.filter (·.username = username)
  | .fails _ => return []
  | .raises _ => raise .external

/-- The loop of `revoke_all_user_certs` over the certadmin entries. -/
def revokeEntries : List CertadminCert → Bool → Call Exn Pki Bool
  | [], allOk => pure allOk
  | cert :: certs, allOk =>
      if cert.revocationDate.isSome then revokeEntries certs allOk
      else
        match cert.certificate with
        | none => revokeEntries certs false
        | some content => do
            let result ← revokeCertByPem content
            revokeEntries certs (allOk && result.success)

/-- `TakServerClient.revoke_all_user_certs(username)`. -/
def revokeAllUserCerts (username : String) : Call Exn Pki Bool := do
  let disk ← revokeCertsOnDiskForUser username
  let certs ← listUserCerts username
  revokeEntries certs disk.success

/-- `TakServerClient.revoke_cert(cert_id)`: the database flag of certadmin. -/
def revokeCert (certId : ℤ) : Call Exn Pki Bool := do
  let date ← takeEntropy
  let apply := fun s : Pki =>
    { s with certadmin := s.certadmin.map fun cert =>
        if cert.id = certId then { cert with revocationDate := some date }
        else cert }
  match ← takeTak with
  | .runs => do
      modify apply
      return true
  | .fails done => do
      modify fun s => if done = 0 then s else apply s
      return false
  | .raises done => do
      modify fun s => if done = 0 then s else apply s
      raise .external

/-! ## What one pipeline can do -/

/-- The ends of a pipeline: nothing, the serial marked, or the serial marked
and the list written.  It exits with zero only from the last. -/
inductive PipelineEnd (name : String) (s : Pki) : Bool → Pki → Prop where
  | untouched : PipelineEnd name s false s
  | marked (n : ℕ) (hopened : s.openedSerial name = some n)
      (hfresh : n ∉ s.index) : PipelineEnd name s false (s.mark n)
  | published (n : ℕ) (hopened : s.openedSerial name = some n)
      (hfresh : n ∉ s.index) (exited : Bool) :
      PipelineEnd name s exited (s.mark n).genCrl

theorem certOf_isSome_hasFile {s : Pki} {name : String} {cert : Certificate}
    (hcert : s.certOf name = some cert) : s.hasFile (name ++ ".pem") := by
  unfold Pki.certOf at hcert
  split at hcert
  · simp_all [Pki.hasFile]
  · cases hcert

/-- A pipeline that is not cut off succeeds exactly on a serial that is not in
the index yet. -/
theorem runSteps_revokeSteps (name : String) (s : Pki) :
    runSteps (revokeSteps name) s =
      match s.openedSerial name with
      | some n => if n ∈ s.index then (false, s) else (true, (s.mark n).genCrl)
      | none => (false, s) := by
  unfold revokeSteps Pki.openedSerial
  by_cases hyphen : name.toList.head? = some '-'
  · simp [runSteps, sedBlankLines, hyphen]
  · cases hcert : s.certOf name with
    | none =>
        by_cases hfile : s.hasFile (name ++ ".pem")
        · simp [runSteps, sedBlankLines, hyphen, hfile, opensslRevoke, hcert]
        · simp [runSteps, sedBlankLines, hyphen, hfile]
    | some cert =>
        have hfile := certOf_isSome_hasFile hcert
        by_cases hindex : cert.serial ∈ s.index
        · simp [runSteps, sedBlankLines, hyphen, hfile, opensslRevoke, hcert,
            hindex]
        · simp [runSteps, sedBlankLines, hyphen, hfile, opensslRevoke, hcert,
            hindex, opensslGenCrl]

/-- Where the pipeline ends when it is cut off after `done` commands. -/
theorem pipelineEnd_take (name : String) (done : ℕ) (s : Pki) :
    PipelineEnd name s false (runSteps ((revokeSteps name).take done) s).2 := by
  unfold revokeSteps
  rcases done with _ | _ | _ | done
  · exact .untouched
  · unfold sedBlankLines
    simp only [List.take_succ_cons, List.take_zero, runSteps]
    split_ifs
    all_goals exact .untouched
  · by_cases hyphen : name.toList.head? = some '-'
    · simp only [List.take_succ_cons, runSteps, sedBlankLines, hyphen, if_true]
      exact .untouched
    · by_cases hfile : s.hasFile (name ++ ".pem")
      · simp only [List.take_succ_cons, List.take_zero, runSteps, sedBlankLines,
          hyphen, hfile, if_false, if_true, opensslRevoke]
        cases hcert : s.certOf name with
        | none => exact .untouched
        | some cert =>
            by_cases hindex : cert.serial ∈ s.index
            · simp only [hindex, if_true]
              exact .untouched
            · simp only [hindex, if_false]
              exact .marked _ (by simp [Pki.openedSerial, hyphen, hcert]) hindex
      · simp only [List.take_succ_cons, runSteps, sedBlankLines, hyphen, hfile,
          if_false]
        exact .untouched
  · have hall : (revokeSteps name).take (done + 3) = revokeSteps name :=
      List.take_of_length_le (by simp [revokeSteps])
    change PipelineEnd name s false
      (runSteps ((revokeSteps name).take (done + 3)) s).2
    rw [hall, runSteps_revokeSteps]
    cases hopened : s.openedSerial name with
    | none => exact .untouched
    | some n =>
        by_cases hindex : n ∈ s.index
        · simp only [hindex, if_true]
          exact .untouched
        · simp only [hindex, if_false]
          exact .published n hopened hindex false

theorem pipelineEnd_whole (name : String) (s : Pki) :
    PipelineEnd name s (runSteps (revokeSteps name) s).1
      (runSteps (revokeSteps name) s).2 := by
  rw [runSteps_revokeSteps]
  cases hopened : s.openedSerial name with
  | none => exact .untouched
  | some n =>
      by_cases hindex : n ∈ s.index
      · simp only [hindex, if_true]
        exact .untouched
      · simp only [hindex, if_false]
        exact .published n hopened hindex true

/-- Whatever Docker does, `_revoke_via_crl` returns, and the state is one of the
ends of the pipeline. -/
theorem revokeInContainer_returns (name : String) (s : Pki) :
    ∃ outcome s', revokeInContainer name s = (.ok outcome, s') ∧
      PipelineEnd name { s with docker := s.docker.tail } outcome.success s' := by
  unfold revokeInContainer execRun takeDocker tryExcept
  simp only [bind_apply, update_apply]
  cases hverdict : nextVerdict s.docker with
  | runs =>
      have hend := pipelineEnd_whole name { s with docker := s.docker.tail }
      simp only [update_apply]
      rcases hrun : runSteps (revokeSteps name)
        { s with docker := s.docker.tail } with ⟨exited, s'⟩
      rw [hrun] at hend
      cases exited with
      | false => exact ⟨_, _, rfl, hend⟩
      | true => exact ⟨_, _, rfl, hend⟩
  | fails done =>
      refine ⟨_, _, rfl, ?_⟩
      exact pipelineEnd_take name done { s with docker := s.docker.tail }
  | raises done =>
      refine ⟨_, _, rfl, ?_⟩
      exact pipelineEnd_take name done { s with docker := s.docker.tail }

end FastTAK.Certs
