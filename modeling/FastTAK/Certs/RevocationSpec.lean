import FastTAK.Certs.Revocation

/-!
# What revocation keeps and what its success means

Revocations only ever add to the index and the list, write no files but scratch
copies and leave certadmin alone.  A revocation that reports success has put
every certificate it went through on the list.
-/

namespace FastTAK.Certs

open FastTAK.Effect FastTAK.Effect.Call FastTAK.Api FastTAK.Naming

/-! ## The certificates of a user -/

/-- The serial of the certificate in a file. -/
def Pki.serialIn (s : Pki) (name : String) : Option ℕ :=
  match s.file name with
  | some ⟨.certificate cert, _⟩ => some cert.serial
  | _ => none

/-- The serials of the user's certificates: those in files named
`<user>-<name>.pem` and those certadmin holds without a revocation date. -/
def Pki.userSerials (s : Pki) (username : String) : List ℕ :=
  (s.fileNames.filter (Text.fitsStar (username ++ "-") ".pem")).filterMap
      s.serialIn ++
    (s.certadmin.filter fun cert =>
      cert.username = username ∧ cert.revocationDate = none).map
      CertadminCert.serialNumber

/-! ## What holds of every pipeline holds of every revocation on disk -/

section Rules

variable {R : Pki → Pki → Prop} [IsPreorder Pki R]

theorem keeps_getTakContainer (hdocker : ∀ s queue, R s { s with docker := queue }) :
    Keeps R getTakContainer := by
  refine keeps_bind (keeps_update fun s => hdocker s _) fun verdict => ?_
  cases verdict with
  | runs => exact keeps_pure _
  | fails _ => exact keeps_pure _
  | raises _ => exact keeps_raise _

theorem keeps_revokeTargets (hrevoke : ∀ name, Keeps R (revokeInContainer name))
    (names : List String) (errors : List (String × String)) :
    Keeps R (revokeTargets names errors) := by
  induction names generalizing errors with
  | nil => exact keeps_pure _
  | cons name names ih =>
      refine keeps_bind (hrevoke name) fun result => ?_
      split_ifs
      · exact ih _
      · exact ih _

theorem keeps_revokeCertsOnDiskForUser_of
    (hdocker : ∀ s queue, R s { s with docker := queue })
    (hrevoke : ∀ name, Keeps R (revokeInContainer name)) (username : String) :
    Keeps R (revokeCertsOnDiskForUser username) := by
  unfold revokeCertsOnDiskForUser
  cases validateName username with
  | some error => exact keeps_pure _
  | none =>
      refine keeps_bind (keeps_getTakContainer hdocker) fun missing => ?_
      cases missing with
      | some error => exact keeps_pure _
      | none =>
          refine keeps_bind (keeps_update fun s => hdocker s _) fun verdict => ?_
          cases verdict with
          | fails _ => exact keeps_pure _
          | raises _ => exact keeps_raise _
          | runs =>
              refine keeps_bind (keeps_read _) fun names => ?_
              split_ifs
              · exact keeps_pure _
              · exact keeps_bind (keeps_revokeTargets hrevoke names [])
                  fun _ => keeps_pure _

end Rules

/-! ## The frame of a revocation -/

/-- What every revocation keeps, whether it succeeds or not. -/
structure Revokes (s s' : Pki) : Prop where
  index : s.index ⊆ s'.index
  crl : s.crl ⊆ s'.crl
  files : ∀ name f, s'.file name = some f →
    s.file name = some f ∨ f.origin = .scratch
  certadmin : s'.certadmin = s.certadmin

instance : IsPreorder Pki Revokes where
  refl _ := ⟨fun _ h => h, fun _ h => h, fun _ _ h => Or.inl h, rfl⟩
  trans _ _ _ hfirst hsecond := {
    index := fun _ h => hsecond.index (hfirst.index h)
    crl := fun _ h => hsecond.crl (hfirst.crl h)
    files := fun name f h => by
      rcases hsecond.files name f h with h | h
      · exact hfirst.files name f h
      · exact Or.inr h
    certadmin := hsecond.certadmin.trans hfirst.certadmin }

theorem revokes_of_files_eq {s s' : Pki} (hindex : s.index ⊆ s'.index)
    (hcrl : s.crl ⊆ s'.crl) (hfiles : s'.files = s.files)
    (hcertadmin : s'.certadmin = s.certadmin) : Revokes s s' where
  index := hindex
  crl := hcrl
  files := fun _ _ h => Or.inl (by rwa [Pki.file, hfiles] at h)
  certadmin := hcertadmin

theorem revokes_docker (s : Pki) (queue : List Verdict) :
    Revokes s { s with docker := queue } :=
  revokes_of_files_eq (fun _ h => h) (fun _ h => h) rfl rfl

theorem revokes_mark (s : Pki) (n : ℕ) : Revokes s (s.mark n) :=
  revokes_of_files_eq (List.subset_cons_self n s.index) (fun _ h => h) rfl rfl

theorem revokes_genCrl (s : Pki) : Revokes s s.genCrl :=
  revokes_of_files_eq (fun _ h => h) s.published rfl rfl

theorem revokes_writeFile (s : Pki) (name : String) (body : Body) :
    Revokes s (s.writeFile name body .scratch) where
  index := fun _ h => h
  crl := fun _ h => h
  files := fun other f h => by
    rcases eq_or_ne other name with rfl | hne
    · rw [Pki.file_writeFile_self] at h
      exact Or.inr (by rw [← Option.some.inj h])
    · rw [Pki.file_writeFile_of_ne _ _ _ hne] at h
      exact Or.inl h
  certadmin := rfl

theorem revokes_removeFile (s : Pki) (name : String) :
    Revokes s (s.removeFile name) where
  index := fun _ h => h
  crl := fun _ h => h
  files := fun other f h => by
    rcases eq_or_ne other name with rfl | hne
    · rw [Pki.file_removeFile_self] at h
      cases h
    · rw [Pki.file_removeFile_of_ne _ hne] at h
      exact Or.inl h
  certadmin := rfl

theorem PipelineEnd.revokes {name : String} {s s' : Pki} {exited : Bool}
    (hend : PipelineEnd name s exited s') : Revokes s s' := by
  cases hend with
  | untouched => exact refl_of Revokes s
  | marked n _ _ => exact revokes_mark s n
  | published n _ _ _ =>
      exact trans_of Revokes (revokes_mark s n) (revokes_genCrl _)

theorem PipelineEnd.tak_eq {name : String} {s s' : Pki} {exited : Bool}
    (hend : PipelineEnd name s exited s') : s'.tak = s.tak := by
  cases hend <;> rfl

theorem PipelineEnd.files_eq {name : String} {s s' : Pki} {exited : Bool}
    (hend : PipelineEnd name s exited s') : s'.files = s.files := by
  cases hend <;> rfl

theorem keeps_revokeInContainer (name : String) :
    Keeps Revokes (revokeInContainer name) := by
  intro s
  obtain ⟨outcome, s', hrun, hend⟩ := revokeInContainer_returns name s
  rw [hrun]
  exact trans_of Revokes (revokes_docker s _) hend.revokes

theorem keeps_revokeViaCrl (name : String) : Keeps Revokes (revokeViaCrl name) := by
  refine keeps_bind (keeps_getTakContainer revokes_docker) fun missing => ?_
  cases missing with
  | some error => exact keeps_pure _
  | none => exact keeps_revokeInContainer name

theorem keeps_revokeCertByName (name : String) :
    Keeps Revokes (revokeCertByName name) := by
  unfold revokeCertByName
  cases validateName name with
  | some error => exact keeps_pure _
  | none => exact keeps_revokeViaCrl name

theorem keeps_putArchive (name : String) (body : Body) :
    Keeps Revokes (putArchive name body) := by
  have hsome : ∀ done : ℕ, Keeps Revokes (do
      modify fun s => if done = 0 then s else s.writeFile name body .scratch
      raise .external : Call Exn Pki Unit) := by
    intro done
    refine keeps_bind (keeps_modify fun s => ?_) fun _ => keeps_raise _
    split_ifs
    · exact refl_of Revokes s
    · exact revokes_writeFile s name body
  refine keeps_bind (keeps_update fun s => revokes_docker s _) fun verdict => ?_
  cases verdict with
  | runs => exact keeps_modify fun s => revokes_writeFile s name body
  | fails done => exact hsome done
  | raises done => exact hsome done

theorem keeps_removeScratch (name : String) :
    Keeps Revokes (removeScratch name) := by
  refine keeps_bind (keeps_execRun revokes_docker ?_) fun _ => keeps_pure _
  intro step hstep s s' hrun
  obtain rfl := List.mem_singleton.mp hstep
  obtain rfl := Option.some.inj hrun
  exact revokes_removeFile s name

theorem keeps_takeEntropy : Keeps Revokes takeEntropy :=
  keeps_update fun _ => revokes_of_files_eq (fun _ h => h) (fun _ h => h) rfl rfl

theorem keeps_revokeCertByPem (content : Body) :
    Keeps Revokes (revokeCertByPem content) := by
  refine keeps_bind (keeps_getTakContainer revokes_docker) fun missing => ?_
  cases missing with
  | some error => exact keeps_pure _
  | none =>
      refine keeps_bind keeps_takeEntropy fun random => ?_
      refine keeps_tryExcept ?_ fun _ => keeps_pure _
      refine keeps_bind (keeps_putArchive _ _) fun _ => ?_
      refine keeps_bind (keeps_revokeInContainer _) fun result => ?_
      exact keeps_bind (keeps_removeScratch _) fun _ => keeps_pure _

theorem keeps_revokeCertsOnDiskForUser (username : String) :
    Keeps Revokes (revokeCertsOnDiskForUser username) :=
  keeps_revokeCertsOnDiskForUser_of revokes_docker keeps_revokeInContainer username

theorem keeps_listUserCerts (username : String) :
    Keeps Revokes (listUserCerts username) := by
  have htake : Keeps Revokes takeTak := keeps_update fun _ =>
    revokes_of_files_eq (fun _ h => h) (fun _ h => h) rfl rfl
  refine keeps_bind htake fun verdict => ?_
  cases verdict with
  | runs => exact keeps_read _
  | fails _ => exact keeps_pure _
  | raises _ => exact keeps_raise _

theorem keeps_revokeEntries (certs : List CertadminCert) (allOk : Bool) :
    Keeps Revokes (revokeEntries certs allOk) := by
  induction certs generalizing allOk with
  | nil => exact keeps_pure _
  | cons cert certs ih =>
      unfold revokeEntries
      split_ifs
      · exact ih allOk
      · cases cert.certificate with
        | none => exact ih false
        | some content =>
            exact keeps_bind (keeps_revokeCertByPem content) fun _ => ih _

theorem keeps_revokeAllUserCerts (username : String) :
    Keeps Revokes (revokeAllUserCerts username) := by
  refine keeps_bind (keeps_revokeCertsOnDiskForUser username) fun disk => ?_
  exact keeps_bind (keeps_listUserCerts username)
    fun certs => keeps_revokeEntries certs disk.success

/-- The revocation on disk sends nothing to TAK Server. -/
def SameTak (s s' : Pki) : Prop := s'.tak = s.tak

instance : IsPreorder Pki SameTak where
  refl _ := rfl
  trans _ _ _ hfirst hsecond := Eq.trans hsecond hfirst

theorem sameTak_revokeCertsOnDiskForUser (username : String) :
    Keeps SameTak (revokeCertsOnDiskForUser username) := by
  refine keeps_revokeCertsOnDiskForUser_of (fun _ _ => rfl) (fun name s => ?_)
    username
  obtain ⟨outcome, s', hrun, hend⟩ := revokeInContainer_returns name s
  rw [hrun]
  exact hend.tak_eq

/-! ## What success means -/

theorem getTakContainer_returned {s s' : Pki} {missing : Option Outcome}
    (hrun : getTakContainer s = (.ok missing, s')) :
    s' = { s with docker := s.docker.tail } ∧
      ∀ error ∈ missing, error.success = false := by
  unfold getTakContainer takeDocker at hrun
  simp only [bind_apply, update_apply] at hrun
  cases hverdict : nextVerdict s.docker <;>
    simp only [hverdict, pure_apply, raise_apply, Prod.mk.injEq, Except.ok.injEq,
      reduceCtorEq, false_and] at hrun
  · obtain ⟨rfl, rfl⟩ := hrun
    exact ⟨rfl, by simp⟩
  · obtain ⟨rfl, rfl⟩ := hrun
    exact ⟨rfl, by simp [Outcome.fail]⟩

theorem putArchive_returned {name : String} {body : Body} {s s' : Pki}
    (hrun : putArchive name body s = (.ok (), s')) :
    s' = ({ s with docker := s.docker.tail } : Pki).writeFile name body
      .scratch := by
  unfold putArchive takeDocker at hrun
  simp only [bind_apply, update_apply] at hrun
  cases hverdict : nextVerdict s.docker <;>
    simp only [hverdict, bind_apply, modify_apply, raise_apply, Prod.mk.injEq,
      reduceCtorEq, false_and] at hrun
  exact hrun.2.symm

theorem revokeInContainer_success {name : String} {s s' : Pki}
    {outcome : Outcome} (hrun : revokeInContainer name s = (.ok outcome, s'))
    (hsuccess : outcome.success) :
    ∃ n, s.openedSerial name = some n ∧ n ∈ s'.crl := by
  obtain ⟨outcome', s'', hrun', hend⟩ := revokeInContainer_returns name s
  rw [hrun] at hrun'
  simp only [Prod.mk.injEq, Except.ok.injEq] at hrun'
  obtain ⟨rfl, rfl⟩ := hrun'
  rw [hsuccess] at hend
  cases hend with
  | published n hopened _ _ => exact ⟨n, hopened, List.mem_cons_self⟩

theorem revokeInContainer_files (name : String) (s : Pki) :
    (revokeInContainer name s).2.files = s.files := by
  obtain ⟨outcome, s', hrun, hend⟩ := revokeInContainer_returns name s
  rw [hrun]
  exact hend.files_eq

theorem openedSerial_scratch (random : ℕ) (body : Body) (s : Pki) (n : ℕ) :
    (s.writeFile (scratchName random ++ ".pem") body .scratch).openedSerial
        (scratchName random) = some n ↔
      ∃ cert, body = .certificate cert ∧ cert.serial = n := by
  have hhyphen : (scratchName random).toList.head? ≠ some '-' := by
    rw [scratchName, String.toList_append]
    simp
  rw [Pki.openedSerial, if_neg hhyphen, Pki.certOf, Pki.file_writeFile_self]
  cases body <;> simp

theorem openedSerial_of_files_eq {s s' : Pki} (hfiles : s'.files = s.files)
    (name : String) : s'.openedSerial name = s.openedSerial name := by
  rw [Pki.openedSerial, Pki.openedSerial, Pki.certOf, Pki.certOf, Pki.file,
    Pki.file, hfiles]

/-- A loop that collected no new error put every certificate on the list. -/
theorem revokeTargets_no_errors {names : List String}
    {errors errors' : List (String × String)} {s s' : Pki}
    (hrun : revokeTargets names errors s = (.ok errors', s'))
    (hnone : errors' = []) :
    errors = [] ∧ s'.files = s.files ∧
      ∀ name ∈ names, ∃ n, s.openedSerial name = some n ∧ n ∈ s'.crl := by
  induction names generalizing errors s with
  | nil =>
      obtain ⟨rfl, rfl⟩ := pure_eq_ok.mp hrun
      exact ⟨hnone, rfl, by simp⟩
  | cons name names ih =>
      obtain ⟨outcome, s₁, hfirst, hrest⟩ := bind_eq_ok hrun
      have hfiles : s₁.files = s.files := by
        rw [← revokeInContainer_files name s, hfirst]
      split_ifs at hrest with hsuccess
      · obtain ⟨hnil, hkept, htargets⟩ := ih hrest
        refine ⟨hnil, hkept.trans hfiles, ?_⟩
        intro target htarget
        rcases List.mem_cons.mp htarget with rfl | htarget
        · obtain ⟨n, hopened, hn⟩ := revokeInContainer_success hfirst hsuccess
          have hgrow := keeps_revokeTargets keeps_revokeInContainer names errors s₁
          rw [hrest] at hgrow
          exact ⟨n, hopened, hgrow.crl hn⟩
        · obtain ⟨n, hopened, hn⟩ := htargets target htarget
          exact ⟨n, by rwa [openedSerial_of_files_eq hfiles] at hopened, hn⟩
      · exact absurd (ih hrest).1 (by simp)

/-- A disk revocation that reports success put every target on the list. -/
theorem revokeCertsOnDiskForUser_success {username : String} {s s' : Pki}
    {disk : DiskOutcome}
    (hrun : revokeCertsOnDiskForUser username s = (.ok disk, s'))
    (hsuccess : disk.success) :
    s'.files = s.files ∧ ∀ name ∈ diskTargets username s.fileNames,
      ∃ n, s.openedSerial name = some n ∧ n ∈ s'.crl := by
  unfold revokeCertsOnDiskForUser at hrun
  cases hvalid : validateName username with
  | some error =>
      rw [hvalid] at hrun
      rw [← (pure_eq_ok.mp hrun).1] at hsuccess
      cases hsuccess
  | none =>
      rw [hvalid] at hrun
      obtain ⟨missing, s₁, hcontainer, hrun⟩ := bind_eq_ok hrun
      obtain ⟨rfl, herror⟩ := getTakContainer_returned hcontainer
      cases missing with
      | some error =>
          rw [← (pure_eq_ok.mp hrun).1] at hsuccess
          cases hsuccess
      | none =>
          obtain ⟨verdict, s₂, hfind, hrun⟩ := bind_eq_ok hrun
          have hfiles₂ : s₂.files = s.files := by
            simp only [takeDocker, update_apply, Prod.mk.injEq] at hfind
            rw [← hfind.2]
          cases verdict with
          | fails _ =>
              rw [← (pure_eq_ok.mp hrun).1] at hsuccess
              cases hsuccess
          | raises _ => simp at hrun
          | runs =>
              obtain ⟨names, s₃, hnames, hrun⟩ := bind_eq_ok hrun
              obtain ⟨rfl, rfl⟩ := read_eq_ok.mp hnames
              have hnames : diskTargets username s₂.fileNames =
                  diskTargets username s.fileNames := by
                rw [Pki.fileNames, Pki.fileNames, hfiles₂]
              rw [hnames] at hrun
              split_ifs at hrun with hempty
              · rw [← (pure_eq_ok.mp hrun).2, hempty]
                exact ⟨hfiles₂, by simp⟩
              · obtain ⟨errors, s₄, hloop, hrun⟩ := bind_eq_ok hrun
                obtain ⟨rfl, rfl⟩ := pure_eq_ok.mp hrun
                have hnone : errors = [] := by
                  simpa using of_decide_eq_true hsuccess
                obtain ⟨-, hkept, htargets⟩ := revokeTargets_no_errors hloop hnone
                refine ⟨hkept.trans hfiles₂, fun name hname => ?_⟩
                obtain ⟨n, hopened, hn⟩ := htargets name hname
                exact ⟨n, by rwa [openedSerial_of_files_eq hfiles₂] at hopened, hn⟩

/-- A PEM whose revocation reports success was a certificate, and its serial is
on the list. -/
theorem revokeCertByPem_success {content : Body} {s s' : Pki}
    {outcome : Outcome} (hrun : revokeCertByPem content s = (.ok outcome, s'))
    (hsuccess : outcome.success) :
    ∃ cert, content = .certificate cert ∧ cert.serial ∈ s'.crl := by
  obtain ⟨missing, s₁, hcontainer, hrun⟩ := bind_eq_ok hrun
  cases missing with
  | some error =>
      have herror := (getTakContainer_returned hcontainer).2 error rfl
      rw [← (pure_eq_ok.mp hrun).1, herror] at hsuccess
      cases hsuccess
  | none =>
      obtain ⟨random, s₂, -, hrun⟩ := bind_eq_ok hrun
      rcases tryExcept_eq_ok hrun with hrun | ⟨e, s₃, -, hrun⟩
      · obtain ⟨⟨⟩, s₃, hput, hrun⟩ := bind_eq_ok hrun
        obtain ⟨result, s₄, hrevoke, hrun⟩ := bind_eq_ok hrun
        obtain ⟨⟨⟩, s₅, hremove, hrun⟩ := bind_eq_ok hrun
        obtain ⟨rfl, rfl⟩ := pure_eq_ok.mp hrun
        obtain ⟨n, hopened, hn⟩ := revokeInContainer_success hrevoke hsuccess
        have hkeep := keeps_removeScratch (scratchName random ++ ".pem") s₄
        rw [hremove] at hkeep
        rw [putArchive_returned hput, openedSerial_scratch] at hopened
        obtain ⟨cert, rfl, rfl⟩ := hopened
        exact ⟨cert, rfl, hkeep.crl hn⟩
      · rw [← (pure_eq_ok.mp hrun).1] at hsuccess
        cases hsuccess

/-- A loop over certadmin entries that returns `True` put every entry without a
revocation date on the list. -/
theorem revokeEntries_true {certs : List CertadminCert} {allOk : Bool}
    {s s' : Pki} (hrun : revokeEntries certs allOk s = (.ok true, s')) :
    allOk = true ∧ ∀ cert ∈ certs, cert.revocationDate = none →
      cert.serialNumber ∈ s'.crl := by
  induction certs generalizing allOk s with
  | nil =>
      exact ⟨(pure_eq_ok.mp hrun).1, by simp⟩
  | cons cert certs ih =>
      unfold revokeEntries at hrun
      split_ifs at hrun with hdate
      · obtain ⟨hall, hrest⟩ := ih hrun
        refine ⟨hall, List.forall_mem_cons.mpr ⟨fun hnone => ?_, hrest⟩⟩
        simp [hnone] at hdate
      · cases hpem : cert.certificate with
        | none =>
            rw [hpem] at hrun
            exact absurd (ih hrun).1 (by decide)
        | some content =>
            rw [hpem] at hrun
            obtain ⟨result, s₁, hfirst, hloop⟩ := bind_eq_ok hrun
            obtain ⟨hall, hrest⟩ := ih hloop
            rw [Bool.and_eq_true] at hall
            refine ⟨hall.1, List.forall_mem_cons.mpr ⟨fun _ => ?_, hrest⟩⟩
            obtain ⟨parsed, rfl, hn⟩ := revokeCertByPem_success hfirst hall.2
            have hkeep := keeps_revokeEntries certs (allOk && result.success) s₁
            rw [hloop] at hkeep
            rw [← cert.honest parsed hpem]
            exact hkeep.crl hn

/-- What `True` from `revoke_all_user_certs` means: every target on disk is on
the list, and so is every certificate that certadmin listed, which is none when
the listing failed. -/
theorem revokeAllUserCerts_true {username : String} {s s' : Pki}
    (hrun : revokeAllUserCerts username s = (.ok true, s')) :
    (∀ name ∈ diskTargets username s.fileNames,
      ∃ n, s.openedSerial name = some n ∧ n ∈ s'.crl) ∧
    (nextVerdict s.tak = .runs → ∀ cert ∈ s.certadmin,
      cert.username = username → cert.revocationDate = none →
        cert.serialNumber ∈ s'.crl) := by
  obtain ⟨disk, s₁, hdisk, hrun⟩ := bind_eq_ok hrun
  obtain ⟨certs, s₂, hlist, hrun⟩ := bind_eq_ok hrun
  obtain ⟨hsuccess, hentries⟩ := revokeEntries_true hrun
  obtain ⟨-, htargets⟩ := revokeCertsOnDiskForUser_success hdisk hsuccess
  have hlistKeeps := keeps_listUserCerts username s₁
  have hloopKeeps := keeps_revokeEntries certs disk.success s₂
  have hdiskKeeps := keeps_revokeCertsOnDiskForUser username s
  rw [hlist] at hlistKeeps
  rw [hrun] at hloopKeeps
  rw [hdisk] at hdiskKeeps
  refine ⟨fun name hname => ?_, fun hverdict cert hcert huser hdate => ?_⟩
  · obtain ⟨n, hopened, hn⟩ := htargets name hname
    exact ⟨n, hopened, hloopKeeps.crl (hlistKeeps.crl hn)⟩
  · have htak : s₁.tak = s.tak := by
      have hsame := sameTak_revokeCertsOnDiskForUser username s
      rwa [hdisk] at hsame
    unfold listUserCerts takeTak at hlist
    simp only [bind_apply, update_apply, htak, hverdict, read_apply,
      Prod.mk.injEq, Except.ok.injEq] at hlist
    refine hentries cert ?_ hdate
    rw [← hlist.1]
    refine List.mem_filter.mpr ⟨?_, by simpa using huser⟩
    rwa [hdiskKeeps.certadmin]

end FastTAK.Certs
