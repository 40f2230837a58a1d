import FastTAK.Certs.RetryConvergence

/-!
# What a true answer leaves on the list

`revoke_all_user_certs` may meet any failures.  When it answers `True`, every certificate it came
to, on disk or in the listing of certadmin, was a successful attempt on the ledger.  That
determines the revocation list afterwards, and so the states from which `True` means that all
certificates of the user are revoked.
-/

namespace FastTAK.Certs

open FastTAK.Effect FastTAK.Effect.Call FastTAK.Api FastTAK.Naming

/-! ## Successful attempts -/

/-- All attempts succeed, and the second state has the ledger they leave. -/
def Succeeds (entries : List (Option ℕ)) (s s' : Pki) : Prop :=
  s.ledger.attemptAll entries = (true, s'.ledger)

theorem Succeeds.append {first rest : List (Option ℕ)} {s s' s'' : Pki}
    (hfirst : Succeeds first s s') (hrest : Succeeds rest s' s'') :
    Succeeds (first ++ rest) s s'' := by
  rw [Succeeds] at hfirst hrest
  rw [Succeeds, Ledger.attemptAll_append, hfirst, hrest]
  rfl

theorem Succeeds.cons {entry : Option ℕ} {entries : List (Option ℕ)} {s s' s'' : Pki}
    (hfirst : Succeeds [entry] s s') (hrest : Succeeds entries s' s'') :
    Succeeds (entry :: entries) s s'' :=
  hfirst.append hrest

theorem succeeds_nil {s s' : Pki} (hledger : s'.ledger = s.ledger) : Succeeds [] s s' := by
  rw [Succeeds, hledger]
  rfl

/-- The ledger is the same. -/
def SameLedger (s s' : Pki) : Prop := s'.ledger = s.ledger

instance : IsPreorder Pki SameLedger where
  refl _ := rfl
  trans _ _ _ hfirst hsecond := Eq.trans hsecond hfirst

theorem Succeeds.same {entries : List (Option ℕ)} {s s' s'' : Pki}
    (h : Succeeds entries s s') (hsame : SameLedger s' s'') : Succeeds entries s s'' := by
  rw [Succeeds, hsame]
  exact h

theorem PipelineEnd.succeeds {name : String} {s s' : Pki}
    (hend : PipelineEnd name s true s') : Succeeds [s.openedSerial name] s s' := by
  cases hend with
  | published n hopened hfresh =>
      have hattempt : s.ledger.attempt (some n) = (true, ⟨n :: s.index, n :: s.index⟩) :=
        if_neg hfresh
      rw [Succeeds, hopened, Ledger.attemptAll_cons, hattempt]
      rfl

/-! ## Each operation that reports success -/

theorem revokeInContainer_succeeds {name : String} {s s' : Pki} {outcome : Outcome}
    (hrun : revokeInContainer name s = (.ok outcome, s')) (hsuccess : outcome.success) :
    Succeeds [s.openedSerial name] s s' := by
  obtain ⟨outcome', s'', hrun', hend⟩ := revokeInContainer_returns name s
  rw [hrun, Prod.mk.injEq, Except.ok.injEq] at hrun'
  obtain ⟨rfl, rfl⟩ := hrun'
  rw [hsuccess] at hend
  exact hend.succeeds

theorem revokeTargets_succeeds {names : List String} {errors errors' : List (String × String)}
    {s s' : Pki} (hrun : revokeTargets names errors s = (.ok errors', s'))
    (hnone : errors' = []) : Succeeds (names.map s.openedSerial) s s' := by
  induction names generalizing errors s with
  | nil =>
      obtain ⟨-, rfl⟩ := pure_eq_ok.mp hrun
      exact succeeds_nil rfl
  | cons name names ih =>
      obtain ⟨outcome, s₁, hfirst, hrest⟩ := bind_eq_ok hrun
      have hfiles : s₁.files = s.files := by
        rw [← revokeInContainer_files name s, hfirst]
      have hopened : s₁.openedSerial = s.openedSerial :=
        funext (openedSerial_of_files_eq hfiles)
      split_ifs at hrest with hsuccess
      · have htail := ih hrest
        rw [hopened] at htail
        exact (revokeInContainer_succeeds hfirst hsuccess).cons htail
      · have hnew := (revokeTargets_no_errors hrest hnone).1
        exact absurd hnew (by simp)

theorem revokeCertsOnDiskForUser_succeeds {username : String} {s s' : Pki} {disk : DiskOutcome}
    (hrun : revokeCertsOnDiskForUser username s = (.ok disk, s')) (hsuccess : disk.success) :
    Succeeds ((diskTargets username s.fileNames).map s.openedSerial) s s' := by
  unfold revokeCertsOnDiskForUser at hrun
  cases hvalid : validateName username with
  | some error =>
      rw [hvalid] at hrun
      rw [← (pure_eq_ok.mp hrun).1] at hsuccess
      cases hsuccess
  | none =>
      rw [hvalid] at hrun
      obtain ⟨missing, s₁, hcontainer, hrun⟩ := bind_eq_ok hrun
      obtain ⟨rfl, -⟩ := getTakContainer_returned hcontainer
      cases missing with
      | some error =>
          rw [← (pure_eq_ok.mp hrun).1] at hsuccess
          cases hsuccess
      | none =>
          obtain ⟨verdict, s₂, hfind, hrun⟩ := bind_eq_ok hrun
          obtain ⟨-, rfl⟩ := Prod.mk.inj hfind
          cases verdict with
          | fails _ =>
              rw [← (pure_eq_ok.mp hrun).1] at hsuccess
              cases hsuccess
          | raises _ => simp at hrun
          | runs =>
              obtain ⟨names, s₃, hnames, hrun⟩ := bind_eq_ok hrun
              obtain ⟨rfl, rfl⟩ := read_eq_ok.mp hnames
              change ((if diskTargets username s.fileNames = [] then _ else _ :
                Call Exn Pki DiskOutcome) _) = _ at hrun
              split_ifs at hrun with hempty
              · obtain ⟨-, rfl⟩ := pure_eq_ok.mp hrun
                rw [hempty]
                exact succeeds_nil rfl
              · obtain ⟨errors, s₄, hloop, hrun⟩ := bind_eq_ok hrun
                obtain ⟨rfl, rfl⟩ := pure_eq_ok.mp hrun
                have hnone : errors = [] := by simpa using of_decide_eq_true hsuccess
                have htargets := revokeTargets_succeeds hloop hnone
                exact htargets

theorem sameLedger_removeScratch (name : String) : Keeps SameLedger (removeScratch name) := by
  refine keeps_bind (keeps_execRun (fun _ _ => rfl) ?_) fun _ => keeps_pure _
  intro step hstep s s' hrun
  obtain rfl := List.mem_singleton.mp hstep
  obtain rfl := Option.some.inj hrun
  rfl

theorem revokeCertByPem_succeeds {content : Body} {s s' : Pki} {outcome : Outcome}
    (hrun : revokeCertByPem content s = (.ok outcome, s')) (hsuccess : outcome.success) :
    Succeeds [contentSerial (some content)] s s' := by
  obtain ⟨missing, s₁, hcontainer, hrun⟩ := bind_eq_ok hrun
  obtain ⟨rfl, herror⟩ := getTakContainer_returned hcontainer
  cases missing with
  | some error =>
      rw [← (pure_eq_ok.mp hrun).1, herror error rfl] at hsuccess
      cases hsuccess
  | none =>
      obtain ⟨random, s₂, hrandom, hrun⟩ := bind_eq_ok hrun
      obtain ⟨-, rfl⟩ := Prod.mk.inj hrandom
      rcases tryExcept_eq_ok hrun with hrun | ⟨e, s₃, -, hrun⟩
      · obtain ⟨⟨⟩, s₃, hput, hrun⟩ := bind_eq_ok hrun
        obtain ⟨result, s₄, hrevoke, hrun⟩ := bind_eq_ok hrun
        obtain ⟨⟨⟩, s₅, hremove, hrun⟩ := bind_eq_ok hrun
        obtain ⟨rfl, rfl⟩ := pure_eq_ok.mp hrun
        have hrevoked := revokeInContainer_succeeds hrevoke hsuccess
        have hopened : s₃.openedSerial (scratchName random) = contentSerial (some content) := by
          rw [putArchive_returned hput]
          apply Option.ext
          intro n
          rw [openedSerial_scratch]
          cases content <;> simp [contentSerial]
        have hledger : s₃.ledger = s.ledger := by
          rw [putArchive_returned hput]
          rfl
        have hremoved := sameLedger_removeScratch (scratchName random ++ ".pem") s₄
        rw [hremove] at hremoved
        rw [hopened, Succeeds, hledger] at hrevoked
        exact Succeeds.same hrevoked hremoved
      · rw [← (pure_eq_ok.mp hrun).1] at hsuccess
        cases hsuccess

theorem revokeEntries_succeeds {certs : List CertadminCert} {allOk : Bool} {s s' : Pki}
    (hrun : revokeEntries certs allOk s = (.ok true, s')) :
    Succeeds (pendingSerials certs) s s' := by
  induction certs generalizing allOk s with
  | nil =>
      obtain ⟨-, rfl⟩ := pure_eq_ok.mp hrun
      exact succeeds_nil rfl
  | cons cert certs ih =>
      unfold revokeEntries at hrun
      cases hdate : cert.revocationDate with
      | some date =>
          have hskip : pendingSerials (cert :: certs) = pendingSerials certs := by
            simp [pendingSerials, hdate]
          rw [hdate] at hrun
          rw [hskip]
          exact ih hrun
      | none =>
          have htake : pendingSerials (cert :: certs) =
              contentSerial cert.certificate :: pendingSerials certs := by
            simp [pendingSerials, hdate]
          rw [hdate, Option.isSome_none, if_neg Bool.false_ne_true] at hrun
          cases hpem : cert.certificate with
          | none =>
              rw [hpem] at hrun
              exact absurd (revokeEntries_true hrun).1 Bool.false_ne_true
          | some content =>
              rw [hpem] at hrun
              obtain ⟨result, s₁, hfirst, hloop⟩ := bind_eq_ok hrun
              have hall := (revokeEntries_true hloop).1
              rw [Bool.and_eq_true] at hall
              rw [htake, hpem]
              exact (revokeCertByPem_succeeds hfirst hall.2).cons (ih hloop)

/-! ## The whole run -/

/-- What certadmin answers to the next listing: nothing if the request fails. -/
def listed (username : String) (s : Pki) : List CertadminCert :=
  match nextVerdict s.tak with
  | .runs => s.certadmin.filter (·.username = username)
  | _ => []

/-- What the next run comes to, on disk and in the listing. -/
def reached (username : String) (s : Pki) : List (Option ℕ) :=
  (diskTargets username s.fileNames).map s.openedSerial ++ pendingSerials (listed username s)

theorem listUserCerts_returned {username : String} {s s' : Pki} {certs : List CertadminCert}
    (hrun : listUserCerts username s = (.ok certs, s')) :
    certs = listed username s ∧ SameLedger s s' := by
  unfold listUserCerts takeTak at hrun
  unfold listed
  simp only [bind_apply, update_apply] at hrun
  cases hverdict : nextVerdict s.tak with
  | runs =>
      rw [hverdict] at hrun
      obtain ⟨rfl, rfl⟩ := read_eq_ok.mp hrun
      exact ⟨rfl, rfl⟩
  | fails _ =>
      rw [hverdict] at hrun
      obtain ⟨rfl, rfl⟩ := pure_eq_ok.mp hrun
      exact ⟨rfl, rfl⟩
  | raises _ =>
      rw [hverdict] at hrun
      cases (Prod.mk.inj hrun).1

/-- Whatever fails: after `True`, everything the run came to was a successful attempt. -/
theorem revokeAllUserCerts_succeeds {username : String} {s s' : Pki}
    (hrun : revokeAllUserCerts username s = (.ok true, s')) :
    Succeeds (reached username s) s s' := by
  obtain ⟨disk, s₁, hdisk, hrun⟩ := bind_eq_ok hrun
  obtain ⟨certs, s₂, hlist, hrun⟩ := bind_eq_ok hrun
  have htak := sameTak_revokeCertsOnDiskForUser username s
  have hadmin := (keeps_revokeCertsOnDiskForUser username s).certadmin
  rw [hdisk] at htak hadmin
  obtain ⟨rfl, hsame⟩ := listUserCerts_returned hlist
  have hlisted : listed username s₁ = listed username s := by
    rw [listed, listed, htak, hadmin]
  have hentries := revokeEntries_succeeds hrun
  rw [hlisted] at hentries
  have hfirst := revokeCertsOnDiskForUser_succeeds hdisk (revokeEntries_true hrun).1
  exact (hfirst.same hsame).append hentries

/-- The certificates of the user that a run from the state does not come to are on the list, or
will be because the list is written again from an index that has them. -/
def Covered (username : String) (s : Pki) : Prop :=
  ∀ n ∈ s.userSerials username, some n ∈ reached username s ∨ n ∈ s.crl ∨
    reached username s ≠ [] ∧ n ∈ s.index

/-- Whatever fails: `True` means that all certificates of the user are on the list exactly if
the state was covered. -/
theorem revoked_iff_covered {username : String} {s s' : Pki}
    (hrun : revokeAllUserCerts username s = (.ok true, s')) :
    (∀ n ∈ s.userSerials username, n ∈ s'.crl) ↔ Covered username s := by
  have hsucceeds := revokeAllUserCerts_succeeds hrun
  have hcrl : ∀ n, n ∈ s'.crl ↔ some n ∈ reached username s ∨ n ∈ s.crl ∨
      reached username s ≠ [] ∧ n ∈ s.index :=
    fun n => Ledger.mem_published_of_succeeds s.published hsucceeds
  exact forall₂_congr fun n _ => hcrl n

end FastTAK.Certs
