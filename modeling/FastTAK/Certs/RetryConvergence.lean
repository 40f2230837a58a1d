import FastTAK.Base.Ledger
import FastTAK.Certs.RevocationSpec

/-!
# Does a later revocation catch up?

When nothing outside fails, the revocation of all certificates of a user is a
sequence of attempts on a ledger: `openssl ca -revoke` refuses a serial that the
index already marks.  This file proves that refinement and determines from which
states a faultless run returns `True` and leaves the user's certificates on the
list.
-/

namespace FastTAK.Certs

open FastTAK.Effect FastTAK.Effect.Call FastTAK.Api FastTAK.Naming

/-! ## Faultless revocations are ledger attempts -/

/-- The index and the revocation list as a ledger. -/
def Pki.ledger (s : Pki) : Ledger ℕ := ⟨s.index, s.crl⟩

/-- Nothing outside fails from here on. -/
def Pki.Faultless (s : Pki) : Prop := s.docker = [] ∧ s.tak = []

/-- What a faultless revocation leaves alone. -/
structure LedgerOnly (s s' : Pki) : Prop where
  docker : s'.docker = s.docker
  tak : s'.tak = s.tak
  certadmin : s'.certadmin = s.certadmin

theorem LedgerOnly.refl (s : Pki) : LedgerOnly s s := ⟨rfl, rfl, rfl⟩

theorem LedgerOnly.trans {s s' s'' : Pki} (hfirst : LedgerOnly s s')
    (hsecond : LedgerOnly s' s'') : LedgerOnly s s'' :=
  ⟨hsecond.docker.trans hfirst.docker, hsecond.tak.trans hfirst.tak,
    hsecond.certadmin.trans hfirst.certadmin⟩

theorem takeDocker_faultless {s : Pki} (hs : s.docker = []) :
    takeDocker s = (.ok .runs, s) := by
  obtain ⟨files, index, crl, published, certadmin, docker, tak, entropy⟩ := s
  obtain rfl : docker = [] := hs
  rfl

theorem takeTak_faultless {s : Pki} (hs : s.tak = []) :
    takeTak s = (.ok .runs, s) := by
  obtain ⟨files, index, crl, published, certadmin, docker, tak, entropy⟩ := s
  obtain rfl : tak = [] := hs
  rfl

theorem getTakContainer_faultless {s : Pki} (hs : s.docker = []) :
    getTakContainer s = (.ok none, s) := by
  rw [getTakContainer, bind_of_ok (takeDocker_faultless hs)]
  rfl

theorem execRun_faultless {s : Pki} (hs : s.docker = [])
    (steps : List (Pki → Option Pki)) :
    execRun steps s = (.ok (runSteps steps s).1, (runSteps steps s).2) := by
  rw [execRun, bind_of_ok (takeDocker_faultless hs)]
  rfl

theorem revokeInContainer_faultless {s : Pki} (hs : s.docker = []) (name : String) :
    ∃ outcome s', revokeInContainer name s = (.ok outcome, s') ∧
      outcome.success = (s.ledger.attempt (s.openedSerial name)).1 ∧
      s'.ledger = (s.ledger.attempt (s.openedSerial name)).2 ∧
      s'.files = s.files ∧ LedgerOnly s s' := by
  have hexec := execRun_faultless hs (revokeSteps name)
  have hrun : revokeInContainer name s =
      (.ok (if (runSteps (revokeSteps name) s).1 then .ok else .fail ""),
        (runSteps (revokeSteps name) s).2) := by
    rw [revokeInContainer]
    refine tryExcept_of_ok ?_ _
    rw [bind_of_ok hexec]
    rfl
  rw [hrun, runSteps_revokeSteps]
  cases hopened : s.openedSerial name with
  | none => exact ⟨_, _, rfl, rfl, rfl, rfl, .refl s⟩
  | some n =>
      by_cases hn : n ∈ s.index
      · have hattempt : s.ledger.attempt (some n) = (false, s.ledger) :=
          if_pos hn
        simp only [hn, if_true, hattempt]
        exact ⟨_, _, rfl, rfl, rfl, rfl, .refl s⟩
      · have hattempt : s.ledger.attempt (some n) =
            (true, ⟨n :: s.index, n :: s.index⟩) := if_neg hn
        simp only [hn, if_false, hattempt]
        exact ⟨_, _, rfl, rfl, rfl, rfl, ⟨rfl, rfl, rfl⟩⟩

theorem revokeTargets_faultless (names : List String)
    (errors : List (String × String)) {s : Pki} (hs : s.docker = []) :
    ∃ errors' s', revokeTargets names errors s = (.ok errors', s') ∧
      (errors' = [] ↔ errors = [] ∧
        (s.ledger.attemptAll (names.map s.openedSerial)).1) ∧
      s'.ledger = (s.ledger.attemptAll (names.map s.openedSerial)).2 ∧
      s'.files = s.files ∧ LedgerOnly s s' := by
  induction names generalizing errors s with
  | nil => exact ⟨errors, s, rfl, by simp [Ledger.attemptAll], rfl, rfl, .refl s⟩
  | cons name names ih =>
      obtain ⟨outcome, s₁, hfirst, hsuccess, hledger, hfiles, honly⟩ :=
        revokeInContainer_faultless hs name
      have hopened : s₁.openedSerial = s.openedSerial :=
        funext (openedSerial_of_files_eq hfiles)
      have hdocker : s₁.docker = [] := honly.docker.trans hs
      rw [List.map_cons, Ledger.attemptAll_cons, revokeTargets, bind_of_ok hfirst,
        ← hsuccess, ← hledger, ← hopened]
      by_cases houtcome : outcome.success
      · obtain ⟨errors', s', hrun, herrors, hend, hkept, honly'⟩ := ih errors hdocker
        refine ⟨errors', s', by rw [if_pos houtcome]; exact hrun, ?_, hend,
          hkept.trans hfiles, honly.trans honly'⟩
        rw [herrors, houtcome, Bool.true_and]
      · obtain ⟨errors', s', hrun, herrors, hend, hkept, honly'⟩ :=
          ih (errors ++ [(name, outcome.error)]) hdocker
        refine ⟨errors', s', by rw [if_neg houtcome]; exact hrun, ?_, hend,
          hkept.trans hfiles, honly.trans honly'⟩
        simp [herrors, houtcome]

/-- What `revoke_cert_by_pem` gets to revoke of a certadmin entry. -/
def contentSerial : Option Body → Option ℕ
  | some (.certificate cert) => some cert.serial
  | _ => none

theorem revokeCertByPem_faultless {s : Pki} (hs : s.docker = []) (content : Body) :
    ∃ outcome s', revokeCertByPem content s = (.ok outcome, s') ∧
      outcome.success = (s.ledger.attempt (contentSerial (some content))).1 ∧
      s'.ledger = (s.ledger.attempt (contentSerial (some content))).2 ∧
      LedgerOnly s s' := by
  let written : Pki := ({ s with entropy := s.entropy.tail } : Pki).writeFile
    (scratchName (s.entropy.headD 0) ++ ".pem") content .scratch
  have hopened : written.openedSerial (scratchName (s.entropy.headD 0)) =
      contentSerial (some content) := by
    apply Option.ext
    intro n
    rw [openedSerial_scratch]
    cases content <;> simp [contentSerial]
  have hwritten : written.docker = [] := hs
  obtain ⟨outcome, s₁, hrevoke, hsuccess, hledger, -, honly⟩ :=
    revokeInContainer_faultless hwritten (scratchName (s.entropy.headD 0))
  rw [hopened] at hsuccess hledger
  have hremove : removeScratch (scratchName (s.entropy.headD 0) ++ ".pem") s₁ =
      (.ok (), s₁.removeFile (scratchName (s.entropy.headD 0) ++ ".pem")) := by
    rw [removeScratch, bind_of_ok (execRun_faultless (honly.docker.trans hwritten) _)]
    rfl
  have hput : putArchive (scratchName (s.entropy.headD 0) ++ ".pem") content
      { s with entropy := s.entropy.tail } = (.ok (), written) := by
    have htake : takeDocker { s with entropy := s.entropy.tail } =
        (.ok .runs, { s with entropy := s.entropy.tail }) := takeDocker_faultless hs
    rw [putArchive, bind_of_ok htake]
    rfl
  have hbody : (do
      putArchive (scratchName (s.entropy.headD 0) ++ ".pem") content
      let result ← revokeInContainer (scratchName (s.entropy.headD 0))
      removeScratch (scratchName (s.entropy.headD 0) ++ ".pem")
      return result : Call Exn Pki Outcome) { s with entropy := s.entropy.tail } =
      (.ok outcome,
        s₁.removeFile (scratchName (s.entropy.headD 0) ++ ".pem")) := by
    rw [bind_of_ok hput, bind_of_ok hrevoke, bind_of_ok hremove]
    rfl
  refine ⟨outcome, s₁.removeFile (scratchName (s.entropy.headD 0) ++ ".pem"),
    ?_, hsuccess, hledger, ?_⟩
  · rw [revokeCertByPem, bind_of_ok (getTakContainer_faultless hs)]
    exact tryExcept_of_ok hbody _
  · exact ⟨honly.docker, honly.tak, honly.certadmin⟩

/-- The entries of a certadmin listing that are still to be revoked. -/
def pendingSerials (certs : List CertadminCert) : List (Option ℕ) :=
  (certs.filter (·.revocationDate = none)).map (contentSerial ·.certificate)

theorem revokeEntries_faultless (certs : List CertadminCert) (allOk : Bool)
    {s : Pki} (hs : s.docker = []) :
    ∃ s', revokeEntries certs allOk s =
        (.ok (allOk && (s.ledger.attemptAll (pendingSerials certs)).1), s') ∧
      s'.ledger = (s.ledger.attemptAll (pendingSerials certs)).2 := by
  induction certs generalizing allOk s with
  | nil => exact ⟨s, by simp [revokeEntries, pendingSerials, Ledger.attemptAll], rfl⟩
  | cons cert certs ih =>
      unfold revokeEntries
      cases hdate : cert.revocationDate with
      | some date =>
          have hskip : pendingSerials (cert :: certs) = pendingSerials certs := by
            simp [pendingSerials, hdate]
          rw [hskip]
          exact ih allOk hs
      | none =>
          have htake : pendingSerials (cert :: certs) =
              contentSerial cert.certificate :: pendingSerials certs := by
            simp [pendingSerials, hdate]
          rw [htake, Ledger.attemptAll_cons]
          cases hpem : cert.certificate with
          | none =>
              have hattempt : s.ledger.attempt (contentSerial none) =
                  (false, s.ledger) := rfl
              rw [hattempt]
              obtain ⟨s', hrun, hend⟩ := ih false hs
              exact ⟨s', by simpa using hrun, hend⟩
          | some content =>
              obtain ⟨outcome, s₁, hfirst, hsuccess, hledger, honly⟩ :=
                revokeCertByPem_faultless hs content
              obtain ⟨s', hrun, hend⟩ :=
                ih (allOk && outcome.success) (honly.docker.trans hs)
              refine ⟨s', ?_, by rw [← hledger]; exact hend⟩
              rw [← hsuccess, ← hledger, ← Bool.and_assoc]
              change (revokeCertByPem content >>= _) s = _
              rw [bind_of_ok hfirst]
              exact hrun

/-- Everything that revoking all certificates of a user attempts, in order. -/
def attempted (username : String) (s : Pki) : List (Option ℕ) :=
  (diskTargets username s.fileNames).map s.openedSerial ++
    pendingSerials (s.certadmin.filter (·.username = username))

/-- A faultless run for a valid name is the sequence of attempts. -/
theorem revokeAllUserCerts_faultless {username : String} {s : Pki}
    (hvalid : validateName username = none) (hs : s.Faultless) :
    ∃ s', revokeAllUserCerts username s =
        (.ok (s.ledger.attemptAll (attempted username s)).1, s') ∧
      s'.ledger = (s.ledger.attemptAll (attempted username s)).2 := by
  obtain ⟨hdocker, htak⟩ := hs
  have hdisk : ∃ disk s₁, revokeCertsOnDiskForUser username s = (.ok disk, s₁) ∧
      disk.success = (s.ledger.attemptAll
        ((diskTargets username s.fileNames).map s.openedSerial)).1 ∧
      s₁.ledger = (s.ledger.attemptAll
        ((diskTargets username s.fileNames).map s.openedSerial)).2 ∧
      LedgerOnly s s₁ := by
    unfold revokeCertsOnDiskForUser
    rw [hvalid]
    dsimp only
    rw [bind_of_ok (getTakContainer_faultless hdocker)]
    dsimp only
    rw [bind_of_ok (takeDocker_faultless hdocker)]
    dsimp only
    rw [bind_of_ok (read_apply _ s)]
    by_cases hnil : diskTargets username s.fileNames = []
    · rw [if_pos hnil, hnil]
      exact ⟨_, s, rfl, rfl, rfl, .refl s⟩
    · rw [if_neg hnil]
      obtain ⟨errors, s', hrun, herrors, hend, -, honly⟩ :=
        revokeTargets_faultless (diskTargets username s.fileNames) [] hdocker
      rw [bind_of_ok hrun]
      refine ⟨_, s', rfl, ?_, hend, honly⟩
      rw [Bool.eq_iff_iff, decide_eq_true_eq, List.length_eq_zero_iff, herrors]
      simp
  obtain ⟨disk, s₁, hdiskRun, hsuccess, hledger, honly⟩ := hdisk
  have hlist : listUserCerts username s₁ =
      (.ok (s.certadmin.filter (·.username = username)), s₁) := by
    rw [listUserCerts, bind_of_ok (takeTak_faultless (honly.tak.trans htak))]
    change (Except.ok (s₁.certadmin.filter _), s₁) = _
    rw [honly.certadmin]
  obtain ⟨s', hentries, hend⟩ := revokeEntries_faultless
    (s.certadmin.filter (·.username = username)) disk.success
    (honly.docker.trans hdocker)
  refine ⟨s', ?_, ?_⟩
  · rw [revokeAllUserCerts, bind_of_ok hdiskRun, bind_of_ok hlist, hentries,
      attempted, Ledger.attemptAll_append, hledger, hsuccess]
  · rw [attempted, Ledger.attemptAll_append, ← hledger]
    exact hend

/-! ## Retries after any history -/

/-- What the outside world does to the next attempt. -/
structure Weather where
  docker : List Verdict
  tak : List Verdict
  entropy : List ℕ

def Pki.under (s : Pki) (weather : Weather) : Pki :=
  { s with
    docker := weather.docker
    tak := weather.tak
    entropy := weather.entropy }

/-- An attempt to revoke: all certificates of a user, as `delete_user` and the
expiry check do, or one of them through `revoke_user_cert`. -/
inductive Attempt where
  | all (username : String)
  | byName (name : String)
  | byPem (content : Body)
  | flag (certId : ℤ)

/-- The state after the attempt, however it ended. -/
def Attempt.after : Attempt → Pki → Pki
  | .all username, s => (revokeAllUserCerts username s).2
  | .byName name, s => (revokeCertByName name s).2
  | .byPem content, s => (revokeCertByPem content s).2
  | .flag certId, s => (revokeCert certId s).2

def afterHistory (s : Pki) (history : List (Weather × Attempt)) : Pki :=
  history.foldl (fun s attempt => attempt.2.after (s.under attempt.1)) s

/-- The next run, with nothing failing outside, returns `True` and leaves every
certificate of the user on the list. -/
def Converges (username : String) (entropy : List ℕ) (s : Pki) : Prop :=
  ∃ s', revokeAllUserCerts username (s.under ⟨[], [], entropy⟩) =
      (.ok true, s') ∧
    ∀ n ∈ s.userSerials username, n ∈ s'.crl

/-- The states from which a run converges: every file and every PEM it comes
to can be read, no serial among them is marked in the index or occurs twice,
and a certificate it does not come to is on the list, or will be because the
list is written again from an index that has it. -/
structure Recoverable (username : String) (s : Pki) : Prop where
  valid : validateName username = none
  readable : ∀ entry ∈ attempted username s, entry.isSome
  distinct : (attempted username s).Nodup
  fresh : ∀ n, some n ∈ attempted username s → n ∉ s.index
  covered : ∀ n ∈ s.userSerials username, some n ∈ attempted username s ∨
    n ∈ s.crl ∨ attempted username s ≠ [] ∧ n ∈ s.index

theorem revokeAllUserCerts_true_valid {username : String} {s s' : Pki}
    (hrun : revokeAllUserCerts username s = (.ok true, s')) :
    validateName username = none := by
  obtain ⟨disk, s₁, hdisk, hrun⟩ := bind_eq_ok hrun
  obtain ⟨certs, s₂, -, hrun⟩ := bind_eq_ok hrun
  have hsuccess := (revokeEntries_true hrun).1
  cases hvalid : validateName username with
  | none => rfl
  | some error =>
      rw [revokeCertsOnDiskForUser, hvalid] at hdisk
      rw [← (pure_eq_ok.mp hdisk).1] at hsuccess
      cases hsuccess

/-- When all attempts succeed, the list has what was attempted; it has the rest
of the index exactly if anything was attempted. -/
theorem mem_crl_of_all_succeed {username : String} {s s' : Pki} {n : ℕ}
    (hread : ∀ entry ∈ attempted username s, entry.isSome)
    (hfresh : ∀ n, some n ∈ attempted username s → n ∉ s.index)
    (hledger : s'.ledger = (s.ledger.attemptAll (attempted username s)).2) :
    n ∈ s'.crl ↔ some n ∈ attempted username s ∨ n ∈ s.crl ∨
      attempted username s ≠ [] ∧ n ∈ s.index := by
  have hcrl : n ∈ s'.crl ↔
      n ∈ (s.ledger.attemptAll (attempted username s)).2.published := by
    rw [← hledger]
    rfl
  rw [hcrl]
  exact Ledger.mem_published_of_fresh s.published hread hfresh

/-- After any history of attempts, a faultless run converges exactly from the
recoverable states. -/
theorem retry_converges_iff (s₀ : Pki) (history : List (Weather × Attempt))
    (username : String) (entropy : List ℕ) :
    Converges username entropy (afterHistory s₀ history) ↔
      Recoverable username (afterHistory s₀ history) := by
  generalize afterHistory s₀ history = s
  have hcalm : (s.under ⟨[], [], entropy⟩).Faultless := ⟨rfl, rfl⟩
  have hsame : attempted username (s.under ⟨[], [], entropy⟩) =
      attempted username s := rfl
  constructor
  · rintro ⟨s', hrun, hcovered⟩
    have hvalid := revokeAllUserCerts_true_valid hrun
    obtain ⟨s'', hrun', hledger⟩ := revokeAllUserCerts_faultless hvalid hcalm
    rw [hrun, Prod.mk.injEq, Except.ok.injEq] at hrun'
    obtain ⟨hall, rfl⟩ := hrun'
    obtain ⟨hread, hdistinct, hfresh⟩ :=
      (Ledger.attemptAll_fst_iff _ _).mp hall.symm
    exact {
      valid := hvalid
      readable := hread
      distinct := hdistinct
      fresh := hfresh
      covered := fun n hn =>
        (mem_crl_of_all_succeed hread hfresh hledger).mp (hcovered n hn) }
  · intro hrecoverable
    obtain ⟨s', hrun, hledger⟩ :=
      revokeAllUserCerts_faultless hrecoverable.valid hcalm
    have hall := (Ledger.attemptAll_fst_iff
      (s.under ⟨[], [], entropy⟩).ledger _).mpr
        ⟨hrecoverable.readable, hrecoverable.distinct, hrecoverable.fresh⟩
    rw [hsame] at hrun
    rw [hall] at hrun
    refine ⟨s', hrun, fun n hn => ?_⟩
    exact (mem_crl_of_all_succeed hrecoverable.readable hrecoverable.fresh
      hledger).mpr (hrecoverable.covered n hn)

/-- One run whose list could not be written is enough: the index marks the
serial, every later run fails on it and the list stays without it. -/
theorem retry_stuck_after_failed_genCrl :
    let s := afterHistory
      (Pki.empty.writeFile "alice-phone.pem" (.certificate ⟨7, "alice", 365⟩)
        (.user "alice" "phone"))
      [(⟨[.runs, .runs, .fails 2], [], []⟩, .all "alice")]
    ¬ Converges "alice" [] s ∧ s.index = [7] ∧ s.userSerials "alice" = [7] ∧
      (revokeAllUserCerts "alice" (s.under ⟨[], [], []⟩)).2.crl = [] := by
  refine ⟨?_, by decide +kernel, by decide +kernel, by decide +kernel⟩
  rintro ⟨s', hrun, -⟩
  have hreturned : _ = Except.ok true := congrArg Prod.fst hrun
  exact absurd hreturned (by decide +kernel)

end FastTAK.Certs
