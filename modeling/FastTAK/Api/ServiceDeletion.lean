import FastTAK.Api.Deeds
import FastTAK.Certs.RetryConvergence
import FastTAK.Api.Sequential
import FastTAK.Identity.AttributeMerge
import FastTAK.Identity.Searches

/-!
# Deleting a service account

The certificate of a service account lies in `<account>.pem`, and the deletion looks for
`<account>-*.pem`.  This file says what a deletion with nothing failing puts on the revocation
list, and for which directories that is the certificate of the account and no other one.
-/

namespace FastTAK.Api

open FastTAK.Effect FastTAK.Effect.Prog FastTAK.Certs FastTAK.Identity FastTAK.Naming

variable {settings : Settings}

/-! ## What a faultless run lists -/

/-- A run that revokes all certificates of the account leaves the serial on the list: it is there
already, or the run has something new to mark and comes to the serial or finds it marked. -/
def Lists (username : String) (s : Pki) (n : ℕ) : Prop :=
  n ∈ s.crl ∨ (∃ m, some m ∈ attempted username s ∧ m ∉ s.index) ∧
    (n ∈ s.index ∨ some n ∈ attempted username s)

theorem mem_crl_iff_lists {username : String} {s s' : Pki} {n : ℕ}
    (hledger : s'.ledger = (s.ledger.attemptAll (attempted username s)).2) :
    n ∈ s'.crl ↔ Lists username s n := by
  have hcrl : n ∈ s'.crl ↔
      n ∈ (s.ledger.attemptAll (attempted username s)).2.published := by
    rw [← hledger]
    rfl
  rw [hcrl, Ledger.mem_published_attemptAll]
  change (∃ m, _ ∧ m ∉ s.index) ∧ (n ∈ s.index ∨ _) ∨ (∀ m, _ → m ∈ s.index) ∧ n ∈ s.crl ↔ _
  unfold Lists
  by_cases hfresh : ∃ m, some m ∈ attempted username s ∧ m ∉ s.index
  · have hnot : ¬ ∀ m, some m ∈ attempted username s → m ∈ s.index := by
      intro hall
      obtain ⟨m, hm, hnew⟩ := hfresh
      exact hnew (hall m hm)
    simp only [hfresh, hnot, true_and, false_and, or_false]
    exact ⟨Or.inr, fun h => h.elim (fun h => Or.inl (s.published h)) id⟩
  · have hall : ∀ m, some m ∈ attempted username s → m ∈ s.index := by
      intro m hm
      by_contra hnew
      exact hfresh ⟨m, hm, hnew⟩
    simp only [hfresh, false_and, false_or, or_false]
    exact ⟨fun h => h.2, fun h => ⟨hall, h⟩⟩

/-- The files are the same. -/
def SameFiles (s s' : Pki) : Prop := s'.files = s.files

instance : IsPreorder Pki SameFiles where
  refl _ := rfl
  trans _ _ _ hfirst hsecond := Eq.trans hsecond hfirst

/-- The files do not change, if there is no scratch copy of a certificate to make. -/
theorem files_revokeAllUserCerts {username : String} {s : Pki}
    (hcertadmin : ∀ cert ∈ s.certadmin, cert.username ≠ username) :
    (revokeAllUserCerts username s).2.files = s.files := by
  have hdisk : SameFiles s (revokeCertsOnDiskForUser username s).2 :=
    keeps_revokeCertsOnDiskForUser_of (fun _ _ => rfl)
      (fun name s => revokeInContainer_files name s) username s
  have hadmin := (keeps_revokeCertsOnDiskForUser username s).certadmin
  rw [revokeAllUserCerts, Call.bind_apply]
  rcases hrun : revokeCertsOnDiskForUser username s with ⟨e | disk, s₁⟩
  all_goals rw [hrun] at hdisk hadmin
  · exact hdisk
  · have hnone : s₁.certadmin.filter (fun cert => cert.username = username) = [] := by
      rw [List.filter_eq_nil_iff, hadmin]
      intro cert hcert
      simpa using hcertadmin cert hcert
    have hlist : (Certs.listUserCerts username s₁).1 = .ok [] ∨
        ∃ e, (Certs.listUserCerts username s₁).1 = .error e := by
      simp only [Certs.listUserCerts, takeTak, Call.bind_apply, Call.update_apply]
      cases nextVerdict s₁.tak with
      | runs => exact Or.inl (congrArg Except.ok hnone)
      | fails _ => exact Or.inl rfl
      | raises _ => exact Or.inr ⟨_, rfl⟩
    have hkept : (Certs.listUserCerts username s₁).2.files = s₁.files := by
      simp only [Certs.listUserCerts, takeTak, Call.bind_apply, Call.update_apply]
      cases nextVerdict s₁.tak with
      | runs => rfl
      | fails _ => rfl
      | raises _ => rfl
    dsimp only
    rw [Call.bind_apply]
    rcases hlisted : Certs.listUserCerts username s₁ with ⟨result, s₂⟩
    rw [hlisted] at hlist hkept
    rcases hlist with rfl | ⟨e, rfl⟩
    · exact hkept.trans hdisk
    · exact hkept.trans hdisk

/-! ## The request -/

section Request

variable {accountId : ℤ} {username : String} {account : Account} {w : World settings}

/-- An operation of a client leaves the certificates alone. -/
theorem pki_identity {α : Type} (program : IdProg settings α) (w : World settings) :
    ((identity program).run w).2.pki = w.pki := by
  rw [run_identity, Call.onPart_apply]
  rfl

/-- What an operation on the certificates leaves of them, whatever follows that keeps them. -/
theorem pki_certs_pure {α β : Type} (call : Call Exn Pki α) (b : β) (w : World settings) :
    ((certs call >>= fun _ => pure b : Handler settings β).run w).2.pki = (call w.pki).2 := by
  rw [run_bind, Call.bind_apply, certs, run_atomic, Call.onPart_apply]
  rcases call w.pki with ⟨e | a, s⟩
  · rfl
  · rfl

/-- The index with the list, and the files, are the same. -/
def SameCerts (s s' : Pki) : Prop := s'.ledger = s.ledger ∧ s'.files = s.files

instance : IsPreorder Pki SameCerts where
  refl _ := ⟨rfl, rfl⟩
  trans _ _ _ hfirst hsecond := ⟨hsecond.1.trans hfirst.1, hsecond.2.trans hfirst.2⟩

theorem sameCerts_docker (s : Pki) (queue : List Verdict) :
    SameCerts s { s with docker := queue } := ⟨rfl, rfl⟩

/-- What a run that revokes what the patterns find leaves of the certificates. -/
structure RevokesFound (username : String) (s s' : Pki) : Prop where
  ledger : s'.ledger = (s.ledger.attemptAll (attempted username s)).2
  files : s'.files = s.files

theorem RevokesFound.same {s s' s'' : Pki} (h : RevokesFound username s s')
    (hsame : SameCerts s' s'') : RevokesFound username s s'' where
  ledger := hsame.1.trans h.ledger
  files := hsame.2.trans h.files

/-- A deactivation and revocation with nothing failing. -/
theorem revokesFound_deactivateAndRevoke {client : Client}
    (hknown : Known client accountId username w.identity)
    (haccount : w.identity.directory.accounts.lookup username = some account)
    (hqueue : w.identity.lldap = []) (hcalm : w.pki.Faultless) (htak : settings.takConfigured)
    (hvalid : validateName username = none)
    (hcertadmin : ∀ cert ∈ w.pki.certadmin, cert.username ≠ username) :
    RevokesFound username w.pki
      ((deactivateAndRevoke client accountId username).run w).2.pki := by
  have hfiles := files_revokeAllUserCerts hcertadmin
  obtain ⟨s', hrevoke, hledger⟩ := revokeAllUserCerts_faultless hvalid hcalm
  rw [hrevoke] at hfiles
  have hdeactivate : ∃ s, (identity (deactivateUser client accountId)).run w =
      (.ok (), w.withIdentity s) := by
    rw [run_identity, Call.onPart_apply, run_deactivateUser hknown haccount hqueue]
    exact ⟨_, rfl⟩
  obtain ⟨s, hdeactivate⟩ := hdeactivate
  have hfound : RevokesFound username w.pki s' := ⟨hledger, hfiles⟩
  have hrevokeAll := @run_revokeAll _ username (w.withIdentity s) _ s' hrevoke
  rw [deactivateAndRevoke, run_bind, Call.bind_of_ok hdeactivate, if_pos htak, run_bind,
    Call.bind_of_ok hrevokeAll]
  split_ifs
  · rw [pki_identity]
    exact hfound
  · exact hfound

/-- The deletion of a service account with nothing failing. -/
theorem revokesFound_deleteServiceAccount
    (hresolves : Resolves .serviceAccounts accountId username w.identity)
    (haccount : w.identity.directory.accounts.lookup username = some account)
    (hcreated : StemOf (.service username) username)
    (hqueue : w.identity.lldap = []) (hcalm : w.pki.Faultless) (htak : settings.takConfigured)
    (hcertadmin : ∀ cert ∈ w.pki.certadmin, cert.username ≠ username) :
    RevokesFound username w.pki ((Request.deleteServiceAccount accountId).serve w).pki := by
  have hservice : "svc_".toList <+: username.toList := by
    cases hcreated with
    | service name _ _ => exact svc_prefix_serviceUsername name
  have hvisible : ¬ isHidden settings .serviceAccounts username := by
    simp [isHidden, Client.hiddenPrefixes]
  obtain ⟨s, hget, hquiet, hahead, hknown⟩ := run_getUser hresolves haccount hvisible
  have hrequire : (requireAccount accountId).run w = (.ok (toRecord settings
      (w.identity.directory.view username account)), w.withIdentity s) := by
    have hidentity := run_identity_of hget
    have hfaults : w.withFaults [] = w := by
      rw [World.withFaults, withQueue_nil hqueue]
      rfl
    rw [hfaults] at hidentity
    have hshown : "svc_".toList <+: (toRecord settings
        (w.identity.directory.view username account)).username.toList := hservice
    rw [requireAccount, run_bind, Call.bind_of_ok hidentity]
    dsimp only
    rw [if_pos hshown]
    rfl
  rw [← hquiet.directory] at haccount
  have hfound := @revokesFound_deactivateAndRevoke _ _ _ _ (w.withIdentity s) _ hknown haccount
    hahead hcalm htak hcreated.valid hcertadmin
  change RevokesFound username w.pki ((deleteServiceAccount accountId).run w).2.pki
  rw [deleteServiceAccount, run_bind, Call.bind_of_ok hrequire, run_bind, Call.bind_apply]
  have hname : (toRecord settings (w.identity.directory.view username account)).username =
      username := rfl
  rw [hname]
  rcases hrun : (deactivateAndRevoke .serviceAccounts accountId username).run
    (w.withIdentity s) with ⟨e | _, w₁⟩
  all_goals rw [hrun] at hfound
  · exact hfound
  · apply RevokesFound.same hfound
    have hpems := keeps_noderedPems sameCerts_docker username w₁.pki
    rw [← pki_certs_pure (noderedPems username) (Response.deleted username)] at hpems
    exact hpems

end Request

/-! ## What a deletion is for -/

/-- The deletion really revokes: the certificate of the account is on the list afterwards, the
certificates of others are as before, and the account is marked only with its certificate on the
list. -/
structure ReallyRevokes (username : String) (n : ℕ) (w w' : World settings) : Prop where
  revoked : n ∈ w'.pki.crl
  others : ∀ name cert origin, w.pki.file name = some ⟨.certificate cert, origin⟩ →
    origin.owner ≠ some username →
    w'.pki.file name = w.pki.file name ∧ (cert.serial ∈ w'.pki.crl ↔ cert.serial ∈ w.pki.crl)
  marked : ∀ attrs, w'.identity.directory.attributesOf username = some attrs →
    attrs.certsRevoked = some true → n ∈ w'.pki.crl

/-- A deletion with nothing failing, of an account that certadmin does not know, really revokes
the certificate in `<account>.pem` exactly if a run for `<account>-*.pem` lists its serial, and
lists no serial of somebody else that is not listed yet. -/
theorem deletion_revokes_iff {accountId : ℤ} {username : String} {account : Account}
    {w : World settings} {cert : Certificate}
    (hresolves : Resolves .serviceAccounts accountId username w.identity)
    (haccount : w.identity.directory.accounts.lookup username = some account)
    (hcreated : StemOf (.service username) username)
    (_hcert : w.pki.certOf username = some cert)
    (hqueue : w.identity.lldap = []) (hcalm : w.pki.Faultless) (htak : settings.takConfigured)
    (hcertadmin : ∀ cert ∈ w.pki.certadmin, cert.username ≠ username) :
    ReallyRevokes username cert.serial w ((Request.deleteServiceAccount accountId).serve w) ↔
      Lists username w.pki cert.serial ∧
        ∀ name other origin, w.pki.file name = some ⟨.certificate other, origin⟩ →
          origin.owner ≠ some username →
          Lists username w.pki other.serial → other.serial ∈ w.pki.crl := by
  have hfound := revokesFound_deleteServiceAccount hresolves haccount hcreated hqueue hcalm htak
    hcertadmin
  have hlists := fun n : ℕ => @mem_crl_iff_lists username w.pki _ n hfound.ledger
  constructor
  · intro hreally
    refine ⟨(hlists _).mp hreally.revoked, ?_⟩
    intro name other origin hfile hother hlisted
    exact (hreally.others name other origin hfile hother).2.mp ((hlists _).mpr hlisted)
  · rintro ⟨hown, hothers⟩
    have hrevoked := (hlists _).mpr hown
    refine ⟨hrevoked, ?_, fun _ _ _ => hrevoked⟩
    intro name other origin hfile hother
    refine ⟨?_, ?_⟩
    · rw [Pki.file, hfound.files, Pki.file]
    · rw [hlists]
      exact ⟨hothers name other origin hfile hother, fun h => Or.inl h⟩

/-- The service with the account "svc_cam", whose certificate has the serial 7. -/
def cameraWorld (listed : List ℕ) : World Settings.small where
  identity := .start (Directory.createUser "svc_cam" "Camera" .empty).2 0
  pki :=
    let s := Pki.empty.writeFile "svc_cam.pem" (.certificate ⟨7, "svc_cam", 365⟩)
      (.service "svc_cam")
    { s with index := listed, crl := listed, published := fun _ h => h }
  revocations := []

/-- The deletion succeeds and marks the account, and the certificate is not on the list. -/
theorem deletion_lists_nothing :
    let w := (Request.deleteServiceAccount (Settings.small.numericId "svc_cam")).serve
      (cameraWorld [])
    (cameraWorld []).pki.certOf "svc_cam" = some ⟨7, "svc_cam", 365⟩ ∧
      w.revocations.map (fun call => (call.username, call.answer)) = [("svc_cam", true)] ∧
      (w.identity.directory.attributesOf "svc_cam").bind Attributes.certsRevoked = some true ∧
      w.pki.crl = [] ∧ ¬ ReallyRevokes "svc_cam" 7 (cameraWorld []) w := by
  intro w
  have hcrl : w.pki.crl = [] := by decide +kernel
  refine ⟨by decide +kernel, by decide +kernel, by decide +kernel, hcrl, ?_⟩
  intro hreally
  have hrevoked := hreally.revoked
  rw [hcrl] at hrevoked
  cases hrevoked

/-- With the certificate revoked beforehand there is nothing left to do. -/
theorem deletion_revokes_listed :
    ReallyRevokes "svc_cam" 7 (cameraWorld [7])
      ((Request.deleteServiceAccount (Settings.small.numericId "svc_cam")).serve
        (cameraWorld [7])) := by
  have hresolves : Resolves .serviceAccounts (Settings.small.numericId "svc_cam") "svc_cam"
      (cameraWorld [7]).identity := by
    unfold Resolves
    decide +kernel
  have hcreated : StemOf (.service "svc_cam") "svc_cam" :=
    .service "svc_cam" (by decide) (by decide)
  have hcert : (cameraWorld [7]).pki.certOf "svc_cam" = some ⟨7, "svc_cam", 365⟩ := by
    decide +kernel
  apply (deletion_revokes_iff hresolves (AList.lookup_insert _) hcreated hcert rfl ⟨rfl, rfl⟩ rfl
    (fun _ h => by cases h)).mpr
  refine ⟨Or.inl (by decide), ?_⟩
  intro name other origin hfile hother
  rcases eq_or_ne name "svc_cam.pem" with rfl | hne
  · have hown : (cameraWorld [7]).pki.file "svc_cam.pem" =
        some ⟨.certificate ⟨7, "svc_cam", 365⟩, .service "svc_cam"⟩ := by decide +kernel
    rw [hown] at hfile
    obtain ⟨-, rfl⟩ := CertFile.mk.inj (Option.some.inj hfile)
    exact absurd rfl hother
  · have hnone : (cameraWorld [7]).pki.file name = none :=
      (Pki.file_writeFile_of_ne Pki.empty _ _ hne).trans (Pki.file_empty name)
    rw [hnone] at hfile
    cases hfile

end FastTAK.Api
