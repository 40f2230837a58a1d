import FastTAK.Api.Deeds
import FastTAK.Api.Sequential

/-!
# Whose files generation overwrites

`generate_client_cert` writes the four files of its stem, whatever is there.  What keeps it from
anyone else's files is that no stem is used twice: this file remembers the stems of a run, those
of the files that were there before it among them, and shows that no file changes hands as long
as every request comes with a stem of its own.
-/

namespace FastTAK.Api

open FastTAK.Effect FastTAK.Effect.Prog FastTAK.Certs FastTAK.Identity FastTAK.Naming

variable {settings : Settings} {α : Type}

/-! ## Stems and their files -/

/-- Every file is still there, for whomever it was. -/
def KeepsOrigins (s s' : Pki) : Prop :=
  ∀ name f, s.file name = some f → ∃ f', s'.file name = some f' ∧ f'.origin = f.origin

instance : IsPreorder Pki KeepsOrigins where
  refl _ _ f hfile := ⟨f, hfile, rfl⟩
  trans _ _ _ hfirst hsecond name f hfile := by
    obtain ⟨f', hfile', horigin'⟩ := hfirst name f hfile
    obtain ⟨f'', hfile'', horigin''⟩ := hsecond name f' hfile'
    exact ⟨f'', hfile'', horigin''.trans horigin'⟩

theorem keepsOrigins_of_files_eq {s s' : Pki} (hfiles : s'.files = s.files) :
    KeepsOrigins s s' := by
  intro name f hfile
  refine ⟨f, ?_, rfl⟩
  rw [Pki.file, hfiles]
  exact hfile

/-- A file belongs to one stem at most. -/
theorem generatedFiles_inj {stem stem' name : String} (hname : name ∈ generatedFiles stem)
    (hname' : name ∈ generatedFiles stem') : stem = stem' := by
  have hends : ∀ {stem : String}, name ∈ generatedFiles stem →
      ∃ suffix, suffix.length = 4 ∧ name = stem ++ suffix := by
    intro stem hmem
    simp only [generatedFiles, List.mem_cons, List.not_mem_nil, or_false] at hmem
    rcases hmem with h | h | h | h
    · exact ⟨".key", rfl, h⟩
    · exact ⟨".csr", rfl, h⟩
    · exact ⟨".pem", rfl, h⟩
    · exact ⟨".p12", rfl, h⟩
  obtain ⟨suffix, hlength, hsplit⟩ := hends hname
  obtain ⟨suffix', hlength', hsplit'⟩ := hends hname'
  exact (suffix_append_inj (hlength.trans hlength'.symm) (hsplit.symm.trans hsplit')).1

/-- Where nobody else has a file of the stem, generating takes nobody's file. -/
theorem keepsOrigins_of_generates {stem : String} {origin : Origin} {s s' : Pki}
    (hgenerates : Generates stem origin s s')
    (hvacant : ∀ name ∈ generatedFiles stem, ∀ f, s.file name = some f → f.origin = origin) :
    KeepsOrigins s s' := by
  intro name f hfile
  by_cases hname : name ∈ generatedFiles stem
  · rcases hgenerates.written name with hsame | ⟨f', hfile', horigin⟩
    · exact ⟨f, hsame.trans hfile, rfl⟩
    · exact ⟨f', hfile', horigin.trans (hvacant name hname f hfile).symm⟩
  · exact ⟨f, (hgenerates.others name hname).trans hfile, rfl⟩

/-! ## What a request generates -/

/-- The certificate directory is the same. -/
def LeavesPki (w w' : World settings) : Prop := w'.pki = w.pki

instance : Tolerant (@LeavesPki settings) where
  refl _ := rfl
  trans _ _ _ hfirst hsecond := Eq.trans hsecond hfirst
  quiet _ _ _ := rfl

/-- Only files of the stem are written. -/
def WritesFor (stem : String) (origin : Origin) (w w' : World settings) : Prop :=
  Generates stem origin w.pki w'.pki

instance (stem : String) (origin : Origin) : Tolerant (@WritesFor settings stem origin) where
  refl w := refl_of (Generates stem origin) w.pki
  trans _ _ _ hfirst hsecond := trans_of (Generates stem origin) hfirst hsecond
  quiet w _ _ := refl_of (Generates stem origin) w.pki

/-- The request comes to `generate_client_cert`, for this stem and origin. -/
inductive Targets (request : Request) (w : World settings) : String → Origin → Prop
  | user {userId : ℤ} {name : String} {user : UserRecord}
      (hrequest : request = .generateUserCert userId name) (hname : acceptsCertName name)
      (hshows : Shows settings .users userId w.identity.directory user)
      (hactive : user.isActive)
      (hmissing : ¬ w.pki.hasFile (userStem user.username name ++ ".p12")) :
      Targets request w (userStem user.username name) (.user user.username name)
  | service {body : CreateServiceAccountRequest}
      (hrequest : request = .createServiceAccount body) (hbody : body.accepted) :
      Targets request w (serviceUsername body.name) (.service (serviceUsername body.name))

/-- What a request may do to the certificate directory. -/
def Makes (request : Request) (w w' : World settings) : Prop :=
  w'.pki = w.pki ∨ ∃ stem origin, Targets request w stem origin ∧ WritesFor stem origin w w'

section Requests

theorem respects_beside {guar : World settings → World settings → Prop}
    (hguar : ∀ w s, guar w (w.withIdentity s)) (program : IdProg settings α) :
    Respects guar (fun _ => True) (identity program) :=
  (respects_true program).onPart fun w s _ => hguar w s

theorem leavesPki_identity (program : IdProg settings α) :
    Respects LeavesPki (fun _ => True) (identity program) :=
  respects_beside (fun _ _ => rfl) program

theorem writesFor_identity (stem : String) (origin : Origin) (program : IdProg settings α) :
    Respects (WritesFor stem origin) (fun _ => True) (identity program) :=
  respects_beside (fun w _ => refl_of (WritesFor stem origin) w) program

theorem writesFor_certs {stem : String} {origin : Origin} {call : Call Exn Pki α}
    (hcall : Call.Keeps (Generates stem origin) call) :
    Respects (WritesFor stem origin) (fun _ => True) (certs call : Handler settings α) :=
  respects_atomic fun w => ⟨hcall w.pki, fun _ _ => trivial⟩

theorem writesFor_requireGroups (stem : String) (origin : Origin) (groups : List String) :
    Respects (WritesFor stem origin) (fun _ => True)
      (requireGroups groups : Handler settings Unit) := by
  apply respects_bind (writesFor_identity stem origin Identity.listGroups)
  intro existing _
  dsimp only
  split_ifs
  · exact respects_raise _
  · exact respects_pure trivial

theorem leavesPki_createUser (body : CreateUserRequest) :
    Respects LeavesPki (fun _ => True) (Api.createUser body : Handler settings Response) := by
  unfold Api.createUser
  split_ifs
  · exact respects_raise _
  · have hgroups : Respects LeavesPki (fun _ => True)
        (requireGroups body.groups : Handler settings Unit) := by
      apply respects_bind (leavesPki_identity Identity.listGroups)
      intro existing _
      dsimp only
      split_ifs
      · exact respects_raise _
      · exact respects_pure trivial
    apply respects_bind hgroups
    intro _ _
    exact respects_bind (leavesPki_identity _) fun _ _ => respects_pure trivial

theorem writesFor_makeAccount (body : CreateServiceAccountRequest) :
    Respects (WritesFor (serviceUsername body.name) (.service (serviceUsername body.name)))
      (fun _ => True) (makeAccount body : Handler settings Response) := by
  have hrollback : ∀ userId : ℤ,
      Respects (WritesFor (serviceUsername body.name) (.service (serviceUsername body.name)))
        (fun _ => True) (rollback userId : Handler settings Unit) := fun userId =>
    respects_tryExcept (writesFor_identity _ _ _) fun _ => respects_pure trivial
  apply respects_bind (writesFor_identity _ _ _)
  intro user _
  apply respects_bind (writesFor_certs (keeps_generateClientCert _ none))
  intro generated _
  split_ifs
  · cases hmode : body.mode with
    | data =>
        exact respects_bind (writesFor_certs (keeps_noderedPems generates_docker _))
          fun _ _ => respects_pure trivial
    | admin =>
        apply respects_bind (writesFor_certs (keeps_registerAdminCert generates_docker))
        intro registered _
        split_ifs
        · exact respects_pure trivial
        · exact respects_bind (hrollback user.id) fun _ _ => respects_raise _
  · exact respects_bind (hrollback user.id) fun _ _ => respects_raise _

theorem makes_generateUserCert (userId : ℤ) (name : String) (w : World settings) :
    Alone (fun _ _ => True) (fun _ w' => Makes (.generateUserCert userId name) w w')
      (Api.generateUserCert userId name) w := by
  have huser : Alone (@LeavesPki settings) (fun result w₁ => w₁.pki = w.pki ∧
      ∀ user, result = .ok user → Shows settings .users userId w.identity.directory user)
      (requireUser userId) w := by
    apply alone_requireUser
    · intro user s _ hshows _
      exact ⟨rfl, fun other h => Except.ok.inj h ▸ hshows⟩
    · intro e s _
      exact ⟨rfl, fun other h => nomatch h⟩
  unfold Api.generateUserCert
  split_ifs with hname
  · apply alone_bind
    apply huser.mono (fun _ _ _ => trivial)
    rintro (e | user) w₁ ⟨hpki, hshows⟩
    · exact Or.inl hpki
    dsimp only
    split_ifs with hactive
    · apply alone_bind
      apply alone_atomic trivial
      change Alone _ _ (if w₁.pki.hasFile (userStem user.username name ++ ".p12") then _ else _) w₁
      split_ifs with htaken
      · exact Or.inl hpki
      apply alone_bind
      apply alone_atomic trivial
      simp only [Call.read_apply]
      cases validityDaysUntil user.expires w₁.identity.now with
      | error e => exact Or.inl hpki
      | ok validityDays =>
          have hmakes : Makes (.generateUserCert userId name) w (w₁.withPki
              (generateClientCert (.user user.username name) (userStem user.username name)
                validityDays (some user.username) w₁.pki).2) := by
            refine Or.inr ⟨_, _, .user rfl hname (hshows user rfl) hactive ?_, ?_⟩
            · rw [← hpki]
              exact htaken
            · rw [WritesFor, ← hpki]
              exact keeps_generateClientCert validityDays (some user.username) w₁.pki
          apply alone_bind
          apply alone_atomic trivial
          rw [Call.onPart_apply]
          cases (generateClientCert (.user user.username name) (userStem user.username name)
            validityDays (some user.username) w₁.pki).1 with
          | error e => exact hmakes
          | ok result =>
              dsimp only
              split_ifs
              · exact hmakes
              · exact hmakes
    · exact Or.inl hpki
  · exact Or.inl rfl

/-- The requests that lead to certificates. -/
def Request.issues : Request → Bool
  | .createUser _ | .createServiceAccount _ | .generateUserCert _ _ => true
  | _ => false

/-- Such a request generates at most what it targets. -/
theorem makes_serve {request : Request} (hissues : request.issues) (w : World settings) :
    Makes request w (request.serve w) := by
  cases request with
  | createUser body => exact Or.inl ((leavesPki_createUser body).keeps w)
  | createServiceAccount body =>
      by_cases hbody : body.accepted
      · refine Or.inr ⟨_, _, .service rfl hbody, ?_⟩
        have hhandler : Respects
            (WritesFor (serviceUsername body.name) (.service (serviceUsername body.name)))
            (fun _ => True) (Api.createServiceAccount body : Handler settings Response) := by
          unfold Api.createServiceAccount
          rw [if_neg (not_not.mpr hbody)]
          dsimp only
          split_ifs
          · exact respects_bind (writesFor_requireGroups _ _ _)
              fun _ _ => writesFor_makeAccount body
          · exact writesFor_makeAccount body
        exact hhandler.keeps w
      · left
        have hrefused : (Api.createServiceAccount body : Handler settings Response) =
            unprocessable := if_pos hbody
        rw [Request.serve, Request.handler, hrefused]
        rfl
  | generateUserCert userId name => exact (makes_generateUserCert userId name w).ends
  | _ => cases hissues

end Requests

/-! ## Runs -/

/-- The service, with the stems used so far and for whom. -/
structure Issuing (settings : Settings) where
  world : World settings
  used : String → Origin → Prop

/-- At first the used stems are those of the files that are there. -/
def Issuing.start (w : World settings) : Issuing settings where
  world := w
  used := fun stem origin =>
    ∃ name ∈ generatedFiles stem, ∃ f, w.pki.file name = some f ∧ f.origin = origin

/-- A request is served, or something happens that does not change the files. -/
inductive Proceeds (admits : Request → Issuing settings → Prop) :
    Issuing settings → Issuing settings → Prop
  | serve {t : Issuing settings} (request : Request) (hissues : request.issues)
      (hadmits : admits request t) :
      Proceeds admits t ⟨request.serve t.world, fun stem origin =>
        t.used stem origin ∨ Targets request t.world stem origin⟩
  | elsewhere {t : Issuing settings} (w : World settings)
      (hfiles : w.pki.files = t.world.pki.files) : Proceeds admits t ⟨w, t.used⟩

/-- Nobody else has used a stem the request generates for. -/
def OwnStem (request : Request) (t : Issuing settings) : Prop :=
  ∀ stem origin, Targets request t.world stem origin →
    ∀ other, t.used stem other → other = origin

/-- Whoever has a file of a stem has used the stem. -/
def Accounted (t : Issuing settings) : Prop :=
  ∀ stem, ∀ name ∈ generatedFiles stem, ∀ f, t.world.pki.file name = some f →
    t.used stem f.origin

theorem accounted_start (w : World settings) : Accounted (.start w) :=
  fun _ name hname f hfile => ⟨name, hname, f, hfile, rfl⟩

theorem Accounted.of_proceeds {admits : Request → Issuing settings → Prop}
    {t t' : Issuing settings} (haccounted : Accounted t) (hproceeds : Proceeds admits t t') :
    Accounted t' := by
  intro stem name hname f hfile
  cases hproceeds with
  | serve request hissues hadmits =>
      have hold : t.world.pki.file name = some f → t.used stem f.origin :=
        haccounted stem name hname f
      rcases makes_serve hissues t.world with hsame | ⟨target, origin, htarget, hwrites⟩
      · exact Or.inl (hold (hsame ▸ hfile))
      · rcases hwrites.written name with hsame | ⟨f', hfile', horigin⟩
        · exact Or.inl (hold (hsame ▸ hfile))
        · by_cases hmem : name ∈ generatedFiles target
          · obtain rfl := generatedFiles_inj hname hmem
            obtain rfl := Option.some.inj (hfile.symm.trans hfile')
            exact Or.inr (horigin ▸ htarget)
          · exact Or.inl (hold ((hwrites.others name hmem) ▸ hfile))
  | elsewhere w hfiles =>
      apply haccounted stem name hname f
      rw [Pki.file, ← hfiles]
      exact hfile

theorem keepsOrigins_of_proceeds {t t' : Issuing settings} (haccounted : Accounted t)
    (hproceeds : Proceeds OwnStem t t') : KeepsOrigins t.world.pki t'.world.pki := by
  cases hproceeds with
  | serve request hissues hown =>
      rcases makes_serve hissues t.world with hsame | ⟨stem, origin, htarget, hwrites⟩
      · exact keepsOrigins_of_files_eq (congrArg Pki.files hsame)
      · apply keepsOrigins_of_generates hwrites
        intro name hname f hfile
        exact hown stem origin htarget f.origin (haccounted stem name hname f hfile)
  | elsewhere w hfiles => exact keepsOrigins_of_files_eq hfiles

/-- **Generation stays with its own files.**  If every request of a run comes with a stem that
nobody else has used, then no file that is there at any time is ever written for anyone else. -/
theorem files_keep_origins {w : World settings} {t t' : Issuing settings}
    (hbefore : Relation.ReflTransGen (Proceeds OwnStem) (.start w) t)
    (hafter : Relation.ReflTransGen (Proceeds OwnStem) t t') :
    KeepsOrigins t.world.pki t'.world.pki := by
  have haccounted : Accounted t := by
    clear hafter
    induction hbefore with
    | refl => exact accounted_start w
    | tail _ hstep ih => exact ih.of_proceeds hstep
  have hboth : Accounted t' ∧ KeepsOrigins t.world.pki t'.world.pki := by
    induction hafter with
    | refl => exact ⟨haccounted, refl_of KeepsOrigins t.world.pki⟩
    | tail _ hstep ih =>
        exact ⟨ih.1.of_proceeds hstep,
          trans_of KeepsOrigins ih.2 (keepsOrigins_of_proceeds ih.1 hstep)⟩
  exact hboth.2

/-! ## A user called ca -/

/-- A service with a certificate authority and a group. -/
def authorityWorld : World Settings.small where
  identity := .start (Directory.createGroup "tak_ops" .empty).2 1000
  pki := { (Pki.empty.writeFile "ca.pem" (.certificate ⟨1, "ca", 3650⟩) .system).writeFile
    "ca-do-not-share.key" (.key 1) .system with entropy := [7, 9] }
  revocations := []

/-- The user is created and gets a certificate. -/
def certified (username name : String) : World Settings.small :=
  (Request.generateUserCert (Settings.small.numericId username) name).serve
    ((Request.createUser ⟨username, "New", none, ["ops"]⟩).serve authorityWorld)

theorem proceeds_certified {admits : Request → Issuing Settings.small → Prop}
    (username name : String)
    (hcreate : admits (.createUser ⟨username, "New", none, ["ops"]⟩) (.start authorityWorld))
    (hgenerate : ∀ t : Issuing Settings.small,
      t.world = (Request.createUser ⟨username, "New", none, ["ops"]⟩).serve authorityWorld →
      (∀ stem origin, t.used stem origin →
        (Issuing.start authorityWorld).used stem origin) →
      admits (.generateUserCert (Settings.small.numericId username) name) t) :
    ∃ t, t.world = certified username name ∧
      Relation.ReflTransGen (Proceeds admits) (.start authorityWorld) t := by
  have hnothing : ∀ stem origin, ¬ Targets (.createUser ⟨username, "New", none, ["ops"]⟩)
      authorityWorld stem origin := by
    intro stem origin htarget
    cases htarget with
    | user hrequest _ _ _ _ => cases hrequest
    | service hrequest _ => cases hrequest
  refine ⟨_, rfl, .tail (.single (.serve _ rfl hcreate)) (.serve _ rfl (hgenerate _ rfl ?_))⟩
  exact fun stem origin hused => hused.resolve_right (hnothing stem origin)

/-- A user called kim has a stem that is not used yet. -/
theorem keepsOrigins_kim : (certified "kim" "phone").pki.hasFile "kim-phone.p12" ∧
    KeepsOrigins authorityWorld.pki (certified "kim" "phone").pki := by
  have hcertified : ∃ t, t.world = certified "kim" "phone" ∧
      Relation.ReflTransGen (Proceeds OwnStem) (.start authorityWorld) t := by
    apply proceeds_certified
    · intro stem origin htarget
      cases htarget with
      | user hrequest _ _ _ _ => cases hrequest
      | service hrequest _ => cases hrequest
    · intro t hworld hused stem origin htarget other hother
      cases htarget with
      | service hrequest _ => cases hrequest
      | @user userId name user hrequest _ hshows _ _ =>
          cases hrequest
          obtain ⟨u, huser, -⟩ := hshows.view
          have honly : t.world.identity.directory.accounts.keys = ["kim"] := by
            rw [hworld]
            decide +kernel
          have hname : user.username = "kim" := by
            have hmem : user.username ∈ t.world.identity.directory.accounts := by
              obtain ⟨account, haccount, -⟩ := Option.map_eq_some_iff.mp huser
              exact AList.lookup_isSome.mp (Option.isSome_of_mem haccount)
            rw [AList.mem_keys, honly] at hmem
            exact List.mem_singleton.mp hmem
          rw [hname] at hother
          obtain ⟨file, hfile, f, hf, -⟩ := hused _ _ hother
          have hnone : ∀ file ∈ generatedFiles (userStem "kim" "phone"),
              authorityWorld.pki.file file = none := by decide +kernel
          rw [hnone file hfile] at hf
          cases hf
  obtain ⟨t, hworld, hruns⟩ := hcertified
  refine ⟨by decide +kernel, ?_⟩
  rw [← hworld]
  exact files_keep_origins .refl hruns

/-- The private key of the authority is replaced by the key of a user called ca. -/
theorem user_takes_authority_key :
    ∃ t, Relation.ReflTransGen (Proceeds fun _ _ => True) (.start authorityWorld) t ∧
      (authorityWorld.pki.file "ca-do-not-share.key").map CertFile.origin = some .system ∧
      (t.world.pki.file "ca-do-not-share.key").map CertFile.origin =
        some (.user "ca" "do-not-share") ∧
      ¬ KeepsOrigins authorityWorld.pki t.world.pki := by
  have hcertified : ∃ t, t.world = certified "ca" "do-not-share" ∧
      Relation.ReflTransGen (Proceeds fun _ _ => True) (.start authorityWorld) t :=
    proceeds_certified "ca" "do-not-share" trivial fun _ _ _ => trivial
  obtain ⟨t, hworld, hruns⟩ := hcertified
  have hbefore : (authorityWorld.pki.file "ca-do-not-share.key").map CertFile.origin =
      some .system := by decide +kernel
  have hafter : (t.world.pki.file "ca-do-not-share.key").map CertFile.origin =
      some (.user "ca" "do-not-share") := by
    rw [hworld]
    decide +kernel
  refine ⟨t, hruns, hbefore, hafter, fun hkeeps => ?_⟩
  obtain ⟨f, hfile, horigin⟩ := Option.map_eq_some_iff.mp hbefore
  obtain ⟨f', hfile', hsame⟩ := hkeeps _ f hfile
  rw [hfile', Option.map_some, Option.some.injEq, hsame, horigin] at hafter
  cases hafter

end FastTAK.Api
