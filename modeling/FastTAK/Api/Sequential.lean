import FastTAK.Api.Tolerant
import FastTAK.Identity.LostResponse
import FastTAK.Identity.Sequential

/-!
# Handlers without others

The rules for handlers that run while nothing else acts on the state.
-/

namespace FastTAK.Api

open FastTAK.Effect FastTAK.Effect.Prog FastTAK.Certs FastTAK.Identity FastTAK.Naming

variable {settings : Settings} {α β : Type}

variable {guar : World settings → World settings → Prop}
variable {guarId : IdentityState settings → IdentityState settings → Prop}

/-- An operation of a client leaves everything but the identity state alone. -/
theorem alone_identity {program : IdProg settings α} {w : World settings}
    {post : Except Exn α → World settings → Prop}
    (hguar : ∀ (w : World settings) s, guarId w.identity s → guar w (w.withIdentity s))
    (hprogram : Alone guarId (fun result s => post result (w.withIdentity s)) program
      w.identity) :
    Alone guar post (identity program) w := by
  have hget : ∀ (s : IdentityState settings) (w : World settings),
      (World.withIdentity s w).identity = s := fun _ _ => rfl
  have hset : ∀ (s s' : IdentityState settings) (w : World settings),
      World.withIdentity s (World.withIdentity s' w) = World.withIdentity s w :=
    fun _ _ _ => rfl
  have hself : ∀ w : World settings, World.withIdentity w.identity w = w := fun _ => rfl
  have hpart : Alone guar (fun result w' => post result (w.withIdentity w'.identity) ∧
      w' = w.withIdentity w'.identity) (identity program) w :=
    alone_onPart hget hset hself hguar hprogram
  refine hpart.mono (fun _ _ h => h) fun result w' h => ?_
  rw [h.2]
  exact h.1

/-- The state with other fortunes of the requests to LLDAP ahead. -/
def World.withFaults (queue : List Verdict) (w : World settings) : World settings :=
  w.withIdentity (withQueue queue w.identity)

section Reading

variable [Tolerant guar] {w : World settings}

/-- The user of the id, whose username the client now knows. -/
theorem alone_requireUser {userId : ℤ} {post : Except Exn UserRecord → World settings → Prop}
    (hok : ∀ user s, Quiet w.identity s →
      Shows settings .users userId w.identity.directory user →
      Known .users userId user.username s → post (.ok user) (w.withIdentity s))
    (herror : ∀ e s, Quiet w.identity s → post (.error e) (w.withIdentity s)) :
    Alone guar post (requireUser userId) w := by
  refine alone_bind (alone_identity (fun w s h => Tolerant.quiet w s h)
    ((alone_getUser .users userId w.identity).mono (fun _ _ h => h) ?_))
  rintro result s ⟨hquiet, hshows⟩
  match result, hshows with
  | .error e, _ => exact herror e s hquiet
  | .ok none, _ => exact herror _ s hquiet
  | .ok (some user), hshows =>
      obtain ⟨hshow, hknown⟩ := hshows user rfl
      exact hok user s hquiet hshow hknown

/-- The account of the id, whose username the client now knows. -/
theorem alone_requireAccount {accountId : ℤ}
    {post : Except Exn UserRecord → World settings → Prop}
    (hok : ∀ user s, Quiet w.identity s →
      Shows settings .serviceAccounts accountId w.identity.directory user →
      Known .serviceAccounts accountId user.username s →
      "svc_".toList <+: user.username.toList → post (.ok user) (w.withIdentity s))
    (herror : ∀ e s, Quiet w.identity s → post (.error e) (w.withIdentity s)) :
    Alone guar post (requireAccount accountId) w := by
  refine alone_bind (alone_identity (fun w s h => Tolerant.quiet w s h)
    ((alone_getUser .serviceAccounts accountId w.identity).mono (fun _ _ h => h) ?_))
  rintro result s ⟨hquiet, hshows⟩
  match result, hshows with
  | .error e, _ => exact herror e s hquiet
  | .ok none, _ => exact herror _ s hquiet
  | .ok (some user), hshows =>
      obtain ⟨hshow, hknown⟩ := hshows user rfl
      dsimp only
      split_ifs with hservice
      · exact hok user s hquiet hshow hknown hservice
      · exact herror _ s hquiet

theorem alone_listGroups {post : Except Exn (List (ℤ × String)) → World settings → Prop}
    (hdata : ∀ queue, post (.ok (listedGroups w.identity.directory)) (w.withFaults queue))
    (herror : ∀ queue e, post (.error e) (w.withFaults queue)) :
    Alone guar post (identity Identity.listGroups) w :=
  alone_identity (fun w s h => Tolerant.quiet w s h)
    (Identity.alone_listGroups hdata herror)

/-- The groups asked for are listed, or the request ends here. -/
theorem alone_requireGroups {groups : List String}
    {post : Except Exn Unit → World settings → Prop}
    (hdata : (∀ g ∈ groups, g ∈ (listedGroups w.identity.directory).map Prod.snd) →
      ∀ queue, post (.ok ()) (w.withFaults queue))
    (herror : ∀ queue e, post (.error e) (w.withFaults queue)) :
    Alone guar post (requireGroups groups) w := by
  refine alone_bind (alone_listGroups (fun queue => ?_) herror)
  dsimp only
  split_ifs with hmissing
  · exact herror queue _
  · refine hdata (fun g hg => ?_) queue
    by_contra hnot
    exact hmissing (List.ne_nil_of_mem (List.mem_filter.mpr ⟨hg, by simpa using hnot⟩))

end Reading

/-- A revocation that returns is recorded with its answer. -/
theorem run_revokeAll {username : String} {w : World settings} {answer : Bool} {s : Pki}
    (hrun : revokeAllUserCerts username w.pki = (.ok answer, s)) :
    (revokeAll username).run w = (.ok answer, { w with
      pki := s
      revocations := ⟨username, w.pki, answer⟩ :: w.revocations }) := by
  simp only [revokeAll, atomic, run, hrun]

/-! ## Relations on the directory -/

/-- The directory moved along `R`. -/
def Along (R : Directory → Directory → Prop) (w w' : World settings) : Prop :=
  R w.identity.directory w'.identity.directory

section Along

variable {R : Directory → Directory → Prop} [IsPreorder Directory R]

instance : Tolerant (@Along settings R) where
  refl w := refl_of R w.identity.directory
  trans _ _ _ hfirst hsecond := trans_of R hfirst hsecond
  quiet w s h := by
    change R w.identity.directory s.directory
    rw [h.directory]
    exact refl_of R w.identity.directory

omit [IsPreorder Directory R] in
theorem along_identity {P : α → Prop} {program : IdProg settings α}
    (hprogram : Respects (AlongId R) P program) :
    Respects (Along R) P (identity program) :=
  hprogram.onPart fun _ _ h => h

theorem along_certs (call : Call Exn Pki α) :
    Respects (Along R) (fun _ => True) (certs call : Handler settings α) :=
  respects_atomic fun w => ⟨refl_of R w.identity.directory, fun _ _ => trivial⟩

theorem along_revokeAll (username : String) :
    Respects (Along R) (fun _ => True) (revokeAll username : Handler settings Bool) := by
  apply respects_revokeAll_of
  intro w w' hidentity
  rw [Along, hidentity]
  exact refl_of R w.identity.directory

theorem along_takCerts (username : String) :
    Respects (Along R) (fun _ => True) (takCerts username : Handler settings _) := by
  unfold takCerts
  split_ifs
  · exact along_certs _
  · exact respects_pure trivial

theorem along_requireUser (userId : ℤ) :
    Respects (Along R) (fun user => ¬ isHidden settings .users user.username)
      (requireUser userId : Handler settings UserRecord) := by
  refine respects_bind (along_identity (respects_getUser .users userId)) fun found hfound => ?_
  cases found with
  | none => exact respects_raise _
  | some user => exact respects_pure (hfound user rfl).2

omit [IsPreorder Directory R] in
/-- An operation of a client that moves the directory along `R`. -/
theorem alone_along {program : IdProg settings α} {w : World settings}
    {post : Except Exn α → World settings → Prop}
    (hprogram : Alone (AlongId R) (fun result s => post result (w.withIdentity s)) program
      w.identity) :
    Alone (Along R) post (identity program) w :=
  alone_identity (fun _ _ h => h) hprogram

theorem alone_revokeAll (username : String) (w : World settings) :
    Alone (Along R) (fun _ w' => w'.identity = w.identity) (revokeAll username) w := by
  have hidentity := identity_revokeAll username w
  refine alone_atomic ?_ hidentity
  change R w.identity.directory ((revokeAll username).run w).2.identity.directory
  rw [hidentity]
  exact refl_of R w.identity.directory

/-- Deactivation and marking act on the username the id stands for. -/
theorem alone_deactivateAndRevoke {client : Client} {userId : ℤ} {username : String}
    {w : World settings} (hknown : Known client userId username w.identity)
    (hupdate : ∀ inserted dir, R dir (Directory.updateUser username none inserted dir).2) :
    Alone (Along R) (fun _ _ => True) (deactivateAndRevoke client userId username) w := by
  refine alone_bind (alone_along ((alone_deactivateUser hknown
    (stepOf_along (hupdate _))).mono (fun _ _ h => h) ?_))
  intro result s hknown
  match result with
  | .error e => trivial
  | .ok _ =>
      dsimp only
      split_ifs
      · refine alone_bind ((alone_revokeAll username _).mono (fun _ _ h => h) ?_)
        intro revoked w' hidentity
        match revoked with
        | .error e => trivial
        | .ok allRevoked =>
            dsimp only
            split_ifs
            · refine alone_along (alone_markCertsRevoked ?_ fun _ => stepOf_along (hupdate _))
              rw [hidentity]
              exact hknown
            · exact alone_pure trivial
      · exact alone_pure trivial

end Along

/-! ## Runs -/

/-- A request is served, or the surroundings act. -/
inductive ServiceStep (env : World settings → World settings → Prop)
    (admits : World settings → Request → Prop) : World settings → World settings → Prop
  | serve {w : World settings} (request : Request) (hadmits : admits w request) :
      ServiceStep env admits w (request.serve w)
  | elsewhere {w w' : World settings} (henv : env w w') : ServiceStep env admits w w'

/-- Requests one after another, with the surroundings in between. -/
abbrev Run (env : World settings → World settings → Prop)
    (admits : World settings → Request → Prop) : World settings → World settings → Prop :=
  Relation.ReflTransGen (ServiceStep env admits)

/-- What every admitted request and the surroundings keep, a run keeps. -/
theorem Run.keeps [IsPreorder (World settings) guar] {env : World settings → World settings → Prop}
    {admits : World settings → Request → Prop} {w w' : World settings}
    (hrun : Run env admits w w') (henv : ∀ w w', env w w' → guar w w')
    (hserve : ∀ w request, admits w request → guar w (request.serve w)) : guar w w' := by
  induction hrun with
  | refl => exact refl_of guar w
  | tail _ hstep ih =>
      cases hstep with
      | serve request hadmits => exact trans_of guar ih (hserve _ request hadmits)
      | elsewhere h => exact trans_of guar ih (henv _ _ h)

/-! ## Without faults -/

theorem visited_identity (program : IdProg settings α) (w : World settings) :
    (identity program).visited w =
      (program.visited w.identity).map fun s => w.withIdentity s := by
  have hget : ∀ (s : IdentityState settings) (w : World settings),
      (World.withIdentity s w).identity = s := fun _ _ => rfl
  have hset : ∀ (s s' : IdentityState settings) (w : World settings),
      World.withIdentity s (World.withIdentity s' w) = World.withIdentity s w :=
    fun _ _ _ => rfl
  exact visited_onPart hget hset program w

/-- An operation of a client to which nothing happens. -/
theorem run_identity_of {program : IdProg settings α} {w : World settings}
    {result : Except Exn α} {s : IdentityState settings}
    (hrun : program.run (withQueue [] w.identity) = (result, s)) :
    (identity program).run (w.withFaults []) = (result, w.withIdentity s) := by
  rw [run_identity, Call.onPart_apply]
  change ((program.run (withQueue [] w.identity)).1,
    World.withIdentity (program.run (withQueue [] w.identity)).2 _) = _
  rw [hrun]
  rfl

theorem run_requireGroups {groups : List String} {w : World settings}
    (hlisted : ∀ g ∈ groups, g ∈ (listedGroups w.identity.directory).map Prod.snd) :
    (requireGroups groups).run (w.withFaults []) = (.ok (), w.withFaults []) := by
  have hgroups : Identity.listGroups.run (withQueue [] w.identity) =
      (.ok (listedGroups w.identity.directory), withQueue [] w.identity) := by
    rw [Identity.listGroups, run_bind, Call.bind_apply, run_query]
    rfl
  rw [requireGroups, run_bind, Call.bind_apply, run_identity_of hgroups]
  have hmissing : groups.filter (fun g =>
      !((listedGroups w.identity.directory).map Prod.snd).contains g) = [] := by
    rw [List.filter_eq_nil_iff]
    intro g hg
    simpa using hlisted g hg
  dsimp only
  rw [hmissing]
  rfl

end FastTAK.Api
