import FastTAK.Identity.ClientSpec

/-!
# The identity client without others

What the operations of the client do from a given state when nothing else acts on
the directory: which account an id stands for once it was looked up, what a query
returns, and which rule a mutation follows when it may be sent several times.
-/

namespace FastTAK.Identity

open FastTAK.Effect FastTAK.Effect.Prog FastTAK.Api FastTAK.Proxy

variable {settings : Settings} {α : Type}
variable {guar : IdentityState settings → IdentityState settings → Prop} [Tolerant guar]
variable {post : Except Exn α → IdentityState settings → Prop}

/-! ## Relations on the directory -/

/-- The directory moved along `R`. -/
def AlongId (R : Directory → Directory → Prop) (s s' : IdentityState settings) : Prop :=
  R s.directory s'.directory

instance {R : Directory → Directory → Prop} [IsPreorder Directory R] :
    Tolerant (@AlongId settings R) where
  refl s := refl_of R s.directory
  trans _ _ _ hfirst hsecond := trans_of R hfirst hsecond
  quiet s s' h := by
    unfold AlongId
    rw [h.directory]
    exact refl_of R s.directory

instance : Tolerant fun _ _ : IdentityState settings => True where
  refl _ := trivial
  trans _ _ _ _ _ := trivial
  quiet _ _ _ := trivial

omit [Tolerant guar] in
theorem stepOf_along {R : Directory → Directory → Prop}
    {request : Directory → Directory.Reply α × Directory}
    (hstep : ∀ dir, R dir (request dir).2) : StepOf (@AlongId settings R) request :=
  fun s => hstep s.directory

/-! ## Requests to the directory -/

theorem guar_withQueue (queue : List Verdict) (s : IdentityState settings) :
    guar s (withQueue queue s) := Tolerant.quiet _ _ ⟨rfl, rfl, rfl, rfl⟩

/-- A request that is sent up to three times: `keeps` holds whenever it is sent. -/
theorem alone_graphql (keeps : IdentityState settings → Prop)
    {onEmpty : IdProg settings α}
    {request : Directory → Directory.Reply α × Directory}
    (hqueue : ∀ s queue, keeps s → keeps (withQueue queue s))
    (hstep : ∀ s, keeps s → guar s (withDirectory s (request s.directory).2) ∧
      keeps (withDirectory s (request s.directory).2))
    (hdata : ∀ s value, keeps s → (request s.directory).1 = .data value →
      post (.ok value) (withDirectory s (request s.directory).2))
    (hempty : ∀ s, keeps s → (request s.directory).1 = .duplicate →
      Alone guar post onEmpty (withDirectory s (request s.directory).2))
    (herror : ∀ s e, keeps s → post (.error e) s)
    {s : IdentityState settings} (hs : keeps s) :
    Alone guar post (graphql onEmpty request) s := by
  have hattempts : ∀ attempts s, keeps s →
      Alone guar post (graphqlAttempts onEmpty request attempts) s := by
    intro attempts
    induction attempts with
    | zero => exact fun s hs => herror s _ hs
    | succ attempts ih =>
        intro s hs
        have hrest := hqueue s s.lldap.tail hs
        obtain ⟨hguar, hkeeps⟩ := hstep (withQueue s.lldap.tail s) hrest
        have happlied := trans_of guar (guar_withQueue s.lldap.tail s) hguar
        refine alone_bind ?_
        cases hverdict : nextVerdict s.lldap with
        | runs =>
            have hattempt : graphqlAttempt request s =
                (.ok (some (request s.directory).1),
                  withDirectory (withQueue s.lldap.tail s) (request s.directory).2) := by
              simp only [graphqlAttempt, hverdict]
              rfl
            refine alone_atomic ?_ ?_
            · rw [hattempt]
              exact happlied
            · rw [hattempt]
              cases hreply : (request s.directory).1 with
              | data value => exact hdata _ value hrest hreply
              | duplicate =>
                  dsimp only
                  split_ifs
                  · exact hempty _ hrest hreply
                  · exact herror _ _ hkeeps
              | errors => exact herror _ _ hkeeps
        | fails applied =>
            have hattempt : graphqlAttempt request s = (.ok none,
                if applied = 0 then withQueue s.lldap.tail s
                else withDirectory (withQueue s.lldap.tail s) (request s.directory).2) := by
              simp only [graphqlAttempt, hverdict]
              rfl
            refine alone_atomic ?_ ?_
            · rw [hattempt]
              split_ifs
              · exact guar_withQueue _ s
              · exact happlied
            · rw [hattempt]
              refine ih _ ?_
              split_ifs
              · exact hrest
              · exact hkeeps
        | raises applied =>
            have hattempt : graphqlAttempt request s = (.error .external,
                if applied = 0 then withQueue s.lldap.tail s
                else withDirectory (withQueue s.lldap.tail s) (request s.directory).2) := by
              simp only [graphqlAttempt, hverdict]
              rfl
            refine alone_atomic ?_ ?_
            · rw [hattempt]
              split_ifs
              · exact guar_withQueue _ s
              · exact happlied
            · rw [hattempt]
              refine herror _ _ ?_
              split_ifs
              · exact hrest
              · exact hkeeps
  exact hattempts 3 s hs

/-- A query returns what it finds and only takes from the queue. -/
theorem alone_query {f : Directory → α} {s : IdentityState settings}
    (hdata : ∀ queue, post (.ok (f s.directory)) (withQueue queue s))
    (herror : ∀ queue e, post (.error e) (withQueue queue s)) :
    Alone guar post (query f) s := by
  refine alone_graphql (fun s' => ∃ queue, s' = withQueue queue s) ?_ ?_ ?_ ?_ ?_
    ⟨s.lldap, rfl⟩
  · rintro _ queue' ⟨queue, rfl⟩
    exact ⟨queue', rfl⟩
  · rintro _ ⟨queue, rfl⟩
    exact ⟨refl_of guar _, queue, rfl⟩
  · rintro _ value ⟨queue, rfl⟩ hvalue
    obtain rfl := Directory.Reply.data.inj hvalue
    exact hdata queue
  · rintro _ ⟨queue, rfl⟩ hreply
    cases hreply
  · rintro _ e ⟨queue, rfl⟩
    exact herror queue e

/-- A mutation keeps what sending it keeps. -/
theorem alone_mutation (keeps : IdentityState settings → Prop)
    {request : Directory → Directory.Reply Unit × Directory}
    (hqueue : ∀ s queue, keeps s → keeps (withQueue queue s))
    (hstep : ∀ s, keeps s → guar s (withDirectory s (request s.directory).2) ∧
      keeps (withDirectory s (request s.directory).2))
    {s : IdentityState settings} (hs : keeps s) :
    Alone guar (fun _ s' => keeps s') (mutation request) s :=
  alone_graphql keeps hqueue hstep (fun s _ hs _ => (hstep s hs).2)
    (fun s hs _ => alone_pure (hstep s hs).2) (fun _ _ hs => hs) hs

/-! ## Ids -/

/-- The client has noted whose id this is. -/
def Known (client : Client) (userId : ℤ) (username : String)
    (s : IdentityState settings) : Prop :=
  (s.ids client).lookup userId = some username

/-- An id is known once it was noted. -/
theorem lookup_noteId (client : Client) (username : String) (s : IdentityState settings) :
    ((noteId client username s).ids client).lookup (settings.numericId username) =
      some username := by
  simp only [noteId, if_pos]
  exact AList.lookup_insert _

omit [Tolerant guar] in
/-- Once noted, an id is not looked up again. -/
theorem run_resolveUsername_of_known {client : Client} {userId : ℤ} {username : String}
    {s : IdentityState settings} (hknown : Known client userId username s) :
    (resolveUsername client userId).run s = (.ok (some username), s) := by
  have hread : (atomic (Call.read fun s => (s.ids client).lookup userId) :
      IdProg settings (Option String)).run s = (.ok (some username), s) :=
    congrArg (fun found => (Except.ok found, s)) hknown
  rw [resolveUsername, run_bind, Call.bind_of_ok hread]
  rfl

omit [Tolerant guar] in
theorem alone_lookup {client : Client} {userId : ℤ} [IsPreorder _ guar]
    {post : Except Exn (Option String) → IdentityState settings → Prop}
    {s : IdentityState settings} (hpost : post (.ok ((s.ids client).lookup userId)) s) :
    Alone guar post (atomic (Call.read fun s => (s.ids client).lookup userId)) s :=
  alone_atomic (refl_of guar s) hpost

theorem alone_requireUsername {client : Client} {userId : ℤ} {username : String}
    {post : Except Exn String → IdentityState settings → Prop} {s : IdentityState settings}
    (hknown : Known client userId username s) (hpost : post (.ok username) s) :
    Alone guar post (requireUsername client userId) s := by
  refine alone_bind (alone_bind (alone_lookup ?_))
  dsimp only
  rw [show (s.ids client).lookup userId = some username from hknown]
  exact alone_pure (alone_pure hpost)

/-- The rest of an operation acts on the username its id stands for. -/
theorem alone_requireUsername_bind {β : Type} {client : Client} {userId : ℤ}
    {username : String} {next : String → IdProg settings β}
    {post : Except Exn β → IdentityState settings → Prop} {s : IdentityState settings}
    (hknown : Known client userId username s) (hnext : Alone guar post (next username) s) :
    Alone guar post (requireUsername client userId >>= next) s :=
  alone_bind (alone_requireUsername hknown hnext)

theorem alone_resolveUsername (client : Client) (userId : ℤ) (s : IdentityState settings) :
    Alone Quiet (fun result s' => Quiet s s' ∧ ∀ username, result = .ok (some username) →
      settings.numericId username = userId ∧ Known client userId username s')
      (resolveUsername client userId) s := by
  have hlast : ∀ s', Quiet s s' → ∀ username,
      Except.ok (ε := Exn) ((s'.ids client).lookup userId) = .ok (some username) →
        settings.numericId username = userId ∧ Known client userId username s' := by
    intro s' _ username h
    have hknown := Except.ok.inj h
    exact ⟨(s'.ids client).sound userId username hknown, hknown⟩
  refine alone_bind (alone_lookup ?_)
  dsimp only
  cases hfound : (s.ids client).lookup userId with
  | some username =>
      refine alone_pure ⟨refl_of Quiet s, fun other h => ?_⟩
      exact hlast s (refl_of Quiet s) other (by rw [hfound]; exact h)
  | none =>
      have hrespects : Respects Quiet (fun _ => True)
          (refreshUserIdMap client : IdProg settings Unit) := respects_refreshUserIdMap client
      have hrefresh := hrespects.alone (fun _ _ => trans_of Quiet) (refl_of Quiet s)
      refine alone_bind (hrefresh.mono (fun _ _ h => h) fun result s' h => ?_)
      cases result with
      | error e => exact ⟨h.2, by simp⟩
      | ok _ => exact alone_lookup ⟨h.2, hlast s' h.2⟩

/-! ## Users -/

/-- The record shows the account of the id, which the client may see. -/
structure Shows (settings : Settings) (client : Client) (userId : ℤ) (dir : Directory)
    (user : UserRecord) : Prop where
  id : settings.numericId user.username = userId
  visible : ¬ isHidden settings client user.username
  view : ∃ u, dir.user user.username = some u ∧ user = toRecord settings u

theorem alone_getUser (client : Client) (userId : ℤ) (s : IdentityState settings) :
    Alone Quiet (fun result s' => Quiet s s' ∧ ∀ user, result = .ok (some user) →
      Shows settings client userId s.directory user ∧
        Known client userId user.username s') (getUser client userId) s := by
  refine alone_bind ((alone_resolveUsername client userId s).mono (fun _ _ h => h) ?_)
  rintro result s₁ ⟨hquiet, hname⟩
  match result, hname with
  | .error e, _ => exact ⟨hquiet, by simp⟩
  | .ok none, _ => exact alone_pure ⟨hquiet, by simp⟩
  | .ok (some username), hname =>
      obtain ⟨hid, hknown⟩ := hname username rfl
      dsimp only
      split_ifs with hhidden
      · exact alone_pure ⟨hquiet, by simp⟩
      · refine alone_bind (alone_query (fun queue => ?_) fun queue e => ?_)
        · dsimp only
          cases huser : s₁.directory.user username with
          | none => exact alone_pure ⟨⟨hquiet.1, hquiet.2, hquiet.3, hquiet.4⟩, by simp⟩
          | some u =>
              obtain rfl := Directory.user_id huser
              dsimp only
              rw [if_neg hhidden]
              refine alone_bind (alone_bind (alone_atomic ⟨rfl, rfl, rfl, rfl⟩ ?_))
              refine alone_pure (alone_pure ⟨⟨hquiet.1, hquiet.2, hquiet.3, hquiet.4⟩, ?_⟩)
              rintro user ⟨⟩
              refine ⟨⟨hid, hhidden, u, ?_, rfl⟩, ?_⟩
              · rw [← hquiet.directory]
                exact huser
              · change ((noteId client u.id _).ids client).lookup userId = some u.id
                rw [← hid]
                exact lookup_noteId client u.id _
        · exact ⟨⟨hquiet.1, hquiet.2, hquiet.3, hquiet.4⟩, by simp⟩

/-- A known id is still known after the user was fetched. -/
theorem alone_getUser_of_known {client : Client} {userId : ℤ} {username : String}
    {s : IdentityState settings} (hknown : Known client userId username s) :
    Alone Quiet (fun _ s' => Known client userId username s') (getUser client userId) s := by
  refine alone_bind (alone_bind (alone_lookup ?_))
  dsimp only
  rw [show (s.ids client).lookup userId = some username from hknown]
  refine alone_pure ?_
  dsimp only
  split_ifs with hhidden
  · exact alone_pure hknown
  · refine alone_bind (alone_query (fun queue => ?_) fun _ _ => hknown)
    dsimp only
    cases huser : s.directory.user username with
    | none => exact alone_pure hknown
    | some u =>
        obtain rfl := Directory.user_id huser
        dsimp only
        rw [if_neg hhidden]
        refine alone_bind (alone_bind (alone_atomic ⟨rfl, rfl, rfl, rfl⟩ ?_))
        refine alone_pure (alone_pure ?_)
        change ((noteId client u.id _).ids client).lookup userId = some u.id
        rw [← (s.ids client).sound userId u.id hknown]
        exact lookup_noteId client u.id _

/-! ## Changes -/

section Changes

variable {client : Client} {userId : ℤ} {username : String} {s : IdentityState settings}

theorem alone_updateUser {changes : UserChanges} (hknown : Known client userId username s)
    (hstep : ∀ inserted, StepOf guar (Directory.updateUser username changes.name inserted)) :
    Alone guar (fun result _ => ∀ user, result = .ok (some user) →
      ¬ isHidden settings client user.username) (updateUser client userId changes) s := by
  refine alone_requireUsername_bind hknown ?_
  have hlast : Respects guar (fun found => ∀ user, found = some user →
      ¬ isHidden settings client user.username) (getUser client userId) :=
    (respects_getUser client userId).mono (fun _ _ h => h) fun _ h user huser =>
      (h user huser).2
  have hrest : Respects guar (fun found => ∀ user, found = some user →
      ¬ isHidden settings client user.username) (do
        let expires ← expiryFor changes.ttlHours.join
        sendChanges username changes expires
        getUser client userId : IdProg settings (Option UserRecord)) :=
    respects_bind (respects_expiryFor _) fun expires _ =>
      respects_bind (respects_sendChanges (fun _ _ => hstep []) fun _ _ => hstep _)
        fun _ _ => hlast
  exact (hrest.alone (fun _ _ _ _ => trivial) trivial).mono (fun _ _ h => h)
    fun result _ h user huser => h.1 _ huser user rfl

/-- A new display name, after which the id is still known. -/
theorem alone_rename {name : String} (hknown : Known client userId username s)
    (hstep : StepOf guar (Directory.updateUser username (some name) [])) :
    Alone guar (fun _ s' => Known client userId username s')
      (updateUser client userId ⟨some name, none, none⟩) s := by
  refine alone_requireUsername_bind hknown ?_
  change Alone _ _ (do
    mutation (Directory.updateUser username (some name) [])
    getUser client userId) _
  refine alone_bind ((alone_mutation (Known client userId username) (fun _ _ h => h)
    (fun s h => ⟨hstep s, h⟩) hknown).mono (fun _ _ h => h) ?_)
  rintro (e | _) s hknown
  · exact hknown
  · exact (alone_getUser_of_known hknown).mono (fun s s' h => Tolerant.quiet s s' h)
      fun _ _ h => h

theorem alone_deactivateUser (hknown : Known client userId username s)
    (hstep : StepOf guar (Directory.updateUser username none
      (buildCustomAttributes { Attributes.none with isActive := some false }))) :
    Alone guar (fun _ s' => Known client userId username s')
      (deactivateUser client userId) s :=
  alone_requireUsername_bind hknown
    (alone_mutation _ (fun _ _ h => h) (fun s h => ⟨hstep s, h⟩) hknown)

theorem alone_markCertsRevoked (hknown : Known client userId username s)
    (hstep : ∀ existing : Attributes, StepOf guar (Directory.updateUser username none
      (buildCustomAttributes { existing with certsRevoked := some true }))) :
    Alone guar (fun _ _ => True) (markCertsRevoked client userId) s := by
  refine alone_requireUsername_bind hknown ?_
  have hrest : Respects guar (fun _ => True) (do
      let existing ← existingAttributes username
      mutation (Directory.updateUser username none
        (buildCustomAttributes { existing with certsRevoked := some true })) :
      IdProg settings Unit) :=
    respects_bind (respects_existingAttributes username)
      fun existing _ => respects_mutation (hstep existing)
  exact (hrest.alone (fun _ _ _ _ => trivial) trivial).mono (fun _ _ h => h)
    fun _ _ _ => trivial

theorem alone_setUserGroups {groupNames : List String}
    (hknown : Known client userId username s)
    (hremove : ∀ gid, StepOf guar (Directory.removeUserFromGroup username gid))
    (hadd : ∀ gid, StepOf guar (Directory.addUserToGroup username gid)) :
    Alone guar (fun _ _ => True) (setUserGroups client userId groupNames) s :=
  alone_requireUsername_bind hknown
    (((respects_assignGroups hremove hadd).alone (fun _ _ _ _ => trivial) trivial).mono
      (fun _ _ h => h) fun _ _ _ => trivial)

end Changes

/-! ## Groups -/

/-- The groups that `list_groups` shows of a directory. -/
def listedGroups (dir : Directory) : List (ℤ × String) :=
  (dir.groupNames.filter fun g => isTakName g.2 && g.2 != "tak_ROLE_ADMIN").map
    fun g => (g.1, bodyName g.2)

theorem alone_listGroups {post : Except Exn (List (ℤ × String)) → IdentityState settings → Prop}
    {s : IdentityState settings}
    (hdata : ∀ queue, post (.ok (listedGroups s.directory)) (withQueue queue s))
    (herror : ∀ queue e, post (.error e) (withQueue queue s)) :
    Alone guar post listGroups s :=
  alone_bind (alone_query hdata herror)

end FastTAK.Identity
