import FastTAK.Identity.Client

/-!
# Lost responses

`_graphql` sends a mutation again when the response is lost or is a server error,
although LLDAP may have applied it.  A mutation that answers a repetition like the
first time, or with the error of a taken name that the caller does not look into,
hides the loss.  This file shows that the creation of a group is the only mutation
of `create_user`, `create_group` and `_ensure_user_groups` that does not.
-/

namespace FastTAK.Identity

open FastTAK.Effect FastTAK.Effect.Prog FastTAK.Api

variable {settings : Settings} {α β : Type}

/-! ## Faults -/

/-- Queues in which responses are lost, but never three in a row: the last attempt of
every request is answered. -/
inductive Lossy : List Verdict → Prop
  | nil : Lossy []
  | answered {queue : List Verdict} (h : Lossy queue) : Lossy (.runs :: queue)
  | lost (first : ℕ) {queue : List Verdict} (h : Lossy queue) :
      Lossy (.fails first :: .runs :: queue)
  | lostTwice (first second : ℕ) {queue : List Verdict} (h : Lossy queue) :
      Lossy (.fails first :: .fails second :: .runs :: queue)

/-- From this state the program does the same under every such queue as without a
fault. -/
structure Transparent (program : IdProg settings α) (s : IdentityState settings) : Prop where
  drained : (program.run (withQueue [] s)).2.lldap = []
  same : ∀ queue, Lossy queue → ∃ queue', Lossy queue' ∧
    program.run (withQueue queue s) =
      ((program.run (withQueue [] s)).1, withQueue queue' (program.run (withQueue [] s)).2)

/-! ## Rules -/

theorem transparent_pure (a : α) (s : IdentityState settings) :
    Transparent (pure a : IdProg settings α) s where
  drained := rfl
  same := fun queue hqueue => ⟨queue, hqueue, rfl⟩

theorem transparent_raise (e : Exn) (s : IdentityState settings) :
    Transparent (raise e : IdProg settings α) s where
  drained := rfl
  same := fun queue hqueue => ⟨queue, hqueue, rfl⟩

/-- A call that neither reads nor changes the queue. -/
theorem transparent_atomic {call : Call Exn (IdentityState settings) α}
    {s : IdentityState settings}
    (hcall : ∀ queue, call (withQueue queue s) =
      ((call (withQueue [] s)).1, withQueue queue (call (withQueue [] s)).2)) :
    Transparent (atomic call) s where
  drained := by
    rw [run_atomic, hcall []]
    rfl
  same := fun queue hqueue => ⟨queue, hqueue, hcall queue⟩

theorem transparent_bind {program : IdProg settings α} {next : α → IdProg settings β}
    {s : IdentityState settings} (hprogram : Transparent program s)
    (hnext : ∀ a s', program.run (withQueue [] s) = (.ok a, s') → Transparent (next a) s') :
    Transparent (program >>= next) s := by
  rcases hfirst : program.run (withQueue [] s) with ⟨e | a, s'⟩
  · have hrun : (program >>= next).run (withQueue [] s) = (.error e, s') := by
      rw [run_bind, Call.bind_apply, hfirst]
    have hdrained := hprogram.drained
    rw [hfirst] at hdrained
    refine ⟨by rw [hrun]; exact hdrained, fun queue hqueue => ?_⟩
    obtain ⟨queue', hqueue', hsame⟩ := hprogram.same queue hqueue
    refine ⟨queue', hqueue', ?_⟩
    rw [hrun, run_bind, Call.bind_apply, hsame, hfirst]
  · have hdrained := hprogram.drained
    rw [hfirst] at hdrained
    have hself : withQueue [] s' = s' := by
      change { s' with lldap := [] } = s'
      rw [← hdrained]
    have hrun : (program >>= next).run (withQueue [] s) = (next a).run s' := by
      rw [run_bind, Call.bind_apply, hfirst]
    have hlast := hnext a s' hfirst
    refine ⟨?_, fun queue hqueue => ?_⟩
    · rw [hrun, ← hself]
      exact hlast.drained
    · obtain ⟨queue', hqueue', hsame⟩ := hprogram.same queue hqueue
      obtain ⟨queue'', hqueue'', hsame'⟩ := hlast.same queue' hqueue'
      refine ⟨queue'', hqueue'', ?_⟩
      rw [hrun, run_bind, Call.bind_apply, hsame, hfirst]
      rw [hself] at hsame'
      exact hsame'

/-! ## Requests -/

/-- What a caller makes of a reply. -/
def settle (onEmpty : IdProg settings α) : Directory.Reply α → IdProg settings α
  | .data value => pure value
  | .duplicate =>
      if settings.recognizesDuplicates then onEmpty
      else raise (.runtimeError "GraphQL error")
  | .errors => raise (.runtimeError "GraphQL error")

variable {onEmpty : IdProg settings α} {request : Directory → Directory.Reply α × Directory}

theorem run_attempts_answered (attempts : ℕ) {queue : List Verdict}
    (hqueue : nextVerdict queue = .runs) (s : IdentityState settings) :
    (graphqlAttempts onEmpty request (attempts + 1)).run (withQueue queue s) =
      (settle onEmpty (request s.directory).1).run
        (withQueue queue.tail (withDirectory s (request s.directory).2)) := by
  have hattempt : graphqlAttempt request (withQueue queue s) =
      (.ok (some (request s.directory).1),
        withQueue queue.tail (withDirectory s (request s.directory).2)) := by
    simp only [graphqlAttempt, withQueue, hqueue]
    rfl
  rw [graphqlAttempts, run_bind, Call.bind_apply, run_atomic, hattempt]
  cases (request s.directory).1 <;> rfl

theorem run_attempts_lost (attempts applied : ℕ) (queue : List Verdict)
    (s : IdentityState settings) :
    (graphqlAttempts onEmpty request (attempts + 1)).run
        (withQueue (.fails applied :: queue) s) =
      (graphqlAttempts onEmpty request attempts).run (withQueue queue
        (if applied = 0 then s else withDirectory s (request s.directory).2)) := by
  have hattempt : graphqlAttempt request (withQueue (.fails applied :: queue) s) =
      (.ok none, withQueue queue
        (if applied = 0 then s else withDirectory s (request s.directory).2)) := by
    simp only [graphqlAttempt, withQueue, nextVerdict_cons, List.tail_cons]
    split_ifs <;> rfl
  rw [graphqlAttempts, run_bind, Call.bind_apply, run_atomic, hattempt]

/-- A repetition changes nothing more, and the caller makes the same of its reply. -/
structure Repeatable (onEmpty : IdProg settings α)
    (request : Directory → Directory.Reply α × Directory) (dir : Directory) : Prop where
  directory : (request (request dir).2).2 = (request dir).2
  reply : settle onEmpty (request (request dir).2).1 = settle onEmpty (request dir).1

theorem Repeatable.again {dir : Directory} (h : Repeatable onEmpty request dir) :
    Repeatable onEmpty request (request dir).2 where
  directory := by rw [h.directory, h.directory]
  reply := by rw [h.directory]

/-- The state in which a request finds itself sent again. -/
def afterLoss (request : Directory → Directory.Reply α × Directory) (applied : ℕ)
    (s : IdentityState settings) : IdentityState settings :=
  if applied = 0 then s else withDirectory s (request s.directory).2

theorem repeatable_afterLoss {s : IdentityState settings}
    (hrequest : Repeatable onEmpty request s.directory) (applied : ℕ) :
    Repeatable onEmpty request (afterLoss request applied s).directory ∧
      settle onEmpty (request (afterLoss request applied s).directory).1 =
        settle onEmpty (request s.directory).1 ∧
      withDirectory (afterLoss request applied s)
          (request (afterLoss request applied s).directory).2 =
        withDirectory s (request s.directory).2 := by
  unfold afterLoss
  split_ifs
  · exact ⟨hrequest, rfl, rfl⟩
  · refine ⟨hrequest.again, hrequest.reply, ?_⟩
    change withDirectory s (request (request s.directory).2).2 = _
    rw [hrequest.directory]

theorem transparent_graphql {s : IdentityState settings}
    (hrequest : Repeatable onEmpty request s.directory)
    (hsettle : Transparent (settle onEmpty (request s.directory).1)
      (withDirectory s (request s.directory).2)) :
    Transparent (graphql onEmpty request) s := by
  have hanswered : ∀ attempts queue, nextVerdict queue = .runs →
      (graphqlAttempts onEmpty request (attempts + 1)).run (withQueue queue s) =
        (settle onEmpty (request s.directory).1).run
          (withQueue queue.tail (withDirectory s (request s.directory).2)) :=
    fun attempts queue hqueue => run_attempts_answered attempts hqueue s
  have hplain := hanswered 2 [] rfl
  refine ⟨by rw [graphql, hplain]; exact hsettle.drained, fun queue hqueue => ?_⟩
  rw [graphql, hplain]
  cases hqueue with
  | nil =>
      rw [hplain]
      exact hsettle.same [] .nil
  | answered h =>
      rw [hanswered 2 _ rfl]
      exact hsettle.same _ h
  | lost first h =>
      obtain ⟨-, hreply, hdirectory⟩ := repeatable_afterLoss hrequest first
      rw [run_attempts_lost]
      change ∃ queue', _ ∧ (graphqlAttempts onEmpty request 2).run
        (withQueue _ (afterLoss request first s)) = _
      rw [run_attempts_answered 1 rfl, hreply, hdirectory]
      exact hsettle.same _ h
  | lostTwice first second h =>
      obtain ⟨hagain, hreply, hdirectory⟩ := repeatable_afterLoss hrequest first
      obtain ⟨-, hreply', hdirectory'⟩ := repeatable_afterLoss hagain second
      rw [run_attempts_lost]
      change ∃ queue', _ ∧ (graphqlAttempts onEmpty request 2).run
        (withQueue _ (afterLoss request first s)) = _
      rw [run_attempts_lost]
      change ∃ queue', _ ∧ (graphqlAttempts onEmpty request 1).run
        (withQueue _ (afterLoss request second (afterLoss request first s))) = _
      rw [run_attempts_answered 0 rfl, hreply', hdirectory', hreply, hdirectory]
      exact hsettle.same _ h

/-- A mutation whose reply is not looked at, if duplicates are recognized. -/
theorem transparent_mutation {request : Directory → Directory.Reply Unit × Directory}
    {s : IdentityState settings}
    (hrequest : Repeatable (pure () : IdProg settings Unit) request s.directory) :
    Transparent (mutation request) s := by
  refine transparent_graphql hrequest ?_
  cases (request s.directory).1 with
  | data value => exact transparent_pure _ _
  | duplicate =>
      unfold settle
      split_ifs
      · exact transparent_pure _ _
      · exact transparent_raise _ _
  | errors => exact transparent_raise _ _

theorem transparent_query (f : Directory → α) (s : IdentityState settings) :
    Transparent (query f) s :=
  transparent_graphql ⟨rfl, rfl⟩ (transparent_pure _ _)

/-- A query that nothing happens to. -/
theorem run_query (f : Directory → α) (s : IdentityState settings) :
    (query f).run (withQueue [] s) = (.ok (f s.directory), withQueue [] s) :=
  run_attempts_answered 2 rfl s

/-- A mutation that nothing happens to. -/
theorem state_of_run_mutation {request : Directory → Directory.Reply Unit × Directory}
    {s s' : IdentityState settings} {result : Except Exn Unit}
    (hrun : (mutation request).run (withQueue [] s) = (result, s')) :
    s' = withQueue [] (withDirectory s (request s.directory).2) := by
  rw [mutation, graphql, run_attempts_answered 2 rfl] at hrun
  obtain rfl : _ = s' := congrArg Prod.snd hrun
  cases (request s.directory).1 with
  | data value => rfl
  | duplicate =>
      unfold settle
      split_ifs <;> rfl
  | errors => rfl

theorem directory_of_run_mutation {request : Directory → Directory.Reply Unit × Directory}
    {s s' : IdentityState settings} {result : Except Exn Unit}
    (hrun : (mutation request).run (withQueue [] s) = (result, s')) :
    s'.directory = (request s.directory).2 := by
  rw [state_of_run_mutation hrun]
  rfl

theorem state_of_run_expiryFor {ttlHours : Option ℤ} {s s' : IdentityState settings}
    {result : Except Exn (Option ℤ)} (hrun : (expiryFor ttlHours).run s = (result, s')) :
    s' = s := by
  cases ttlHours with
  | none => exact (congrArg Prod.snd hrun).symm
  | some ttlHours =>
      simp only [expiryFor, expiryAfter, run_bind, run_atomic, Call.bind_apply,
        Call.read_apply] at hrun
      split_ifs at hrun
      · exact (congrArg Prod.snd hrun).symm
      · exact (congrArg Prod.snd hrun).symm

/-! ## Mutations that can be repeated -/

section Mutations

variable (hrecognizes : settings.recognizesDuplicates)

theorem repeatable_updateUser (id : String) (displayName : Option String)
    {inserted : List (String × List String)} (hnodup : (inserted.map Prod.fst).Nodup)
    (dir : Directory) :
    Repeatable (pure () : IdProg settings Unit)
      (Directory.updateUser id displayName inserted) dir := by
  cases haccount : dir.accounts.lookup id with
  | none =>
      have hrefused : Directory.updateUser id displayName inserted dir = (.errors, dir) := by
        simp only [Directory.updateUser, haccount]
      constructor <;> simp only [hrefused]
  | some account =>
      by_cases hvalues : inserted.all Directory.acceptsValues
      · let account' : Account :=
          { displayName := displayName.getD account.displayName
            attributes := insertAttributes account.attributes inserted }
        have hfirst : Directory.updateUser id displayName inserted dir =
            (.data (), { dir with accounts := dir.accounts.insert id account' }) := by
          simp only [Directory.updateUser, haccount, hvalues, if_true, account']
        have hagain : Directory.updateUser id displayName inserted
            { dir with accounts := dir.accounts.insert id account' } =
              (.data (), { dir with accounts := dir.accounts.insert id account' }) := by
          simp only [Directory.updateUser, AList.lookup_insert, hvalues, if_true, account',
            insertAttributes_twice _ hnodup, AList.insert_insert]
          cases displayName <;> rfl
        constructor <;> rw [hfirst, hagain]
      · have hrefused : Directory.updateUser id displayName inserted dir = (.errors, dir) := by
          simp only [Directory.updateUser, haccount, hvalues, Bool.false_eq_true, if_false]
        constructor <;> simp only [hrefused]

include hrecognizes

/-- The caller makes the same of data and of a duplicate. -/
theorem settle_duplicate :
    settle (pure () : IdProg settings Unit) .duplicate =
      settle (pure () : IdProg settings Unit) (.data ()) :=
  if_pos hrecognizes

theorem repeatable_createUser (username name : String) (dir : Directory) :
    Repeatable (pure () : IdProg settings Unit) (Directory.createUser username name) dir := by
  by_cases huser : username ∈ dir.accounts
  · have htaken : Directory.createUser username name dir = (.duplicate, dir) := if_pos huser
    constructor <;> simp only [htaken]
  · have hfirst : Directory.createUser username name dir =
        (.data (), { dir with accounts := dir.accounts.insert username ⟨name, ∅⟩ }) :=
      if_neg huser
    have hagain : Directory.createUser username name
        (Directory.createUser username name dir).2 =
          (.duplicate, (Directory.createUser username name dir).2) := by
      rw [hfirst]
      exact if_pos ((AList.mem_insert _).mpr (Or.inl rfl))
    constructor
    · rw [hagain]
    · rw [hagain, hfirst, settle_duplicate hrecognizes]

theorem repeatable_addUserToGroup (username : String) (gid : ℤ) (dir : Directory) :
    Repeatable (pure () : IdProg settings Unit)
      (Directory.addUserToGroup username gid) dir := by
  cases hgroup : dir.group gid with
  | none =>
      have hrefused : Directory.addUserToGroup username gid dir = (.errors, dir) := by
        simp only [Directory.addUserToGroup, hgroup]
      constructor <;> simp only [hrefused]
  | some g =>
      by_cases huser : username ∈ dir.accounts
      · by_cases hmember : username ∈ g.members
        · have htaken : Directory.addUserToGroup username gid dir = (.duplicate, dir) := by
            simp only [Directory.addUserToGroup, hgroup, huser, hmember, if_true]
          constructor <;> simp only [htaken]
        · have hfirst : Directory.addUserToGroup username gid dir =
              (.data (), dir.changeMembers gid (username :: ·)) := by
            simp only [Directory.addUserToGroup, hgroup, huser, hmember, if_true, if_false]
          have hagain : Directory.addUserToGroup username gid
              (Directory.addUserToGroup username gid dir).2 =
                (.duplicate, (Directory.addUserToGroup username gid dir).2) := by
            rw [hfirst]
            have hchanged := Directory.group_changeMembers hgroup (username :: ·)
            have huser' : username ∈ (dir.changeMembers gid (username :: ·)).accounts := huser
            simp only [Directory.addUserToGroup, hchanged, huser', if_true, List.mem_cons,
              true_or]
          constructor
          · rw [hagain]
          · rw [hagain, hfirst, settle_duplicate hrecognizes]
      · have hrefused : Directory.addUserToGroup username gid dir = (.errors, dir) := by
          simp only [Directory.addUserToGroup, hgroup, huser, if_false]
        constructor <;> simp only [hrefused]

end Mutations

/-! ## The operations -/

/-- The body of the loop of `_ensure_user_groups`. -/
def ensureMember (username : String) (allGroups : List (ℤ × String)) (name : String) :
    IdProg settings Unit := do
  let gid ← ensureGroup allGroups (takName name)
  mutation (Directory.addUserToGroup username gid)

theorem ensureUserGroups_eq (username : String) (groupNames : List String) :
    (ensureUserGroups username groupNames : IdProg settings Unit) = (do
      let allGroups ← query Directory.groupNames
      forList (ensureMember username allGroups) groupNames) := rfl

theorem transparent_forList {body : α → IdProg settings Unit} (xs : List α)
    (hbody : ∀ x ∈ xs, ∀ s, Transparent (body x) s) (s : IdentityState settings) :
    Transparent (forList body xs) s := by
  induction xs generalizing s with
  | nil => exact transparent_pure () s
  | cons x xs ih =>
      exact transparent_bind (hbody x (by simp) s) fun _ s' _ =>
        ih (fun y hy => hbody y (by simp [hy])) s'

theorem find_isSome_iff {allGroups : List (ℤ × String)} {name : String} :
    (allGroups.find? (·.2 == name)).isSome ↔ name ∈ allGroups.map Prod.snd := by
  rw [List.find?_isSome, List.mem_map]
  simp

/-- For a listed name one mutation is sent. -/
theorem ensureMember_of_mem {username : String} {allGroups : List (ℤ × String)}
    {name : String} (hname : takName name ∈ allGroups.map Prod.snd) :
    ∃ gid, (ensureMember username allGroups name : IdProg settings Unit) =
      mutation (Directory.addUserToGroup username gid) ∧ (gid, takName name) ∈ allGroups := by
  obtain ⟨found, hfound⟩ := Option.isSome_iff_exists.mp (find_isSome_iff.mpr hname)
  have hsnd : found.2 = takName name := by simpa using List.find?_some hfound
  refine ⟨found.1, ?_, hsnd ▸ List.mem_of_find?_eq_some hfound⟩
  rw [ensureMember, ensureGroup, hfound]
  rfl

theorem ensureGroup_of_notMem {allGroups : List (ℤ × String)} {name : String}
    (hname : name ∉ allGroups.map Prod.snd) :
    (ensureGroup allGroups name : IdProg settings ℤ) =
      graphql (raise .typeError) (Directory.createGroup name) := by
  have hnone : allGroups.find? (·.2 == name) = none := by
    rw [← Option.not_isSome_iff_eq_none, find_isSome_iff]
    exact hname
  rw [ensureGroup, hnone]

section Transparent

variable (hrecognizes : settings.recognizesDuplicates)
include hrecognizes

theorem transparent_ensureMember {username : String} {allGroups : List (ℤ × String)}
    {name : String} (hname : takName name ∈ allGroups.map Prod.snd)
    (s : IdentityState settings) :
    Transparent (ensureMember username allGroups name) s := by
  obtain ⟨gid, hgid, -⟩ : ∃ gid, (ensureMember username allGroups name :
    IdProg settings Unit) = _ ∧ _ := ensureMember_of_mem hname
  rw [hgid]
  exact transparent_mutation (repeatable_addUserToGroup hrecognizes username gid _)

theorem transparent_ensureUserGroups {username : String} {groupNames : List String}
    {s : IdentityState settings}
    (hgroups : ∀ name ∈ groupNames, takName name ∈ s.directory.groups.map Group.displayName) :
    Transparent (ensureUserGroups username groupNames) s := by
  rw [ensureUserGroups_eq]
  refine transparent_bind (transparent_query _ s) fun allGroups s' hquery => ?_
  rw [run_query, Prod.mk.injEq, Except.ok.injEq] at hquery
  obtain ⟨rfl, -⟩ := hquery
  refine transparent_forList groupNames (fun name hname => ?_) s'
  refine transparent_ensureMember hrecognizes ?_
  have hlisted := hgroups name hname
  simpa [Directory.groupNames] using hlisted

omit hrecognizes in
theorem transparent_expiryFor (ttlHours : Option ℤ) (s : IdentityState settings) :
    Transparent (expiryFor ttlHours) s := by
  cases ttlHours with
  | none => exact transparent_pure none s
  | some ttlHours =>
      have hnow : Transparent (atomic (Call.read IdentityState.now)) s :=
        transparent_atomic fun _ => rfl
      refine transparent_bind (transparent_bind hnow fun now s' _ => ?_) fun _ _ _ =>
        transparent_pure _ _
      split_ifs
      · exact transparent_raise _ _
      · exact transparent_pure _ _

omit hrecognizes in
theorem transparent_formatUser (client : Client) (u : Directory.UserView)
    (s : IdentityState settings) : Transparent (formatUser client u) s := by
  have hnote : Transparent (atomic (Call.modify (noteId client u.id))) s :=
    transparent_atomic fun _ => rfl
  exact transparent_bind hnote fun _ _ _ => transparent_pure _ _

omit hrecognizes in
theorem transparent_fetchCreated (client : Client) (username name : String)
    (attrs : Attributes) (s : IdentityState settings) :
    Transparent (fetchCreated client username name attrs) s := by
  refine transparent_bind (transparent_query _ s) fun users s' _ => ?_
  split
  · exact transparent_formatUser client _ s'
  · exact transparent_formatUser client _ s'

theorem transparent_createUser {client : Client} {username name : String}
    {ttlHours : Option ℤ} {groups : List String} {userType : String}
    {s : IdentityState settings}
    (hgroups : ∀ g ∈ groups, takName g ∈ s.directory.groups.map Group.displayName) :
    Transparent (createUser client username name ttlHours groups userType) s := by
  have hcreate := repeatable_createUser hrecognizes username name s.directory
  refine transparent_bind (transparent_mutation hcreate) fun _ s₁ hfirst => ?_
  refine transparent_bind (transparent_expiryFor ttlHours s₁) fun expires s₂ hsecond => ?_
  have hupdate : Repeatable (pure () : IdProg settings Unit) _ s₂.directory :=
    repeatable_updateUser username none
      (nodup_buildCustomAttributes (initialAttributes expires userType)) s₂.directory
  refine transparent_bind (transparent_mutation hupdate) fun _ s₃ hthird => ?_
  have hlast : ∀ s : IdentityState settings, Transparent (fetchCreated client username name
      (initialAttributes expires userType)) s :=
    fun s => transparent_fetchCreated client username name _ s
  dsimp only
  split_ifs
  · refine transparent_bind (transparent_ensureUserGroups hrecognizes ?_) fun _ s _ => hlast s
    have hfirst' : s₁.directory.groups = s.directory.groups := by
      rw [directory_of_run_mutation hfirst, Directory.groups_createUser]
    have hthird' : s₃.directory.groups = s₂.directory.groups := by
      rw [directory_of_run_mutation hthird, Directory.groups_updateUser]
    have hsecond' : s₂.directory = s₁.directory := by
      rw [state_of_run_expiryFor hsecond, withQueue_directory]
    rw [hthird', hsecond', hfirst']
    exact hgroups
  · exact hlast s₃

end Transparent

/-! ## The response that must not be lost -/

/-- From this state the program can be made to raise by losing a response. -/
def Spoilable (program : IdProg settings α) (s : IdentityState settings) : Prop :=
  ∃ queue, Lossy queue ∧ ∃ e, (program.run (withQueue queue s)).1 = .error e

/-- After some answered requests the program is where it is without faults, whatever
happens to the requests after that. -/
def Passes (program : IdProg settings α) (s : IdentityState settings) : Prop :=
  ∃ front, (∀ queue, Lossy queue → Lossy (front ++ queue)) ∧ ∀ queue,
    program.run (withQueue (front ++ queue) s) =
      ((program.run (withQueue [] s)).1, withQueue queue (program.run (withQueue [] s)).2)

/-- A bind inversion for runs without faults. -/
theorem run_bind_eq_ok {program : IdProg settings α} {next : α → IdProg settings β}
    {s : IdentityState settings} {b : β}
    (hok : ((program >>= next).run (withQueue [] s)).1 = .ok b) :
    ∃ a s', program.run (withQueue [] s) = (.ok a, s') ∧ ((next a).run s').1 = .ok b := by
  have hrun : (program.run >>= fun a => (next a).run) (withQueue [] s) =
      (.ok b, ((program >>= next).run (withQueue [] s)).2) := by
    rw [← run_bind]
    exact Prod.ext hok rfl
  obtain ⟨a, s', hfirst, hsecond⟩ := Call.bind_eq_ok hrun
  exact ⟨a, s', hfirst, congrArg Prod.fst hsecond⟩

theorem passes_graphql {s : IdentityState settings}
    (hsettle : ∀ queue, (settle onEmpty (request s.directory).1).run
        (withQueue queue (withDirectory s (request s.directory).2)) =
      (((settle onEmpty (request s.directory).1).run
          (withQueue [] (withDirectory s (request s.directory).2))).1,
        withQueue queue ((settle onEmpty (request s.directory).1).run
          (withQueue [] (withDirectory s (request s.directory).2))).2)) :
    Passes (graphql onEmpty request) s := by
  refine ⟨[.runs], fun queue hqueue => .answered hqueue, fun queue => ?_⟩
  have hanswered : ∀ queue, nextVerdict queue = .runs →
      (graphqlAttempts onEmpty request 3).run (withQueue queue s) =
        (settle onEmpty (request s.directory).1).run
          (withQueue queue.tail (withDirectory s (request s.directory).2)) :=
    fun queue hqueue => run_attempts_answered 2 hqueue s
  rw [graphql, hanswered [] rfl]
  exact (hanswered (.runs :: queue) rfl).trans (hsettle queue)

theorem passes_mutation (request : Directory → Directory.Reply Unit × Directory)
    (s : IdentityState settings) : Passes (mutation request) s := by
  refine passes_graphql fun queue => ?_
  cases (request s.directory).1 with
  | data value => rfl
  | duplicate =>
      unfold settle
      split_ifs <;> rfl
  | errors => rfl

theorem passes_query (f : Directory → α) (s : IdentityState settings) :
    Passes (query f) s := passes_graphql fun _ => rfl

theorem passes_expiryFor (ttlHours : Option ℤ) (s : IdentityState settings) :
    Passes (expiryFor ttlHours) s := by
  refine ⟨[], fun queue hqueue => hqueue, fun queue => ?_⟩
  cases ttlHours with
  | none => rfl
  | some ttlHours =>
      simp only [expiryFor, expiryAfter, run_bind, run_atomic, Call.bind_apply,
        Call.read_apply]
      split_ifs <;> rfl

theorem spoilable_bind {program : IdProg settings α} {next : α → IdProg settings β}
    {s s' : IdentityState settings} {a : α} (hpasses : Passes program s)
    (hrun : program.run (withQueue [] s) = (.ok a, s')) (hnext : Spoilable (next a) s') :
    Spoilable (program >>= next) s := by
  obtain ⟨front, hfront, hsame⟩ := hpasses
  obtain ⟨queue, hqueue, e, hraises⟩ := hnext
  refine ⟨front ++ queue, hfront queue hqueue, e, ?_⟩
  rw [run_bind, Call.bind_apply, hsame, hrun]
  exact hraises

theorem spoilable_bind_left {program : IdProg settings α} {next : α → IdProg settings β}
    {s : IdentityState settings} (hprogram : Spoilable program s) :
    Spoilable (program >>= next) s := by
  obtain ⟨queue, hqueue, e, hraises⟩ := hprogram
  refine ⟨queue, hqueue, e, ?_⟩
  rcases hrun : program.run (withQueue queue s) with ⟨result, s'⟩
  rw [hrun] at hraises
  rw [run_bind, Call.bind_apply, hrun, show result = .error e from hraises]

/-- The repetition of a creation finds the group that the first attempt made, and the
reply has no data. -/
theorem spoilable_createGroup {name : String} {s : IdentityState settings}
    (hnew : name ∉ s.directory.groups.map Group.displayName) :
    Spoilable (graphql (raise .typeError) (Directory.createGroup name) :
      IdProg settings ℤ) s := by
  refine ⟨[.fails 1, .runs], .lost 1 .nil, ?_⟩
  have hmade : name ∈ (Directory.createGroup name s.directory).2.groups.map
      Group.displayName := by
    rw [Directory.createGroup, dif_neg hnew]
    exact List.mem_cons_self
  have hagain : Directory.createGroup name (Directory.createGroup name s.directory).2 =
      (.duplicate, (Directory.createGroup name s.directory).2) := dif_pos hmade
  rw [graphql, run_attempts_lost, if_neg one_ne_zero, run_attempts_answered 1 rfl]
  change ∃ e, ((settle _ (Directory.createGroup name
    (Directory.createGroup name s.directory).2).1).run _).1 = _
  rw [hagain, settle]
  split_ifs
  · exact ⟨_, rfl⟩
  · exact ⟨_, rfl⟩

/-- Up to the first group that is missing nothing can be spoiled, and there it is. -/
theorem spoilable_ensureMembers {username : String} {allGroups : List (ℤ × String)}
    {groupNames : List String} {s : IdentityState settings}
    (hlisted : ∀ name ∈ s.directory.groups.map Group.displayName,
      name ∈ allGroups.map Prod.snd)
    (hmissing : ∃ name ∈ groupNames, takName name ∉ allGroups.map Prod.snd)
    (hok : ((forList (ensureMember username allGroups) groupNames).run
      (withQueue [] s)).1 = .ok ()) :
    Spoilable (forList (ensureMember username allGroups) groupNames) s := by
  induction groupNames generalizing s with
  | nil => simp at hmissing
  | cons name groupNames ih =>
      rw [forList] at hok ⊢
      by_cases hname : takName name ∈ allGroups.map Prod.snd
      · obtain ⟨gid, hgid, -⟩ : ∃ gid, (ensureMember username allGroups name :
          IdProg settings Unit) = _ ∧ _ := ensureMember_of_mem hname
        rw [hgid] at hok ⊢
        obtain ⟨_, s', hrun, hrest⟩ := run_bind_eq_ok hok
        refine spoilable_bind (passes_mutation _ s) hrun (ih ?_ ?_ ?_)
        · rw [directory_of_run_mutation hrun, Directory.names_addUserToGroup]
          exact hlisted
        · obtain ⟨other, hother, hnotMem⟩ := hmissing
          rcases List.mem_cons.mp hother with rfl | hother
          · exact absurd hname hnotMem
          · exact ⟨other, hother, hnotMem⟩
        · rw [state_of_run_mutation hrun] at hrest ⊢
          exact hrest
      · rw [ensureMember, ensureGroup_of_notMem hname]
        exact spoilable_bind_left (spoilable_bind_left
          (spoilable_createGroup fun h => hname (hlisted _ h)))

theorem spoilable_ensureUserGroups {username : String} {groupNames : List String}
    {s : IdentityState settings}
    (hmissing : ∃ name ∈ groupNames,
      takName name ∉ s.directory.groups.map Group.displayName)
    (hok : ((ensureUserGroups username groupNames).run (withQueue [] s)).1 = .ok ()) :
    Spoilable (ensureUserGroups username groupNames) s := by
  rw [ensureUserGroups_eq] at hok ⊢
  have hnames : s.directory.groupNames.map Prod.snd =
      s.directory.groups.map Group.displayName := by
    simp [Directory.groupNames]
  obtain ⟨_, s', hrun, hrest⟩ := run_bind_eq_ok hok
  refine spoilable_bind (passes_query _ s) hrun ?_
  rw [run_query, Prod.mk.injEq, Except.ok.injEq] at hrun
  obtain ⟨rfl, rfl⟩ := hrun
  refine spoilable_ensureMembers ?_ ?_ hrest
  · rw [hnames]
    exact fun _ h => h
  · rwa [hnames]

theorem spoilable_createUser {client : Client} {username name : String}
    {ttlHours : Option ℤ} {groups : List String} {userType : String}
    {s : IdentityState settings} {user : UserRecord}
    (hmissing : ∃ g ∈ groups, takName g ∉ s.directory.groups.map Group.displayName)
    (hok : ((createUser client username name ttlHours groups userType).run
      (withQueue [] s)).1 = .ok user) :
    Spoilable (createUser client username name ttlHours groups userType) s := by
  have hgroups : groups ≠ [] := by
    rintro rfl
    simp at hmissing
  unfold createUser at hok ⊢
  obtain ⟨_, s₁, hfirst, hok⟩ := run_bind_eq_ok hok
  refine spoilable_bind (passes_mutation _ s) hfirst ?_
  obtain rfl := state_of_run_mutation hfirst
  obtain ⟨expires, s₂, hsecond, hok⟩ := run_bind_eq_ok hok
  refine spoilable_bind (passes_expiryFor ttlHours _) hsecond ?_
  obtain rfl := state_of_run_expiryFor hsecond
  obtain ⟨_, s₃, hthird, hok⟩ := run_bind_eq_ok hok
  refine spoilable_bind (passes_mutation _ _) hthird ?_
  obtain rfl := state_of_run_mutation hthird
  rw [if_pos hgroups] at hok ⊢
  obtain ⟨_, s₄, hfourth, -⟩ := run_bind_eq_ok hok
  refine spoilable_bind_left (spoilable_ensureUserGroups ?_ (congrArg Prod.fst hfourth))
  change ∃ g ∈ groups, takName g ∉ (Directory.updateUser _ _ _
    (Directory.createUser _ _ _).2).2.groups.map Group.displayName
  rwa [Directory.groups_updateUser, Directory.groups_createUser]

/-! ## Which operations hide losses -/

/-- The operations that create users and groups, with their arguments. -/
inductive Creation where
  | createUser (client : Client) (username name : String) (ttlHours : Option ℤ)
      (groups : List String) (userType : String)
  | createGroup (name : String)
  | ensureUserGroups (username : String) (groupNames : List String)

/-- What the operation returns. -/
def Creation.Result : Creation → Type
  | createUser .. => UserRecord
  | createGroup _ => ℤ × String
  | ensureUserGroups _ _ => Unit

def Creation.program (settings : Settings) :
    (creation : Creation) → IdProg settings creation.Result
  | createUser client username name ttlHours groups userType =>
      Identity.createUser client username name ttlHours groups userType
  | createGroup name => Identity.createGroup name
  | ensureUserGroups username groupNames => Identity.ensureUserGroups username groupNames

/-- Does the operation have to create a group in this directory. -/
def Creation.NeedsGroup (dir : Directory) : Creation → Prop
  | createUser _ _ _ _ groups _ | ensureUserGroups _ groups =>
      ∃ g ∈ groups, takName g ∉ dir.groups.map Group.displayName
  | createGroup _ => True

/-- The operation ends as it does without faults: with the same result and the same
directory. -/
def SameOutcome (creation : Creation) (s : IdentityState settings)
    (queue : List Verdict) : Prop :=
  ((creation.program settings).run (withQueue queue s)).1 =
      ((creation.program settings).run (withQueue [] s)).1 ∧
    ((creation.program settings).run (withQueue queue s)).2.directory =
      ((creation.program settings).run (withQueue [] s)).2.directory

theorem sameOutcome_of_transparent {creation : Creation} {s : IdentityState settings}
    (h : Transparent (creation.program settings) s) {queue : List Verdict}
    (hqueue : Lossy queue) : SameOutcome creation s queue := by
  obtain ⟨queue', -, hsame⟩ := h.same queue hqueue
  rw [SameOutcome, hsame]
  exact ⟨rfl, rfl⟩

theorem spoilable_of_needsGroup {creation : Creation} {s : IdentityState settings}
    {result : creation.Result}
    (hok : ((creation.program settings).run (withQueue [] s)).1 = .ok result)
    (hneeds : creation.NeedsGroup s.directory) : Spoilable (creation.program settings) s := by
  cases creation with
  | createUser client username name ttlHours groups userType =>
      exact spoilable_createUser hneeds hok
  | createGroup name =>
      have hnew : takName name ∉ s.directory.groups.map Group.displayName := by
        intro htaken
        have hduplicate : Directory.createGroup (takName name) s.directory =
            (.duplicate, s.directory) := dif_pos htaken
        obtain ⟨gid, s', hrun, -⟩ := run_bind_eq_ok hok
        rw [graphql, run_attempts_answered 2 rfl, hduplicate, settle] at hrun
        split_ifs at hrun <;> cases congrArg Prod.fst hrun
      exact spoilable_bind_left (spoilable_createGroup hnew)
  | ensureUserGroups username groupNames => exact spoilable_ensureUserGroups hneeds hok

end FastTAK.Identity
