import FastTAK.NodeRed.Reconcile

/-!
# Runs that overlap

Executions of `Build CoT` and runs of `Reconcile MediaMTX` take turns.  A run decides what to
delete from its snapshot and its listing, and deletes it later; a stream that becomes wanted in
between is torn down.
-/

namespace FastTAK.NodeRed.DroneSense

open FastTAK.Fields

/-! ## Turns -/

/-- The world with the runs that were started. -/
structure Flow where
  world : World
  runs : List Run

inductive Event
  | start
  | advance (i : ℕ) (outcome : Outcome)
  | buildCot (missionLabel payload : Js)
  | land (i : ℕ)
  | elapse (now : ℤ) (paths : Paths) (presents : String → String)

/-- MediaMTX carries out a request whose caller gave up on it. -/
def World.land (mtx : MediaMtx) (i : ℕ) (w : World) : World :=
  match w.late[i]? with
  | some request => World.execute mtx request { w with late := w.late.eraseIdx i }
  | none => w

def Flow.apply (mtx : MediaMtx) (url : String → Option Endpoint) (flow : Flow) : Event → Flow
  | .start => ⟨flow.world.snapshot.1, flow.runs ++ [flow.world.snapshot.2]⟩
  | .advance i outcome =>
      match flow.runs[i]? with
      | some run =>
          let (world, run') := flow.world.step mtx url outcome run
          ⟨world, flow.runs.set i run'⟩
      | none => flow
  | .buildCot missionLabel payload =>
      { flow with world := flow.world.buildCot missionLabel payload }
  | .land i => { flow with world := flow.world.land mtx i }
  | .elapse now paths presents => { flow with world := { flow.world with now, paths, presents } }

/-- The names that a run is still going to delete. -/
def Run.doomed (run : Run) : List String :=
  match run.phase with
  | .adding _ | .posting _ _ _ _ => run.orphans
  | .deleting names => names
  | .listing | .finished => []

/-- The names in deletions that MediaMTX may still carry out. -/
def lateDeletes (late : List Request) : List String :=
  late.filterMap fun request =>
    match request with
    | .delete name => some name
    | .post _ _ _ _ => none

def Flow.doomed (flow : Flow) : List String :=
  flow.runs.flatMap Run.doomed ++ lateDeletes flow.world.late

/-- The names that an execution of `Build CoT` records. -/
def recordedNames (missionLabel payload : Js) : List String :=
  match payload.orElse (.arr []) with
  | .arr items => keys (recordItems missionLabel items).entries
  | _ => []

/-- No name is recorded that is still going to be deleted, and no run lists a path with an
entry that its snapshot does not have. -/
def Careful (mtx : MediaMtx) (flow : Flow) : Event → Prop
  | .buildCot missionLabel payload =>
      ∀ name ∈ recordedNames missionLabel payload, name ∉ flow.doomed
  | .advance i _ => ∀ run, flow.runs[i]? = some run → run.phase = .listing →
      ∀ name ∈ keys (currentOf (mtx.firstPage flow.world.paths)),
        name ∈ keys flow.world.desired → name ∈ keys run.desired
  | _ => True

/-- The states that careful events lead to, from one in which no run is under way. -/
inductive Reaches (mtx : MediaMtx) (url : String → Option Endpoint) : Flow → Prop
  | start {w : World} (hlate : w.late = []) (hlog : w.log = []) : Reaches mtx url ⟨w, []⟩
  | event {flow : Flow} {event : Event} (hflow : Reaches mtx url flow)
      (hcareful : Careful mtx flow event) : Reaches mtx url (flow.apply mtx url event)

/-! ## Steps -/

section Steps

variable {mtx : MediaMtx} {url : String → Option Endpoint} {w w' : World} {run run' : Run}
  {outcome : Outcome} {name : String}

theorem wanted_subset (hname : name ∈ w.wanted) : name ∈ keys w.desired := by
  obtain ⟨entry, hentry⟩ := mem_keys_iff.mp hname
  exact mem_keys_iff.mpr ⟨entry, (List.mem_filter.mp hentry).1⟩

/-- A deletion is one of these names. -/
def DeletesIn (names : List String) (request : Request) : Prop :=
  ∀ name, request = .delete name → name ∈ names

/-- What may come from one state to the other, where these names may be deleted. -/
structure Moves (names : List String) (w w' : World) : Prop where
  late : ∀ request ∈ w'.late, request ∈ w.late ∨ DeletesIn names request
  log : ∀ executed ∈ w'.log, executed ∈ w.log ∨
    (executed.wanted = w.wanted ∧ DeletesIn names executed.request)

theorem Moves.of_eq {names : List String} (hlate : w'.late = w.late) (hlog : w'.log = w.log) :
    Moves names w w' :=
  ⟨fun _ h => Or.inl (hlate ▸ h), fun _ h => Or.inl (hlog ▸ h)⟩

theorem moves_execute {names : List String} {request : Request}
    (hrequest : DeletesIn names request) : Moves names w (w.execute mtx request) where
  late _ h := Or.inl h
  log executed h := by
    rcases List.mem_cons.mp h with rfl | h
    · exact Or.inr ⟨rfl, hrequest⟩
    · exact Or.inl h

theorem moves_send {names : List String} {request : Request}
    (hrequest : DeletesIn names request) : Moves names w (w.send mtx outcome request) := by
  cases outcome with
  | answered => exact moves_execute hrequest
  | lost => exact Moves.of_eq rfl rfl
  | timedOut =>
      constructor
      · intro late hlate
        rcases List.mem_cons.mp hlate with rfl | hlate
        · exact Or.inr hrequest
        · exact Or.inl hlate
      · exact fun _ h => Or.inl h

theorem dsDesired_send {request : Request} :
    (w.send mtx outcome request).dsDesired = w.dsDesired := by
  cases outcome <;> rfl

theorem deletesIn_post {names : List String} {verb : Verb} {source : Js} {fingerprint : String} :
    DeletesIn names (.post verb name source fingerprint) := by
  intro _ h
  cases h

theorem deletesIn_delete {names : List String} (hname : name ∈ names) :
    DeletesIn names (.delete name) := by
  intro other h
  obtain rfl : name = other := Request.delete.inj h
  exact hname

theorem ensureFingerprint_fst (url : String → Option Endpoint) (w : World) (outcome : Outcome)
    (cache : ℕ) (source : Js) :
    ∃ caches, (ensureFingerprint url w outcome cache source).1 = { w with caches } := by
  rw [ensureFingerprint]
  split
  · exact ⟨w.caches, rfl⟩
  · dsimp only
    split_ifs
    · exact ⟨w.caches, rfl⟩
    · exact ⟨_, rfl⟩
    · exact ⟨w.caches, rfl⟩

/-- What a run deletes it has decided on before, and it decides on names of its listing that
are not in its snapshot. -/
structure Steps (mtx : MediaMtx) (w w' : World) (run run' : Run) : Prop where
  desired : w'.dsDesired = w.dsDesired
  moves : Moves run.doomed w w'
  doomed : ∀ name ∈ run'.doomed, name ∈ run.doomed ∨ (run.phase = .listing ∧
    name ∈ keys (currentOf (mtx.firstPage w.paths)) ∧ name ∉ keys run.desired)

theorem Steps.quiet (hdesired : w'.dsDesired = w.dsDesired) (hlate : w'.late = w.late)
    (hlog : w'.log = w.log) (hdoomed : ∀ name ∈ run'.doomed, name ∈ run.doomed) :
    Steps mtx w w' run run' :=
  ⟨hdesired, Moves.of_eq hlate hlog, fun name hname => Or.inl (hdoomed name hname)⟩

theorem steps_step (mtx : MediaMtx) (url : String → Option Endpoint) (outcome : Outcome)
    (w : World) (run : Run) :
    Steps mtx w (w.step mtx url outcome run).1 run (w.step mtx url outcome run).2 := by
  have hnone : ∀ name ∈ ({ run with phase := .finished } : Run).doomed, name ∈ run.doomed :=
    fun name hname => by cases hname
  obtain ⟨desired, cache, current, phase⟩ := run
  cases phase with
  | listing =>
      simp only [World.step]
      split_ifs
      · use rfl, Moves.of_eq rfl rfl
        intro name hname
        obtain ⟨hcurrent, hdesired⟩ := List.mem_filter.mp hname
        exact Or.inr ⟨rfl, hcurrent, by simpa using hdesired⟩
      · exact Steps.quiet rfl rfl rfl hnone
  | adding rest =>
      cases rest with
      | nil => exact Steps.quiet rfl rfl rfl fun _ h => h
      | cons field rest =>
          obtain ⟨caches, hcaches⟩ := ensureFingerprint_fst url w outcome cache field.2
          simp only [World.step]
          split_ifs
          · exact Steps.quiet rfl rfl rfl fun _ h => h
          · rw [hcaches]
            exact Steps.quiet rfl rfl rfl fun _ h => h
          · rw [hcaches]
            exact Steps.quiet rfl rfl rfl fun _ h => h
  | posting name source fingerprint rest =>
      simp only [World.step]
      split_ifs
      · exact Steps.quiet rfl rfl rfl hnone
      · exact ⟨dsDesired_send, moves_send deletesIn_post, fun _ h => Or.inl h⟩
      · exact ⟨dsDesired_send, moves_send deletesIn_post, fun _ h => Or.inl h⟩
  | deleting names =>
      cases names with
      | nil => exact Steps.quiet rfl rfl rfl hnone
      | cons name names =>
          simp only [World.step]
          split_ifs
          · exact Steps.quiet rfl rfl rfl hnone
          · exact ⟨dsDesired_send, moves_send (deletesIn_delete List.mem_cons_self),
              fun _ h => Or.inl (List.mem_cons_of_mem _ h)⟩
  | finished => exact Steps.quiet rfl rfl rfl hnone

end Steps

/-! ## Runs -/

/-- What careful events keep: no name that is still going to be deleted is wanted, and none was
wanted when it was deleted. -/
structure Spared (mtx : MediaMtx) (flow : Flow) : Prop where
  doomed : ∀ name ∈ flow.doomed, name ∉ keys flow.world.desired ∧ mtx.target name = some name
  log : ∀ executed ∈ flow.world.log, ∀ name, executed.request = .delete name →
    mtx.target name = some name ∧ name ∉ executed.wanted

section Runs

variable {mtx : MediaMtx} {url : String → Option Endpoint} {flow : Flow}

theorem mem_doomed_iff {name : String} : name ∈ flow.doomed ↔
    (∃ run ∈ flow.runs, name ∈ run.doomed) ∨ .delete name ∈ flow.world.late := by
  rw [Flow.doomed, List.mem_append, List.mem_flatMap]
  apply or_congr Iff.rfl
  rw [lateDeletes, List.mem_filterMap]
  constructor
  · rintro ⟨request, hrequest, hname⟩
    cases request with
    | delete other =>
        obtain rfl : other = name := Option.some.inj hname
        exact hrequest
    | post => cases hname
  · exact fun h => ⟨_, h, rfl⟩

/-- What moves the world by names that are doomed, and dooms and wants no further name,
spares what is wanted. -/
theorem Spared.of_moves {flow' : Flow} (names : List String) (hflow : Spared mtx flow)
    (hnames : ∀ name ∈ names, name ∈ flow.doomed)
    (hmoves : Moves names flow.world flow'.world)
    (hdoomed : ∀ name ∈ flow'.doomed, name ∉ keys flow'.world.desired ∧
      mtx.target name = some name) : Spared mtx flow' where
  doomed := hdoomed
  log executed hexecuted name hname := by
    rcases hmoves.log executed hexecuted with hexecuted | ⟨hwanted, hdeletes⟩
    · exact hflow.log executed hexecuted name hname
    · obtain ⟨hunwanted, htarget⟩ := hflow.doomed name (hnames name (hdeletes name hname))
      use htarget
      rw [hwanted]
      exact fun h => hunwanted (wanted_subset h)

theorem keys_desired_buildCot {missionLabel payload : Js} {w : World} {name : String}
    (hname : name ∈ keys (w.buildCot missionLabel payload).desired) :
    name ∈ recordedNames missionLabel payload ∨ name ∈ keys w.desired := by
  have hall : ∀ (entries : List (String × Js)) (fields : List (String × Entry)),
      name ∈ keys (entries.foldl (fun fields field => put field.1 ⟨field.2, w.now⟩ fields) fields) →
        name ∈ keys entries ∨ name ∈ keys fields := by
    intro entries
    induction entries with
    | nil => exact fun fields h => Or.inr h
    | cons field entries ih =>
        intro fields h
        rw [keys_cons, List.mem_cons]
        rcases ih _ h with h | h
        · exact Or.inl (Or.inr h)
        · exact (mem_keys_put.mp h).imp_left Or.inl
  cases hitems : payload.orElse (.arr []) with
  | arr items =>
      simp only [recordedNames, World.buildCot, hitems] at hname ⊢
      split_ifs at hname
      · rw [World.desired] at hname
        cases hdesired : w.dsDesired with
        | none =>
            rw [hdesired] at hname
            cases hname
        | some fields =>
            rw [hdesired] at hname
            exact hall _ _ hname
      · exact hall _ _ hname
  | _ =>
      simp only [World.buildCot, hitems] at hname
      exact Or.inr hname

theorem keys_desired_snapshot {w : World} {name : String}
    (hname : name ∈ keys w.snapshot.1.desired) : name ∈ keys w.desired :=
  wanted_subset hname

theorem moves_buildCot {missionLabel payload : Js} {w : World} {names : List String} :
    Moves names w (w.buildCot missionLabel payload) := by
  rw [World.buildCot]
  split
  · dsimp only
    split_ifs
    · exact Moves.of_eq rfl rfl
    · exact Moves.of_eq rfl rfl
  · exact Moves.of_eq rfl rfl

theorem late_buildCot {missionLabel payload : Js} {w : World} :
    (w.buildCot missionLabel payload).late = w.late := by
  rw [World.buildCot]
  split
  · dsimp only
    split_ifs
    · rfl
    · rfl
  · rfl

/-- A name that is doomed stays unwanted if it does not become wanted. -/
theorem Spared.of_subset {flow' : Flow} (names : List String) (hflow : Spared mtx flow)
    (hnames : ∀ name ∈ names, name ∈ flow.doomed)
    (hmoves : Moves names flow.world flow'.world)
    (hdoomed : ∀ name ∈ flow'.doomed, name ∈ flow.doomed)
    (hdesired : ∀ name ∈ flow.doomed, name ∈ keys flow'.world.desired →
      name ∈ keys flow.world.desired) : Spared mtx flow' := by
  apply hflow.of_moves names hnames hmoves
  intro name hname
  obtain ⟨hunwanted, htarget⟩ := hflow.doomed name (hdoomed name hname)
  exact ⟨fun h => hunwanted (hdesired name (hdoomed name hname) h), htarget⟩

theorem spared_start (hflow : Spared mtx flow) :
    Spared mtx ⟨flow.world.snapshot.1, flow.runs ++ [flow.world.snapshot.2]⟩ := by
  have hmoves : Moves [] flow.world flow.world.snapshot.1 := Moves.of_eq rfl rfl
  apply hflow.of_subset [] (by simp) hmoves
  · intro name hname
    rw [mem_doomed_iff] at hname ⊢
    apply hname.imp_left
    rintro ⟨run, hrun, hdoomed⟩
    rcases List.mem_append.mp hrun with hrun | hrun
    · exact ⟨run, hrun, hdoomed⟩
    · obtain rfl := List.mem_singleton.mp hrun
      cases hdoomed
  · exact fun name _ h => keys_desired_snapshot h

theorem spared_land (i : ℕ) (hflow : Spared mtx flow) :
    Spared mtx { flow with world := flow.world.land mtx i } := by
  rw [World.land]
  split
  · next request hrequest =>
      have hmem := List.mem_of_getElem? hrequest
      have hdeletes : DeletesIn flow.doomed request := by
        rintro name rfl
        exact mem_doomed_iff.mpr (Or.inr hmem)
      apply hflow.of_subset flow.doomed (fun _ h => h)
      · constructor
        · exact fun late hlate => Or.inl (List.mem_of_mem_eraseIdx hlate)
        · exact (moves_execute (w := { flow.world with late := flow.world.late.eraseIdx i })
            hdeletes).log
      · intro name hname
        rw [mem_doomed_iff] at hname ⊢
        exact hname.imp_right List.mem_of_mem_eraseIdx
      · exact fun name _ h => h
  · exact ⟨hflow.doomed, hflow.log⟩

theorem spared_buildCot {missionLabel payload : Js} (hflow : Spared mtx flow)
    (hcareful : ∀ name ∈ recordedNames missionLabel payload, name ∉ flow.doomed) :
    Spared mtx { flow with world := flow.world.buildCot missionLabel payload } := by
  apply hflow.of_subset [] (by simp) moves_buildCot
  · intro name hname
    rw [mem_doomed_iff, late_buildCot] at hname
    exact mem_doomed_iff.mpr hname
  · intro name hname hdesired
    exact (keys_desired_buildCot hdesired).resolve_left fun h => hcareful name h hname

theorem spared_advance {i : ℕ} {outcome : Outcome} {run : Run}
    (hplain : ∀ paths, ∀ item ∈ mtx.firstPage paths, mtx.target item.1 = some item.1)
    (hflow : Spared mtx flow) (hrun : flow.runs[i]? = some run)
    (hcareful : run.phase = .listing →
      ∀ name ∈ keys (currentOf (mtx.firstPage flow.world.paths)),
        name ∈ keys flow.world.desired → name ∈ keys run.desired) :
    Spared mtx ⟨(flow.world.step mtx url outcome run).1,
      flow.runs.set i (flow.world.step mtx url outcome run).2⟩ := by
  have hsteps := steps_step mtx url outcome flow.world run
  have hown : ∀ name ∈ run.doomed, name ∈ flow.doomed := fun name hname =>
    mem_doomed_iff.mpr (Or.inl ⟨run, List.mem_of_getElem? hrun, hname⟩)
  have hdesired : (flow.world.step mtx url outcome run).1.desired = flow.world.desired := by
    rw [World.desired, hsteps.desired]
    rfl
  apply hflow.of_moves run.doomed hown hsteps.moves
  intro name hname
  dsimp only
  rw [hdesired]
  rcases mem_doomed_iff.mp hname with ⟨other, hother, hdoomed⟩ | hlate
  · rcases List.mem_or_eq_of_mem_set hother with hother | rfl
    · exact hflow.doomed name (mem_doomed_iff.mpr (Or.inl ⟨other, hother, hdoomed⟩))
    · rcases hsteps.doomed name hdoomed with hdoomed | ⟨hlisting, hlisted, hnot⟩
      · exact hflow.doomed name (hown name hdoomed)
      · use fun h => hnot (hcareful hlisting name hlisted h)
        obtain ⟨path, hpath⟩ := mem_keys_iff.mp (keys_currentOf.mp hlisted).2
        exact hplain _ _ hpath
  · rcases hsteps.moves.late _ hlate with hlate | hdeletes
    · exact hflow.doomed name (mem_doomed_iff.mpr (Or.inr hlate))
    · exact hflow.doomed name (hown name (hdeletes name rfl))

/-- Careful events spare what is wanted. -/
theorem spared_apply
    (hplain : ∀ paths, ∀ item ∈ mtx.firstPage paths, mtx.target item.1 = some item.1)
    {event : Event} (hflow : Spared mtx flow) (hcareful : Careful mtx flow event) :
    Spared mtx (flow.apply mtx url event) := by
  cases event with
  | start => exact spared_start hflow
  | advance i outcome =>
      rw [Flow.apply]
      split
      · next run hrun => exact spared_advance hplain hflow hrun (hcareful run hrun)
      · exact hflow
  | buildCot missionLabel payload => exact spared_buildCot hflow hcareful
  | land i => exact spared_land i hflow
  | elapse now paths presents => exact ⟨hflow.doomed, hflow.log⟩

theorem spared_of_reaches
    (hplain : ∀ paths, ∀ item ∈ mtx.firstPage paths, mtx.target item.1 = some item.1)
    (hflow : Reaches mtx url flow) : Spared mtx flow := by
  induction hflow with
  | @start w hlate hlog =>
      constructor
      · intro name hname
        rw [mem_doomed_iff, hlate] at hname
        rcases hname with ⟨run, hrun, -⟩ | hname
        · cases hrun
        · cases hname
      · intro executed hexecuted
        rw [hlog] at hexecuted
        cases hexecuted
  | event _ hcareful ih => exact spared_apply hplain ih hcareful

/-- **Wanted streams are spared.**  In a run of careful events no path is deleted whose entry is
fresh when MediaMTX deletes it. -/
theorem wanted_streams_spared
    (hplain : ∀ paths, ∀ item ∈ mtx.firstPage paths, mtx.target item.1 = some item.1)
    (hflow : Reaches mtx url flow) :
    ∀ executed ∈ flow.world.log, ∀ name deleted, executed.request = .delete name →
      mtx.target name = some deleted → deleted ∉ executed.wanted := by
  intro executed hexecuted name deleted hname hdeleted
  obtain ⟨htarget, hunwanted⟩ := (spared_of_reaches hplain hflow).log executed hexecuted name hname
  rw [Option.some.inj (hdeleted.symm.trans htarget)]
  exact hunwanted

end Runs

/-! ## A stream that returns -/

/-- A path is left of a stream that nothing has recorded since the flow started. -/
def returningWorld : World where
  dsDesired := none
  caches := []
  fingerprintCache := none
  paths name := if name = "ds/a" then some ⟨relaySource, "old", false⟩ else none
  presents _ := "new"
  now := 0
  late := []
  log := []

def play (events : List Event) : Flow :=
  events.foldl (Flow.apply relayMtx relayUrl) ⟨returningWorld, []⟩

/-- The drone is seen while the listing is on its way. -/
theorem returning_stream_torn_down :
    let flow := play [.start, .buildCot (.str "") relayPayload, .advance 0 .answered,
      .advance 0 .answered, .advance 0 .answered]
    flow.world.log.map (fun executed =>
        (executed.request.name, executed.success, executed.wanted)) =
        [("ds/a", true, ["ds/a"])] ∧
      (returningWorld.paths "ds/a").isSome ∧ flow.world.paths "ds/a" = none := by
  decide +kernel

theorem careful_of_desired_nil {mtx : MediaMtx} {flow : Flow} {i : ℕ} {outcome : Outcome}
    (hdesired : flow.world.desired.length = 0) : Careful mtx flow (.advance i outcome) := by
  intro _ _ _ name _ hname
  rw [List.length_eq_zero_iff.mp hdesired] at hname
  cases hname

theorem orphan_deleted_unwanted :
    let flow := play [.start, .advance 0 .answered, .advance 0 .answered, .advance 0 .answered]
    ∀ executed ∈ flow.world.log, ∀ name deleted, executed.request = .delete name →
      relayMtx.target name = some deleted → deleted ∉ executed.wanted := by
  have hlisting : Reaches relayMtx relayUrl (play [.start]) :=
    @Reaches.event _ _ ⟨returningWorld, []⟩ .start (.start rfl rfl) trivial
  have hadding : Reaches relayMtx relayUrl (play [.start, .advance 0 .answered]) :=
    @Reaches.event _ _ _ (.advance 0 .answered) hlisting
      (careful_of_desired_nil (by decide +kernel))
  have hdeleting : Reaches relayMtx relayUrl
      (play [.start, .advance 0 .answered, .advance 0 .answered]) :=
    @Reaches.event _ _ _ (.advance 0 .answered) hadding (careful_of_desired_nil (by decide +kernel))
  have hdeleted : Reaches relayMtx relayUrl
      (play [.start, .advance 0 .answered, .advance 0 .answered, .advance 0 .answered]) :=
    @Reaches.event _ _ _ (.advance 0 .answered) hdeleting
      (careful_of_desired_nil (by decide +kernel))
  exact wanted_streams_spared (fun _ _ _ => rfl) hdeleted

end FastTAK.NodeRed.DroneSense
