import FastTAK.Backup.Returns

/-!
# The story of a run

What a run leaves behind, in the directory, in the state file and in the audit rows, is one
consistent story exactly when its failures come at the right time: before it has made
anything, or under the lock and before the archive has its name.
-/

namespace FastTAK.Backup

open FastTAK.Calendar FastTAK.Effect FastTAK.Text Prog

/-! ## The story -/

/-- The file was made by the process. -/
def Own (me : ℕ) (name : String) (w : World) : Prop :=
  ∃ entry ∈ w.disk.lookup name, entry.run = me

instance (me : ℕ) (name : String) (w : World) : Decidable (Own me name w) :=
  inferInstanceAs (Decidable (∃ entry ∈ w.disk.lookup name, entry.run = me))

/-- The state file has the last record of the run, with this status. -/
def Says (me : ℕ) (status : RunStatus) (w : World) : Prop :=
  ∃ r ∈ w.state.lastRun, w.record.recordOf me = some r ∧ r.status = status

instance (me : ℕ) (status : RunStatus) (w : World) : Decidable (Says me status w) :=
  inferInstanceAs (Decidable (∃ r ∈ w.state.lastRun, _))

/-- How many rows of an action there are since `w`. -/
def rows (action : String) (w w' : World) : ℕ :=
  ((w'.events.drop w.events.length).map Event.action).count action

/-- One consistent story: each start has one outcome, the state file and the audit agree
about success, a run that fails has no archive, and nothing unfinished stays. -/
structure Story (me : ℕ) (filename : String) (returned : Prop) (w w' : World) : Prop where
  outcome : 0 < rows "backup.started" w w' →
    rows "backup.completed" w w' + rows "backup.failed" w w' = 1
  status : Says me .success w' ↔ 0 < rows "backup.completed" w w' ∧ returned
  archive : ¬ returned → ¬ Own me filename w'
  staging : me ∉ w'.staging
  partialFile : ¬ Own me (filename ++ ".partial") w'

/-! ## When it is told -/

/-- Nothing fails up to the archive under its final name. -/
def Works (me : ℕ) (w : World) : Prop :=
  (∀ step ∈ prepareSteps, w.fault me step = none) ∧
    (∀ step ∈ streamSteps, w.fault me step = none) ∧ w.exits me = .clean ∧
    w.fault me .replace = none

/-- Nothing fails from there to the success record. -/
def Completes (me : ℕ) (w : World) : Prop :=
  w.fault me .sidecar = none ∧ w.fault me .stat = none ∧ CanWrite me .success w

/-- Nothing fails in the retention pass. -/
def Retains (me : ℕ) (filename : String) (w : World) : Prop :=
  ∃ keep ∈ w.retentionKeep.toOption,
    CanReap me ((partialFiles w.disk).filter (· ≠ filename ++ ".partial")) w ∧
      CanDelete me (toDelete (keep : ℕ) (filename :: w.disk.keys.erase filename)) w

/-- Nothing fails when the lock is let go of. -/
def Unlocks (me : ℕ) (w : World) : Prop :=
  w.fault me (.unlock .run) = none ∧ w.fault me (.closeLock .run) = none

/-- Nothing fails in the record of a failure. -/
def RecordsFailure (me : ℕ) (w : World) : Prop :=
  w.fault me .unlinkPartial = none ∧ CanWrite me .failed w

/-- The run gets the lock and says so, and its staging directory can be removed. -/
def Begins (me : ℕ) (w : World) : Prop :=
  w.fault me (.lockDir .run) = none ∧ w.fault me (.openLock .run) = none ∧
    w.fault me (.flock .run) = none ∧ w.lock = none ∧ CanWrite me .running w ∧
    w.staysBehind me = false

/-- The failures come at the right time. -/
def FailsInTime (me : ℕ) (filename : String) (w : World) : Prop :=
  w.fault me .backupDir ≠ none ∨ w.fault me .mkdtemp ≠ none ∨
    Begins me w ∧ (Works me w ∧ Completes me w ∧ Retains me filename w ∧ Unlocks me w ∨
      ¬ Works me w ∧ RecordsFailure me w)

/-- The process has left nothing yet. -/
structure NewRun (me : ℕ) (w : World) : Prop where
  staging : me ∉ w.staging
  record : w.record.recordOf me = none
  files : ∀ name entry, w.disk.lookup name = some entry → entry.run ≠ me ∧ me ∉ entry.writers

/-! ## Audit rows -/

/-- Between the two worlds rows of these actions were added. -/
def Adds (actions : List String) (w w' : World) : Prop :=
  ∃ added, w'.events = w.events ++ added ∧ added.map Event.action = actions

theorem Adds.trans {actions actions' : List String} {w w' w'' : World} (h : Adds actions w w')
    (h' : Adds actions' w' w'') : Adds (actions ++ actions') w w'' := by
  obtain ⟨added, hadded, hactions⟩ := h
  obtain ⟨added', hadded', hactions'⟩ := h'
  refine ⟨added ++ added', ?_, ?_⟩
  · rw [hadded', hadded, List.append_assoc]
  · rw [List.map_append, hactions, hactions']

theorem adds_of_events {w w' : World} (h : w'.events = w.events) : Adds [] w w' :=
  ⟨[], by rw [h, List.append_nil], rfl⟩

theorem Adds.rows {actions : List String} {w w' : World} (h : Adds actions w w')
    (action : String) : rows action w w' = actions.count action := by
  obtain ⟨added, hadded, hactions⟩ := h
  rw [Backup.rows, hadded, List.drop_left, hactions]

theorem adds_addEvent {me : ℕ} {w : World} (hrows : ∀ action, w.lostRow me action = false)
    (e : Event) : Adds [e.action] w (w.addEvent me e) := by
  refine ⟨[e], ?_, rfl⟩
  rw [World.addEvent, hrows e.action]
  rfl

/-! ## The phases -/

section Phases

variable {me : ℕ} {job : Job} {v : World}

theorem touches_prepare : Respects (Touches (fun _ => False)) (fun _ => True) job.prepare :=
  respects_prepare touches_refl (fun _ _ => ⟨fun _ _ => rfl, rfl⟩)

/-- While the pipeline runs, only its file changes, and the files it had open before. -/
structure Streams (me : ℕ) (out : String) (w w' : World) : Prop where
  files : ∀ name, name ≠ out → (∀ entry ∈ w.disk.lookup name, me ∉ entry.writers) →
    w'.disk.lookup name = w.disk.lookup name
  rest : w' = { w with disk := w'.disk, identity := w'.identity }

instance (out : String) : IsPreorder World (Streams me out) where
  refl _ := ⟨fun _ _ _ => rfl, rfl⟩
  trans _ _ _ h h' :=
    ⟨fun name hname hclosed => by
      have hfirst := h.files name hname hclosed
      rw [h'.files name hname (by rw [hfirst]; exact hclosed), hfirst], by
      rw [h'.rest, h.rest]⟩

theorem streams_stream {out : String} :
    Respects (Streams me out) (fun _ => True) (streamEncryptedArchive me out) := by
  apply respects_stream (fun w => refl_of (Streams me out) w)
  · exact fun w => ⟨fun name hname _ => AList.lookup_insert_ne hname, rfl⟩
  · intro w exits
    refine ⟨fun name _ hclosed => ?_, rfl⟩
    rw [endPipeline, World.setDisk, lookup_mapFiles]
    cases hentry : w.disk.lookup name with
    | none => rfl
    | some entry => exact congrArg some (if_neg (hclosed entry hentry))

theorem run_closeOutput (i : ℕ) (exits : Option Exits) (size : ℕ) (now : ℤ) (entry : Entry) :
    (closeOutput i exits size now entry).run = entry.run := by
  unfold closeOutput
  by_cases hwriter : i ∈ entry.writers
  · rw [if_pos hwriter]
    cases exits with
    | none => rfl
    | some exits => rfl
  · rw [if_neg hwriter]

theorem own_openOutput {out : String} : Own me out (openOutput me out v) :=
  ⟨_, AList.lookup_insert _, rfl⟩

/-- The file of a pipeline that ended is the process's own. -/
theorem Own.endPipeline {name : String} {exits : Option Exits} (h : Own me name v) :
    Own me name (Backup.endPipeline me exits v) := by
  obtain ⟨entry, hentry, hown⟩ := h
  refine ⟨closeOutput me exits (v.size me) v.clock.seconds entry, ?_, ?_⟩
  · exact (lookup_mapFiles _ _ name).trans (congrArg (Option.map _) hentry)
  · rw [run_closeOutput, hown]

/-- Only files with such names and what the run records change. -/
structure Settles (names : String → Prop) (w w' : World) : Prop where
  files : ∀ name, ¬ names name → w'.disk.lookup name = w.disk.lookup name
  rest : w' = { w with
    disk := w'.disk
    identity := w'.identity
    current := w'.current
    state := w'.state
    record := w'.record
    events := w'.events }

instance (names : String → Prop) : IsPreorder World (Settles names) where
  refl _ := ⟨fun _ _ => rfl, rfl⟩
  trans _ _ _ h h' :=
    ⟨fun name hname => (h'.files name hname).trans (h.files name hname), by
      rw [h'.rest, h.rest]⟩

theorem Settles.fault {names : String → Prop} {w w' : World} (h : Settles names w w') :
    w'.fault = w.fault := by rw [h.rest]

theorem Settles.own_iff {names : String → Prop} {w w' : World} (h : Settles names w w')
    {name : String} (hname : ¬ names name) : Own me name w' ↔ Own me name w := by
  rw [Own, Own, h.files name hname]

theorem settles_refl {names : String → Prop} (w : World) : Settles names w w :=
  refl_of (Settles names) w

theorem settles_addEvent {names : String → Prop} (w : World) (i : ℕ) (e : Event) :
    Settles names w (w.addEvent i e) := by
  unfold World.addEvent
  split_ifs
  · exact settles_refl w
  · exact ⟨fun _ _ => rfl, rfl⟩

theorem settles_complete :
    Respects (Settles (· = job.filename ++ ".sha256")) (fun _ => True) job.complete :=
  (respects_complete settles_refl
    (fun _ _ => ⟨fun _ hname => AList.lookup_insert_ne hname, rfl⟩)
    (fun _ _ => ⟨fun _ _ => rfl, rfl⟩) (fun _ _ _ => ⟨fun _ _ => rfl, rfl⟩)
    (fun w e => settles_addEvent w job.me e)).mono (fun _ _ h => h) (fun _ _ => trivial)

theorem settles_fail {exc : Exn} :
    Respects (Settles (· = job.partialName)) (fun _ => False) (job.fail exc) :=
  respects_fail settles_refl
    (fun _ => ⟨fun _ hname => AList.lookup_erase_ne hname, rfl⟩)
    (fun _ _ => ⟨fun _ _ => rfl, rfl⟩) (fun _ _ _ => ⟨fun _ _ => rfl, rfl⟩)
    (fun w e => settles_addEvent w job.me e)

/-- The record of a run is in the state file. -/
theorem says_writeLastRun {r : LastRun} (h : CanWrite me r.status v) :
    ∃ u, (writeLastRun me r).run v = (.ok (), u) ∧ Says me r.status u ∧
      u.events = v.events ∧ u.lostRow = v.lostRow := by
  obtain ⟨current, state, hlast, hrun⟩ := run_writeLastRun h
  exact ⟨_, hrun, ⟨r, hlast, Function.update_self me _ _, rfl⟩, rfl, rfl⟩

theorem disk_addEvent {e : Event} : (v.addEvent me e).disk = v.disk := by
  unfold World.addEvent
  split_ifs
  · rfl
  · rfl

theorem says_addEvent {status : RunStatus} {e : Event} :
    Says me status (v.addEvent me e) ↔ Says me status v := by
  unfold World.addEvent
  split_ifs
  · exact Iff.rfl
  · exact Iff.rfl

/-! ## Up to the archive -/

theorem partialName_ne : job.partialName ≠ job.filename := by
  intro hsame
  have hlength := congrArg String.length hsame
  rw [Job.partialName, String.length_append] at hlength
  simp at hlength

theorem sidecarName_ne : job.filename ++ ".sha256" ≠ job.filename := by
  intro hsame
  have hlength := congrArg String.length hsame
  rw [String.length_append] at hlength
  simp at hlength

theorem streams_prepare {out : String} :
    Respects (Streams job.me out) (fun _ => True) job.prepare :=
  respects_prepare (fun w => refl_of (Streams job.me out) w) (fun _ _ => ⟨fun _ _ _ => rfl, rfl⟩)

/-- The archive has its final name. -/
structure Archived (job : Job) (v u : World) : Prop where
  made : Own job.me job.filename u
  gone : job.partialName ∉ u.disk
  files : ∀ name, name ≠ job.filename → name ≠ job.partialName →
    (∀ entry ∈ v.disk.lookup name, job.me ∉ entry.writers) →
    u.disk.lookup name = v.disk.lookup name
  rest : u = { v with disk := u.disk, identity := u.identity }

/-- What comes after the archive has its name. -/
def Job.finish (job : Job) : Task BackupResult := do
  let result ← job.complete
  job.retain
  return result

theorem run_replaceFile {source target : String} {entry : Entry}
    (hfault : v.fault me .replace = none) (hsource : v.disk.lookup source = some entry) :
    (replaceFile me source target).run v =
      (.ok (), v.setDisk (fun disk => (disk.erase source).insert target entry)) := by
  rw [replaceFile, run_withFile, hfault, hsource]

/-- Where nothing fails, the archive gets its name. -/
theorem run_body_of_works (h : Works job.me v) :
    ∃ u, Archived job v u ∧ job.body.run v = job.finish.run u := by
  obtain ⟨hprepare, hstream, hexits, hreplace⟩ := h
  obtain ⟨x, v₁, hrun₁⟩ := (returns_prepare.mpr hprepare).run
  have htouches : Touches (fun _ => False) v v₁ := touches_prepare.keeps_of_run hrun₁
  have hfault : v₁.fault = v.fault := htouches.fault
  have hclean : v₁.exits = v.exits := by rw [htouches.rest]
  let v₂ := endPipeline job.me (some .clean) (openOutput job.me job.partialName v₁)
  have hrun₂ : (streamEncryptedArchive job.me job.partialName).run v₁ = (.ok (), v₂) :=
    run_stream (by rwa [hfault]) (by rwa [hclean])
  have hstreams : Streams job.me job.partialName v₁ v₂ := streams_stream.keeps_of_run hrun₂
  obtain ⟨entry, hentry, hown⟩ : Own job.me job.partialName v₂ := own_openOutput.endPipeline
  have hrest : v₂ = { v with disk := v₂.disk, identity := v₂.identity } := by
    rw [hstreams.rest, htouches.rest]
  let u := v₂.setDisk (fun disk => (disk.erase job.partialName).insert job.filename entry)
  have hrun₃ : (replaceFile job.me job.partialName job.filename).run v₂ = (.ok (), u) :=
    run_replaceFile (by rwa [hrest]) hentry
  refine ⟨u, ⟨⟨entry, AList.lookup_insert _, hown⟩, ?_, ?_, ?_⟩, ?_⟩
  · change job.partialName ∉ (v₂.disk.erase job.partialName).insert job.filename entry
    rw [AList.mem_insert, AList.mem_erase]
    rintro (hsame | ⟨hne, -⟩)
    · exact partialName_ne hsame
    · exact hne rfl
  · intro name hfilename hpartialName hclosed
    have hfirst := htouches.files name not_false
    change ((v₂.disk.erase job.partialName).insert job.filename entry).lookup name = _
    rw [AList.lookup_insert_ne hfilename, AList.lookup_erase_ne hpartialName,
      hstreams.files name hpartialName (by rwa [hfirst]), hfirst]
  · exact congrArg
      (World.setDisk fun disk => (disk.erase job.partialName).insert job.filename entry) hrest
  · rw [Job.body, run_bind_of_ok hrun₁, run_bind_of_ok hrun₂, run_bind_of_ok hrun₃, Job.finish]

/-- Where something fails, the archive does not get its name. -/
theorem run_body_of_not_works (h : ¬ Works job.me v) :
    ∃ e u, job.body.run v = (.error e, u) ∧ Streams job.me job.partialName v u := by
  by_cases hprepare : Returns job.prepare v
  · obtain ⟨x, v₁, hrun₁⟩ := hprepare.run
    have htouches : Touches (fun _ => False) v v₁ := touches_prepare.keeps_of_run hrun₁
    have hstreams₁ : Streams job.me job.partialName v v₁ := streams_prepare.keeps_of_run hrun₁
    by_cases hstream : Returns (streamEncryptedArchive job.me job.partialName) v₁
    · obtain ⟨y, v₂, hrun₂⟩ := hstream.run
      have hstreams : Streams job.me job.partialName v v₂ :=
        trans_of (Streams job.me job.partialName) hstreams₁ (streams_stream.keeps_of_run hrun₂)
      rw [returns_prepare] at hprepare
      rw [returns_stream, htouches.fault] at hstream
      have hfault : v₂.fault job.me .replace ≠ none := by
        rw [hstreams.rest]
        intro hreplace
        have hexits : v₁.exits = v.exits := by rw [htouches.rest]
        exact h ⟨hprepare, hstream.1, by rw [← hexits, hstream.2], hreplace⟩
      obtain ⟨f, hf⟩ := Option.ne_none_iff_exists'.mp hfault
      have hrun₃ : (replaceFile job.me job.partialName job.filename).run v₂ =
          (.error (.other f.name f.text), v₂) := by
        rw [replaceFile, run_withFile, hf]
      exact ⟨_, v₂, by rw [Job.body, run_bind_of_ok hrun₁, run_bind_of_ok hrun₂,
        run_bind_of_error hrun₃], hstreams⟩
    · obtain ⟨e, u, hrun₂⟩ := run_of_not_returns hstream
      exact ⟨e, u, by rw [Job.body, run_bind_of_ok hrun₁, run_bind_of_error hrun₂],
        trans_of (Streams job.me job.partialName) hstreams₁ (streams_stream.keeps_of_run hrun₂)⟩
  · obtain ⟨e, u, hrun⟩ := run_of_not_returns hprepare
    exact ⟨e, u, by rw [Job.body, run_bind_of_error hrun], streams_prepare.keeps_of_run hrun⟩

/-! ## After the archive -/

theorem run_withFile_ok {me : ℕ} {step : Step} {name : String} {effect : Entry → World → World}
    {u : World} (h : (withFile me step name effect).run v = (.ok (), u)) :
    v.fault me step = none ∧ ∃ entry ∈ v.disk.lookup name, u = effect entry v := by
  rw [run_withFile] at h
  cases hfault : v.fault me step with
  | some f =>
      rw [hfault] at h
      cases h
  | none =>
      cases hentry : v.disk.lookup name with
      | none =>
          rw [hfault, hentry] at h
          cases h
      | some entry =>
          rw [hfault, hentry] at h
          cases h
          exact ⟨rfl, entry, rfl, rfl⟩

theorem run_writeSidecar_ok {me : ℕ} {archive : String} {u : World}
    (h : (writeSidecar me archive).run v = (.ok (), u)) :
    v.fault me .sidecar = none ∧
      ∃ entry ∈ v.disk.lookup archive, u = v.setSidecar me archive (some (entry.run, archive)) := by
  rw [run_writeSidecar] at h
  cases hfault : v.fault me .sidecar with
  | some f =>
      cases hentry : v.disk.lookup archive with
      | none =>
          rw [hfault, hentry] at h
          cases h
      | some entry =>
          rw [hfault, hentry] at h
          cases h
  | none =>
      cases hentry : v.disk.lookup archive with
      | none =>
          rw [hfault, hentry] at h
          cases h
      | some entry =>
          rw [hfault, hentry] at h
          cases h
          exact ⟨rfl, entry, rfl, rfl⟩

/-- The archive is complete: the sidecar, the success record and the audit row are there. -/
theorem run_complete (hrows : ∀ action, v.lostRow job.me action = false)
    (hmade : job.filename ∈ v.disk) (h : Completes job.me v) :
    ∃ made u, job.complete.run v = (.ok made, u) ∧ Adds ["backup.completed"] v u ∧
      Says job.me .success u := by
  obtain ⟨hsidecar, hstat, hwrite⟩ := h
  obtain ⟨entry, hentry⟩ := Option.isSome_iff_exists.mp (AList.lookup_isSome.mpr hmade)
  let v₁ := v.setSidecar job.me job.filename (some (entry.run, job.filename))
  have hrun₁ : (writeSidecar job.me job.filename).run v = (.ok (), v₁) := by
    rw [run_writeSidecar, hsidecar, hentry]
  have hentry₁ : v₁.disk.lookup job.filename = some entry := by
    rw [← hentry]
    exact AList.lookup_insert_ne sidecarName_ne.symm
  have hfound : (withFile job.me .stat job.filename (fun _ => id)).run v₁ = (.ok (), v₁) := by
    have hfault : v₁.fault job.me .stat = none := hstat
    rw [run_withFile, hfault, hentry₁]
    rfl
  have hrun₂ : (statSize job.me job.filename).run v₁ = (.ok entry.size, v₁) := by
    rw [statSize, run_bind_of_ok hfound]
    change (Except.ok (((v₁.disk.lookup job.filename).map Entry.size).getD 0), v₁) = _
    rw [hentry₁]
    rfl
  have hnow : (ask World.clock).run v₁ = (.ok v₁.clock, v₁) := rfl
  obtain ⟨v₂, hrun₃, hsays, hevents, hlost⟩ := says_writeLastRun (v := v₁)
    (r := job.lastRun (some v₁.clock) .success none) hwrite
  have hadds : Adds ["backup.completed"] v₂ (v₂.addEvent job.me
      (job.event "backup.completed" job.filename
        [("size_bytes", .number entry.size), ("components", .texts componentNames)])) :=
    adds_addEvent (by rwa [hlost]) _
  refine ⟨⟨job.filename, entry.size⟩, _, ?_, (adds_of_events hevents).trans hadds, ?_⟩
  · rw [Job.complete, run_bind_of_ok hrun₁, run_bind_of_ok hrun₂, run_bind_of_ok hnow,
      run_bind_of_ok hrun₃]
    rfl
  · exact says_addEvent.mpr hsays

theorem completes_of_returns (h : Returns job.complete v) : Completes job.me v := by
  obtain ⟨_, v₁, hrun₁, h₁⟩ := h.of_bind
  obtain ⟨hsidecar, _, -, hv₁⟩ := run_writeSidecar_ok hrun₁
  obtain ⟨size, v₂, hrun₂, h₂⟩ := h₁.of_bind
  have hstatSize : Respects (· = ·) (fun _ => True) (statSize job.me job.filename) :=
    respects_bind (respects_withFile (fun _ => rfl) (fun _ _ _ => rfl))
      (fun _ _ => respects_ask (fun _ => rfl))
  have hv₂ : v₁ = v₂ := hstatSize.keeps_of_run hrun₂
  have hreturns : Returns (statSize job.me job.filename) v₁ := ⟨size, by rw [hrun₂]⟩
  obtain ⟨_, _, hfound, -⟩ := hreturns.of_bind
  have hstat := (run_withFile_ok hfound).1
  obtain ⟨now, v₃, hnow, h₃⟩ := h₂.of_bind
  have hv₃ : v₂ = v₃ := congrArg Prod.snd hnow
  obtain ⟨_, _, hrecord, -⟩ := h₃.of_bind
  have hwrite : CanWrite job.me .success v₃ := by
    by_contra hfails
    obtain ⟨e, current, hrun⟩ := run_writeLastRun_error
      (r := job.lastRun (some now) .success none) hfails
    rw [hrun] at hrecord
    cases hrecord
  rw [← hv₃, ← hv₂, hv₁] at hwrite
  rw [hv₁] at hstat
  exact ⟨hsidecar, hstat, hwrite⟩

/-! ## Retention -/

/-- Only files are removed, and only removals are reported. -/
structure Prunes (w w' : World) : Prop where
  files : ∀ name entry, w'.disk.lookup name = some entry → w.disk.lookup name = some entry
  pruned : ∃ n, Adds (List.replicate n "backup.pruned") w w'
  rest : w' = { w with disk := w'.disk, events := w'.events }

instance : IsPreorder World Prunes where
  refl _ := ⟨fun _ _ h => h, ⟨0, adds_of_events rfl⟩, rfl⟩
  trans _ _ _ h h' :=
    ⟨fun name entry hentry => h.files name entry (h'.files name entry hentry), by
      obtain ⟨n, hn⟩ := h.pruned
      obtain ⟨n', hn'⟩ := h'.pruned
      exact ⟨n + n', by rw [List.replicate_add]; exact hn.trans hn'⟩, by
      rw [h'.rest, h.rest]⟩

theorem prunes_refl (w : World) : Prunes w w := refl_of Prunes w

theorem prunes_erase (w : World) (name : String) :
    Prunes w (w.setDisk (AList.erase name)) := by
  refine ⟨fun other entry hentry => ?_, ⟨0, adds_of_events rfl⟩, rfl⟩
  by_cases hsame : other = name
  · rw [hsame, World.setDisk, AList.lookup_erase] at hentry
    cases hentry
  · rwa [World.setDisk, AList.lookup_erase_ne hsame] at hentry

theorem prunes_addEvent {w : World} {e : Event} (he : e.action = "backup.pruned") :
    Prunes w (w.addEvent me e) := by
  unfold World.addEvent
  split_ifs
  · exact prunes_refl w
  · exact ⟨fun _ _ h => h, ⟨1, [e], rfl, by rw [List.map_singleton, he]; rfl⟩, rfl⟩

theorem prunes_retain : Respects Prunes (fun _ => True) job.retain :=
  respects_retain prunes_refl prunes_erase (fun _ _ he => prunes_addEvent he)

/-- What the retention pass finds. -/
structure Kept (job : Job) (v u : World) : Prop where
  made : Own job.me job.filename u
  gone : job.partialName ∉ u.disk
  files : ∀ name, name ≠ job.filename → name ≠ job.partialName →
    name ≠ job.filename ++ ".sha256" → u.disk.lookup name = v.disk.lookup name
  rest : u = { v with
    disk := u.disk
    identity := u.identity
    current := u.current
    state := u.state
    record := u.record
    events := u.events }

theorem returns_recordEvents {names : List String} :
    Returns (forList (fun name => recordEvent job.me
      (job.event "backup.pruned" name [("reason", .text "retention")])) names) v := by
  induction names generalizing v with
  | nil => exact returns_pure
  | cons name names ih =>
      obtain ⟨a, ha⟩ := ih (v := v.addEvent job.me
        (job.event "backup.pruned" name [("reason", .text "retention")]))
      exact ⟨a, ha⟩

/-- The stale partial files are those that were there before. -/
theorem Kept.canReap_iff {u : World} (h : Kept job v u)
    (hlast : job.filename.toList.getLast? = some 'e') :
    CanReap job.me (partialFiles u.disk) u ↔
      CanReap job.me ((partialFiles v.disk).filter (· ≠ job.partialName)) v := by
  have hlookup : ∀ name, fitsStar "fasttak-backup-" ".partial" name → name ≠ job.partialName →
      u.disk.lookup name = v.disk.lookup name := by
    intro name hfits hpartialName
    have hend := getLast_of_fitsPartial hfits
    apply h.files name _ hpartialName
    · rintro rfl
      rw [getLast_sidecar] at hend
      cases hend
    · rintro rfl
      rw [hlast] at hend
      cases hend
  have hmem : ∀ name, name ∈ partialFiles u.disk ↔
      name ∈ (partialFiles v.disk).filter (· ≠ job.partialName) := by
    intro name
    simp only [partialFiles, List.mem_filter, ← AList.mem_keys, decide_eq_true_eq]
    by_cases hpartialName : name = job.partialName
    · rw [hpartialName]
      exact iff_of_false (fun hin => h.gone hin.1) (fun hin => hin.2 rfl)
    · rw [and_iff_left hpartialName]
      apply and_congr_left
      intro hfits
      rw [← AList.lookup_isSome, ← AList.lookup_isSome, hlookup name hfits hpartialName]
  have hfault : u.fault = v.fault := by rw [h.rest]
  have hclock : u.clock = v.clock := by rw [h.rest]
  have hage : u.partialReapAge = v.partialReapAge := by rw [h.rest]
  unfold CanReap
  rw [hfault, hclock, hage]
  apply forall_congr'
  intro name
  rw [hmem]
  apply imp_congr_right
  intro hin
  obtain ⟨hpartialName, hne⟩ := List.mem_filter.mp hin
  rw [hlookup name (List.mem_filter.mp hpartialName).2 (of_decide_eq_true hne)]

/-- The archives are those that were there before and the new one. -/
theorem Kept.mem_toDelete_iff {u w : World} (h : Kept job v u)
    (htouches : Touches (fun name => fitsStar "fasttak-backup-" ".partial" name) u w) (keep : ℕ)
    (name : String) :
    name ∈ toDelete keep w.disk.keys ↔
      name ∈ toDelete keep (job.filename :: v.disk.keys.erase job.filename) := by
  apply mem_toDelete_congr keep w.disk.keys_nodup
  · exact List.nodup_cons.mpr ⟨v.disk.keys_nodup.not_mem_erase, v.disk.keys_nodup.erase _⟩
  · intro name hname
    have hend := getLast_of_stampOf hname
    have hfits : ¬ fitsStar "fasttak-backup-" ".partial" name := by
      intro hfits
      rw [getLast_of_fitsPartial hfits] at hend
      cases hend
    rw [← AList.mem_keys, ← AList.lookup_isSome, htouches.files name hfits, List.mem_cons]
    by_cases hsame : name = job.filename
    · obtain ⟨entry, hentry, -⟩ := h.made
      rw [hsame, hentry]
      exact iff_of_true rfl (Or.inl rfl)
    · rw [or_iff_right hsame, List.mem_erase_of_ne hsame, ← AList.mem_keys,
        ← AList.lookup_isSome, h.files name hsame]
      · rintro rfl
        rw [Job.partialName, getLast_partialName] at hend
        cases hend
      · rintro rfl
        rw [getLast_sidecar] at hend
        cases hend

theorem run_retentionKeep : retentionKeep.run v =
    match v.retentionKeep with
    | .ok keep => (.ok keep, v)
    | .error f => (.error (.other f.name f.text), v) := rfl

theorem returns_retain {u : World} (h : Kept job v u)
    (hlast : job.filename.toList.getLast? = some 'e') :
    Returns job.retain u ↔ Retains job.me job.filename v := by
  have hkeep : u.retentionKeep = v.retentionKeep := by rw [h.rest]
  have hfault : u.fault = v.fault := by rw [h.rest]
  have hrun := run_retentionKeep (v := u)
  rw [hkeep] at hrun
  unfold Retains
  cases hsetting : v.retentionKeep with
  | error f =>
      rw [hsetting] at hrun
      apply iff_of_false
      · intro hreturns
        obtain ⟨keep, _, hok, -⟩ := hreturns.of_bind
        rw [hrun] at hok
        cases hok
      · intro hretains
        obtain ⟨keep, hmem, -⟩ := hretains
        cases hmem
  | ok keep =>
      rw [hsetting] at hrun
      have hprune : Returns (prune job.me ((keep : ℕ) : ℤ)) u ↔ _ :=
        returns_prune (fun w htouches => h.mem_toDelete_iff htouches keep)
      have hrest : Returns job.retain u ↔ Returns (prune job.me ((keep : ℕ) : ℤ)) u ∧ True := by
        rw [Returns, Job.retain, run_bind_of_ok hrun]
        exact returns_bind_iff (fun _ _ _ => iff_true_intro returns_recordEvents)
      rw [hrest, and_true, hprune, h.canReap_iff hlast]
      have hdelete : ∀ names, CanDelete job.me names u ↔ CanDelete job.me names v := by
        intro names
        unfold CanDelete
        rw [hfault]
      rw [hdelete]
      constructor
      · exact fun hboth => ⟨keep, rfl, hboth⟩
      · intro hretains
        obtain ⟨_, hmem, hboth⟩ := hretains
        cases hmem
        exact hboth

/-! ## Failures -/

theorem run_ifFile_ok {step : Step} (name : String) (h : v.fault me step = none) :
    ∃ found, (ifFile me step name (World.setDisk (AList.erase name))).run v =
      (.ok found, v.setDisk (AList.erase name)) := by
  rw [run_ifFile, h]
  by_cases habsent : v.disk.lookup name = none
  · have hsame : v.disk.erase name = v.disk :=
      AList.ext (List.kerase_of_notMem_keys (AList.lookup_eq_none.mp habsent))
    refine ⟨false, ?_⟩
    dsimp only
    rw [if_pos habsent, World.setDisk, hsame]
  · exact ⟨true, if_neg habsent⟩

/-- A failure is recorded, and nothing unfinished stays. -/
theorem run_fail (hrows : ∀ action, v.lostRow job.me action = false)
    (h : RecordsFailure job.me v) (exc : Exn) :
    ∃ u, (job.fail exc).run v = (.error exc, u) ∧ Adds ["backup.failed"] v u ∧
      Says job.me .failed u ∧ job.partialName ∉ u.disk := by
  obtain ⟨hunlink, hwrite⟩ := h
  obtain ⟨found, hfound⟩ := run_ifFile_ok job.partialName hunlink
  let v₁ := v.setDisk (AList.erase job.partialName)
  have hrun₁ : (cleanupPartial job.me job.partialName).run v = (.ok (), v₁) := by
    rw [cleanupPartial, Prog.discard, run_bind_of_ok hfound]
    rfl
  have hnow : (ask World.clock).run v₁ = (.ok v₁.clock, v₁) := rfl
  obtain ⟨current, state, hlast, hrun₂⟩ := run_writeLastRun (w := v₁)
    (r := job.lastRun (some v₁.clock) .failed (some exc.typeName)) hwrite
  let v₂ := { v₁ with
    current := current
    state := state
    record := v₁.record.setRecordOf job.me
      (job.lastRun (some v₁.clock) .failed (some exc.typeName)) }
  have hlost : ∀ action, v₂.lostRow job.me action = false := hrows
  have hadds := adds_addEvent hlost (job.event "backup.failed" (runId job.me)
    [("error", .text s!"{exc.typeName}: {exc.text}")])
  refine ⟨_, ?_, hadds, ?_, ?_⟩
  · rw [Job.fail, run_bind_of_ok hrun₁, run_bind_of_ok hnow, run_bind_of_ok hrun₂]
    rfl
  · exact says_addEvent.mpr ⟨_, hlast, Function.update_self job.me _ _, rfl⟩
  · rw [disk_addEvent]
    exact fun hmem => (AList.mem_erase.mp hmem).1 rfl

/-- A failure that is not recorded leaves the state file and the audit as they are. -/
theorem run_fail_unrecorded (h : ¬ RecordsFailure job.me v) (exc : Exn) :
    ∃ e u, (job.fail exc).run v = (.error e, u) ∧ u.events = v.events ∧ u.state = v.state ∧
      u.record = v.record := by
  cases hunlink : v.fault job.me .unlinkPartial with
  | some f =>
      have hfound : (ifFile job.me .unlinkPartial job.partialName
          (World.setDisk (AList.erase job.partialName))).run v =
            (.error (.other f.name f.text), v) := by
        rw [run_ifFile, hunlink]
      have hrun₁ : (cleanupPartial job.me job.partialName).run v =
          (.error (.other f.name f.text), v) := by
        rw [cleanupPartial, Prog.discard, run_bind_of_error hfound]
      exact ⟨_, v, by rw [Job.fail, run_bind_of_error hrun₁], rfl, rfl, rfl⟩
  | none =>
      obtain ⟨found, hfound⟩ := run_ifFile_ok job.partialName hunlink
      let v₁ := v.setDisk (AList.erase job.partialName)
      have hrun₁ : (cleanupPartial job.me job.partialName).run v = (.ok (), v₁) := by
        rw [cleanupPartial, Prog.discard, run_bind_of_ok hfound]
        rfl
      have hnow : (ask World.clock).run v₁ = (.ok v₁.clock, v₁) := rfl
      have hwrite : ¬ CanWrite job.me .failed v₁ := fun hwrite => h ⟨hunlink, hwrite⟩
      obtain ⟨e, current, hrun₂⟩ := run_writeLastRun_error
        (r := job.lastRun (some v₁.clock) .failed (some exc.typeName)) hwrite
      refine ⟨e, { v₁ with current := current }, ?_, rfl, rfl, rfl⟩
      rw [Job.fail, run_bind_of_ok hrun₁, run_bind_of_ok hnow, run_bind_of_error hrun₂]

/-! ## Under the lock -/

/-- The work of a run, with what it does about a failure. -/
def Job.guarded (job : Job) : Task BackupResult := job.body.tryExcept job.fail

/-- The part of the story that is told under the lock. -/
structure Tells (me : ℕ) (filename : String) (returned : Prop) (v u : World) : Prop where
  outcome : rows "backup.completed" v u + rows "backup.failed" v u = 1
  status : Says me .success u ↔ 0 < rows "backup.completed" v u ∧ returned
  archive : ¬ returned → ¬ Own me filename u
  partialFile : ¬ Own me (filename ++ ".partial") u

theorem not_own_of_absent {name : String} (h : name ∉ v.disk) : ¬ Own me name v := by
  rintro ⟨entry, hentry, -⟩
  have hsome : (v.disk.lookup name).isSome := by rw [hentry]; rfl
  exact h (AList.lookup_isSome.mp hsome)

/-- The archive is made and complete. -/
theorem run_complete_of_archived {u : World} (hrows : ∀ action, v.lostRow job.me action = false)
    (h : Archived job v u)
    (hclosed : ∀ name, ∀ entry ∈ v.disk.lookup name, job.me ∉ entry.writers)
    (hcompletes : Completes job.me v) :
    ∃ made t, job.complete.run u = (.ok made, t) ∧ Kept job v t ∧
      Adds ["backup.completed"] v t ∧ Says job.me .success t := by
  have hmade : job.filename ∈ u.disk :=
    by_contra fun habsent => not_own_of_absent habsent h.made
  obtain ⟨made, t, hrun, hadds, hsays⟩ := run_complete (v := u)
    (by rw [h.rest]; exact hrows) hmade (by rw [h.rest]; exact hcompletes)
  have hsettles : Settles (· = job.filename ++ ".sha256") u t :=
    settles_complete.keeps_of_run hrun
  have hevents : u.events = v.events := by rw [h.rest]
  refine ⟨made, t, hrun, ⟨?_, ?_, ?_, ?_⟩, (adds_of_events hevents).trans hadds, hsays⟩
  · exact (hsettles.own_iff sidecarName_ne.symm).mpr h.made
  · rw [← AList.lookup_eq_none, hsettles.files, AList.lookup_eq_none]
    · exact h.gone
    · intro hsame
      have hlast := congrArg (fun name : String => name.toList.getLast?) hsame
      simp only [Job.partialName, getLast_partialName, getLast_sidecar] at hlast
      cases hlast
  · intro name hfilename hpartialName hsidecar
    rw [hsettles.files name hsidecar, h.files name hfilename hpartialName (hclosed name)]
  · rw [hsettles.rest, h.rest]

section Courses

variable (hrows : ∀ action, v.lostRow job.me action = false)
  (hlast : job.filename.toList.getLast? = some 'e')
  (hfiles : ∀ name, ∀ entry ∈ v.disk.lookup name, entry.run ≠ job.me ∧ job.me ∉ entry.writers)

include hrows hlast hfiles

/-- Nothing fails. -/
theorem tells_success (hworks : Works job.me v) (hcompletes : Completes job.me v)
    (hretains : Retains job.me job.filename v) :
    ∃ made u, job.guarded.run v = (.ok made, u) ∧ Says job.me .success u ∧
      Tells job.me job.filename True v u := by
  obtain ⟨u₀, harchived, hbody⟩ := run_body_of_works hworks
  obtain ⟨made, u₁, hcomplete, hkept, hadds, hsays⟩ :=
    run_complete_of_archived hrows harchived (fun name entry h => (hfiles name entry h).2)
      hcompletes
  obtain ⟨x, u₂, hretain⟩ := ((returns_retain hkept hlast).mpr hretains).run
  have hprunes : Prunes u₁ u₂ := prunes_retain.keeps_of_run hretain
  have hrun : job.body.run v = (.ok made, u₂) := by
    rw [hbody, Job.finish, run_bind_of_ok hcomplete, run_bind_of_ok hretain]
    rfl
  obtain ⟨n, hpruned⟩ := hprunes.pruned
  have hall := hadds.trans hpruned
  have hsuccess : Says job.me .success u₂ := by
    rw [hprunes.rest]
    exact hsays
  refine ⟨made, u₂, run_tryExcept_of_ok hrun, hsuccess, ?_, ?_, ?_, ?_⟩
  · rw [hall.rows, hall.rows]
    simp [List.count_replicate]
  · rw [hall.rows]
    simp [hsuccess]
  · exact fun hnot => absurd trivial hnot
  · rintro ⟨entry, hentry, -⟩
    have hsome : (u₁.disk.lookup job.partialName).isSome := by
      rw [hprunes.files job.partialName entry hentry]
      rfl
    exact hkept.gone (AList.lookup_isSome.mp hsome)

omit hrows hlast hfiles in
/-- A failure after the archive has its name, whatever is recorded of it. -/
theorem not_tells_of_archive {u t : World} {exc e : Exn} (harchive : Own job.me job.filename u)
    (hbody : job.body.run v = (.error exc, u)) (hguarded : job.guarded.run v = (.error e, t)) :
    ¬ Tells job.me job.filename False v t := by
  rw [Job.guarded, run_tryExcept_of_error hbody] at hguarded
  have hsettles : Settles (· = job.partialName) u t := settles_fail.keeps_of_run hguarded
  exact fun htells =>
    htells.archive not_false ((hsettles.own_iff partialName_ne.symm).mpr harchive)

omit hlast in
/-- Something fails before the archive has its name. -/
theorem tells_early_failure (hworks : ¬ Works job.me v) :
    ∃ e u, job.guarded.run v = (.error e, u) ∧
      (Tells job.me job.filename False v u ↔ RecordsFailure job.me v) := by
  obtain ⟨exc, u, hbody, hstreams⟩ := run_body_of_not_works hworks
  have hevents : u.events = v.events := by rw [hstreams.rest]
  have hrecords : RecordsFailure job.me u ↔ RecordsFailure job.me v := by rw [hstreams.rest]; rfl
  by_cases hfailure : RecordsFailure job.me v
  · obtain ⟨t, hfail, hadds, ⟨r, hr, hof, hfailed⟩, hgone⟩ := run_fail
      (by rw [hstreams.rest]; exact hrows) (hrecords.mpr hfailure) exc
    have hsettles : Settles (· = job.partialName) u t := settles_fail.keeps_of_run hfail
    have hall := (adds_of_events hevents).trans hadds
    refine ⟨exc, t, by rw [Job.guarded, run_tryExcept_of_error hbody, hfail],
      iff_of_true ⟨?_, ?_, ?_, not_own_of_absent hgone⟩ hfailure⟩
    · rw [hall.rows, hall.rows]
      rfl
    · apply iff_of_false
      · intro hsays
        obtain ⟨r', -, hof', hsuccess⟩ := hsays
        rw [hof] at hof'
        cases hof'
        rw [hfailed] at hsuccess
        cases hsuccess
      · exact And.right
    · intro _ hown
      rw [hsettles.own_iff partialName_ne.symm, Own, hstreams.files _ partialName_ne.symm
        (fun entry h => (hfiles _ entry h).2)] at hown
      obtain ⟨entry, hentry, hmine⟩ := hown
      exact (hfiles _ entry hentry).1 hmine
  · obtain ⟨e, t, hfail, hsame, -, -⟩ :=
      run_fail_unrecorded (fun hrecorded => hfailure (hrecords.mp hrecorded)) exc
    have hall : Adds [] v t := adds_of_events (hsame.trans hevents)
    refine ⟨e, t, by rw [Job.guarded, run_tryExcept_of_error hbody, hfail],
      iff_of_false ?_ hfailure⟩
    intro htells
    have houtcome := htells.outcome
    rw [hall.rows, hall.rows] at houtcome
    cases houtcome

/-- Something fails after the archive has its name. -/
theorem not_tells_late_failure (hworks : Works job.me v)
    (hlate : ¬ (Completes job.me v ∧ Retains job.me job.filename v)) :
    ∃ e u, job.guarded.run v = (.error e, u) ∧ ¬ Tells job.me job.filename False v u := by
  obtain ⟨u₀, harchived, hbody⟩ := run_body_of_works hworks
  by_cases hcompletes : Completes job.me v
  · -- the archive is complete, and retention fails
    obtain ⟨made, u₁, hcomplete, hkept, hadds, hsays⟩ :=
      run_complete_of_archived hrows harchived (fun name entry h => (hfiles name entry h).2)
        hcompletes
    have hretains : ¬ Returns job.retain u₁ := fun hreturns =>
      hlate ⟨hcompletes, (returns_retain hkept hlast).mp hreturns⟩
    obtain ⟨exc, u₂, hretain⟩ := run_of_not_returns hretains
    have hprunes : Prunes u₁ u₂ := prunes_retain.keeps_of_run hretain
    have hrun : job.body.run v = (.error exc, u₂) := by
      rw [hbody, Job.finish, run_bind_of_ok hcomplete, run_bind_of_error hretain]
    obtain ⟨n, hpruned⟩ := hprunes.pruned
    have hall := hadds.trans hpruned
    by_cases hfailure : RecordsFailure job.me u₂
    · have hlost : ∀ action, u₂.lostRow job.me action = false := by
        rw [hprunes.rest, hkept.rest]
        exact hrows
      obtain ⟨t, hfail, hfailed, -, -⟩ := run_fail hlost hfailure exc
      refine ⟨exc, t, by rw [Job.guarded, run_tryExcept_of_error hrun, hfail], ?_⟩
      intro htells
      have houtcome := htells.outcome
      rw [(hall.trans hfailed).rows, (hall.trans hfailed).rows] at houtcome
      simp [List.count_replicate] at houtcome
    · obtain ⟨e, t, hfail, -, hstate, hrecord⟩ := run_fail_unrecorded hfailure exc
      refine ⟨e, t, by rw [Job.guarded, run_tryExcept_of_error hrun, hfail], ?_⟩
      intro htells
      apply (htells.status.mp _).2
      rw [Says, hstate, hrecord, hprunes.rest]
      exact hsays
  · have hfails : ¬ Returns job.complete u₀ := by
      intro hreturns
      have hdone := completes_of_returns hreturns
      rw [harchived.rest] at hdone
      exact hcompletes hdone
    obtain ⟨exc, u₁, hcomplete⟩ := run_of_not_returns hfails
    have hsettles : Settles (· = job.filename ++ ".sha256") u₀ u₁ :=
      settles_complete.keeps_of_run hcomplete
    have hrun : job.body.run v = (.error exc, u₁) := by
      rw [hbody, Job.finish, run_bind_of_error hcomplete]
    have harchive : Own job.me job.filename u₁ :=
      (hsettles.own_iff sidecarName_ne.symm).mpr harchived.made
    have hguarded : ∃ e t, job.guarded.run v = (.error e, t) := by
      apply run_of_not_returns
      intro hreturns
      obtain ⟨a, t, hok⟩ := hreturns.run
      rw [Job.guarded, run_tryExcept_of_error hrun] at hok
      have hraises : Respects (fun _ _ : World => True) (fun _ => False) (job.fail exc) :=
        respects_fail (fun _ => trivial) (fun _ => trivial) (fun _ _ => trivial)
          (fun _ _ _ => trivial) (fun _ _ => trivial)
      exact hraises.returned hok
    obtain ⟨e, t, herror⟩ := hguarded
    exact ⟨e, t, herror, not_tells_of_archive harchive hrun herror⟩

end Courses

end Phases

/-! ## Around the lock -/

section Lock

variable {me : ℕ} {filename : String} {w : World}

/-- What a run changes while it has the lock. -/
structure Moves (w w' : World) : Prop where
  added : ∃ actions, Adds actions w w'
  rest : w' = { w with
    disk := w'.disk
    identity := w'.identity
    current := w'.current
    state := w'.state
    record := w'.record
    events := w'.events }

instance : IsPreorder World Moves where
  refl _ := ⟨⟨[], adds_of_events rfl⟩, rfl⟩
  trans _ _ _ h h' := ⟨by
    obtain ⟨actions, hadds⟩ := h.added
    obtain ⟨actions', hadds'⟩ := h'.added
    exact ⟨actions ++ actions', hadds.trans hadds'⟩, by
    rw [h'.rest, h.rest]⟩

theorem moves_refl (w : World) : Moves w w := refl_of Moves w

theorem moves_addEvent (w : World) (i : ℕ) (e : Event) : Moves w (w.addEvent i e) := by
  unfold World.addEvent
  split_ifs
  · exact moves_refl w
  · exact ⟨⟨[e.action], [e], rfl, rfl⟩, rfl⟩

theorem moves_disk (w : World) (f : Disk → Disk) : Moves w (w.setDisk f) :=
  ⟨⟨[], adds_of_events rfl⟩, rfl⟩

theorem moves_guarded {job : Job} : Respects Moves (fun _ => True) job.guarded := by
  have hrecord : ∀ (w : World) state r,
      Moves w (w.save job.me state (Record.setRecordOf job.me r)) :=
    fun _ _ _ => ⟨⟨[], adds_of_events rfl⟩, rfl⟩
  have hread : ∀ (w : World) seen, Moves w (w.setCurrent job.me seen) :=
    fun _ _ => ⟨⟨[], adds_of_events rfl⟩, rfl⟩
  apply respects_tryExcept
  · apply respects_bind (respects_prepare moves_refl
      (fun _ _ => ⟨⟨[], adds_of_events rfl⟩, rfl⟩))
    intro _ _
    apply respects_bind
      (respects_stream moves_refl (fun w => moves_disk w _) (fun w _ => moves_disk w _))
    intro _ _
    apply respects_bind (respects_withFile moves_refl (fun w _ _ => moves_disk w _))
    intro _ _
    apply respects_bind (respects_complete moves_refl (fun w _ => moves_disk w _) hread hrecord
      (fun w e => moves_addEvent w job.me e))
    intro result _
    apply respects_bind (respects_retain moves_refl (fun w _ => moves_disk w _)
      (fun w e _ => moves_addEvent w job.me e))
    intro _ _
    exact respects_pure trivial
  · intro exc
    exact (respects_fail moves_refl (fun w => moves_disk w _) hread hrecord
      (fun w e => moves_addEvent w job.me e)).mono (fun _ _ h => h) (fun _ _ => trivial)

/-- What letting go of the lock changes. -/
structure LetsGo (w w' : World) : Prop where
  recordOf : w'.record.recordOf = w.record.recordOf
  rest : w' = { w with lock := w'.lock, record := w'.record }

instance : IsPreorder World LetsGo where
  refl _ := ⟨rfl, rfl⟩
  trans _ _ _ h h' := ⟨h'.recordOf.trans h.recordOf, by rw [h'.rest, h.rest]⟩

theorem letsGo_letGo (w : World) (use : Use) (i : ℕ) : LetsGo w (w.letGo use i) := by
  unfold World.letGo
  split_ifs
  · exact ⟨rfl, rfl⟩
  · exact refl_of LetsGo w

/-- What `_exclusive_lock` does in the end. -/
def unlock (me : ℕ) : Task Unit := Prog.tryFinally (release me .run) (closeLock me .run)

theorem letsGo_unlock : Respects LetsGo (fun _ => True) (unlock me) :=
  respects_tryFinally
    (respects_release (fun w => refl_of LetsGo w) (fun w => letsGo_letGo w .run me))
    (respects_closeLock (fun w => letsGo_letGo w .run me))

theorem LetsGo.story_congr {w₀ w w' : World} {returned : Prop} (h : LetsGo w w') :
    Story me filename returned w₀ w' ↔ Story me filename returned w₀ w := by
  have hrows : ∀ action, rows action w₀ w' = rows action w₀ w := by
    intro action
    rw [h.rest]
    rfl
  have hsays : Says me .success w' ↔ Says me .success w := by
    rw [Says, h.recordOf, h.rest]
    rfl
  have hown : ∀ name, Own me name w' ↔ Own me name w := by
    intro name
    rw [h.rest]
    rfl
  have hstaging : w'.staging = w.staging := by rw [h.rest]
  constructor
  · intro hstory
    refine ⟨?_, ?_, ?_, ?_, ?_⟩
    · simpa only [hrows] using hstory.outcome
    · simpa only [hrows, hsays] using hstory.status
    · simpa only [hown] using hstory.archive
    · simpa only [hstaging] using hstory.staging
    · simpa only [hown] using hstory.partialFile
  · intro hstory
    refine ⟨?_, ?_, ?_, ?_, ?_⟩
    · simpa only [hrows] using hstory.outcome
    · simpa only [hrows, hsays] using hstory.status
    · simpa only [hown] using hstory.archive
    · simpa only [hstaging] using hstory.staging
    · simpa only [hown] using hstory.partialFile

theorem run_closeLock {use : Use} : (closeLock me use).run w =
    match w.fault me (.closeLock use) with
    | some f => (.error (.other f.name f.text), w.letGo use me)
    | none => (.ok (), w.letGo use me) := rfl

theorem returns_unlock : Returns (unlock me) w ↔ Unlocks me w := by
  have hclose : ∀ v, Returns (closeLock me .run) v ↔ v.fault me (.closeLock .run) = none := by
    intro v
    rw [Returns, run_closeLock]
    cases v.fault me (.closeLock .run) <;> simp
  cases hrelease : (release me .run).run w with
  | mk result v =>
      have hletsGo : LetsGo w v := (respects_release (fun w => refl_of LetsGo w)
        (fun w => letsGo_letGo w .run me)).keeps_of_run hrelease
      have hreturns : Returns (release me .run) w ↔ w.fault me (.unlock .run) = none :=
        returns_attempt
      rw [unlock, (run_tryFinally _ hrelease).2, hclose, Unlocks, ← hreturns, Returns, hrelease,
        hletsGo.rest]

end Lock

/-! ## The whole run -/

section Run

variable {me : ℕ} {actor : String} {ip : Option String} {job : Job} {w v : World}

theorem not_story_of_staging {filename : String} {returned : Prop} (h : me ∈ v.staging) :
    ¬ Story me filename returned w v := fun hstory => hstory.staging h

theorem run_acquire {use : Use} : (acquire me use).run w =
    match w.fault me (.flock use), w.lock with
    | some f, _ => (.error (.other f.name f.text), w)
    | none, none => (.ok (), w.enter use me)
    | none, some holder => (.error .alreadyRunning, w.refuse me holder) := rfl

/-- There is nothing to tell of a run that has done nothing. -/
theorem story_unchanged {filename : String} {returned : Prop} (hnew : NewRun me w) :
    Story me filename returned w w := by
  have hrows : ∀ action, rows action w w = 0 := fun action => (adds_of_events rfl).rows action
  have hown : ∀ name, ¬ Own me name w := by
    rintro name ⟨entry, hentry, hmine⟩
    exact (hnew.files name entry hentry).1 hmine
  refine ⟨?_, ?_, fun _ => hown filename, hnew.staging, hown _⟩
  · rw [hrows "backup.started"]
    exact fun hnone => absurd hnone (lt_irrefl 0)
  · rw [hrows "backup.completed"]
    apply iff_of_false
    · rintro ⟨r, -, hof, -⟩
      rw [hnew.record] at hof
      cases hof
    · exact fun hboth => lt_irrefl 0 hboth.1

/-- A run with the lock says that it runs and does its work. -/
theorem run_started (hrows : ∀ action, v.lostRow job.me action = false)
    (hflock : v.fault job.me (.flock .run) = none) (hlock : v.lock = none)
    (hwrite : CanWrite job.me .running v) :
    ∃ u, (acquire job.me .run >>= fun _ => job.locked).run v =
        (tryFinally job.guarded (removeStaging job.me)).run u ∧
      Adds ["backup.started"] v u ∧
      u = { v with
        lock := u.lock
        current := u.current
        state := u.state
        record := u.record
        events := u.events } := by
  have hacquire : (acquire job.me .run).run v = (.ok (), v.enter .run job.me) := by
    rw [run_acquire, hflock, hlock]
  obtain ⟨current, state, -, hwritten⟩ := run_writeLastRun
    (w := v.enter .run job.me) (r := job.lastRun none .running none) hwrite
  let u₀ := { v.enter .run job.me with
    current := current
    state := state
    record := (v.enter .run job.me).record.setRecordOf job.me (job.lastRun none .running none) }
  have hversion : (ask World.version).run u₀ = (.ok v.version, u₀) := rfl
  let started := job.event "backup.started" (runId job.me)
    [("filename", .text job.filename), ("fasttak_version", .text v.version)]
  have hstarted : (recordEvent job.me started).run u₀ = (.ok (), u₀.addEvent job.me started) :=
    rfl
  have hlost : ∀ action, u₀.lostRow job.me action = false := hrows
  have hadds : Adds [started.action] u₀ (u₀.addEvent job.me started) := adds_addEvent hlost _
  refine ⟨u₀.addEvent job.me started, ?_, hadds, ?_⟩
  · rw [run_bind_of_ok hacquire, Job.locked, run_bind_of_ok hwritten, run_bind_of_ok hversion,
      run_bind_of_ok hstarted]
    rfl
  · unfold World.addEvent
    rw [hlost]
    rfl

theorem run_removeStaging : (removeStaging me).run w =
    (.ok (), if w.staysBehind me then w
      else { w with staging := w.staging.filter (· ≠ me) }) := rfl

/-- Once the staging directory is gone, the story is the one told under the lock. -/
theorem story_removeStaging {returned : Prop} {u : World} (hstarted : Adds ["backup.started"] w v)
    (hmoves : Moves v u) (filename : String) :
    Story me filename returned w { u with staging := u.staging.filter (· ≠ me) } ↔
      Tells me filename returned v u := by
  obtain ⟨actions, hadds⟩ := hmoves.added
  have hrows : ∀ action, action ≠ "backup.started" → rows action w u = rows action v u := by
    intro action haction
    rw [(hstarted.trans hadds).rows, hadds.rows, List.singleton_append,
      List.count_cons_of_ne haction.symm]
  have hstart : 0 < rows "backup.started" w u := by
    rw [(hstarted.trans hadds).rows]
    exact List.count_pos_iff.mpr (List.mem_append_left _ (List.mem_singleton.mpr rfl))
  have hcompleted := hrows "backup.completed" (by decide)
  have hfailed := hrows "backup.failed" (by decide)
  constructor
  · intro hstory
    refine ⟨?_, ?_, hstory.archive, hstory.partialFile⟩
    · rw [← hcompleted, ← hfailed]
      exact hstory.outcome hstart
    · rw [← hcompleted]
      exact hstory.status
  · intro htells
    refine ⟨fun _ => ?_, ?_, htells.archive, ?_, htells.partialFile⟩
    · have houtcome := htells.outcome
      rw [← hcompleted, ← hfailed] at houtcome
      exact houtcome
    · have hstatus := htells.status
      rw [← hcompleted] at hstatus
      exact hstatus
    · exact fun hmem => of_decide_eq_true (List.mem_filter.mp hmem).2 rfl

/-- A run that does not get the lock, or cannot say that it has, leaves its staging directory
as it is. -/
theorem staging_not_started (h : ¬ (v.fault job.me (.flock .run) = none ∧ v.lock = none ∧
    CanWrite job.me .running v)) :
    ((acquire job.me .run >>= fun _ => job.locked).run v).2.staging = v.staging := by
  cases hflock : v.fault job.me (.flock .run) with
  | some f =>
      have hacquire : (acquire job.me .run).run v = (.error (.other f.name f.text), v) := by
        rw [run_acquire, hflock]
      rw [run_bind_of_error hacquire]
  | none =>
      cases hlock : v.lock with
      | some holder =>
          have hacquire : (acquire job.me .run).run v =
              (.error .alreadyRunning, v.refuse job.me holder) := by
            rw [run_acquire, hflock, hlock]
          rw [run_bind_of_error hacquire]
          rfl
      | none =>
          have hacquire : (acquire job.me .run).run v = (.ok (), v.enter .run job.me) := by
            rw [run_acquire, hflock, hlock]
          have hwrite : ¬ CanWrite job.me .running (v.enter .run job.me) :=
            fun hwrite => h ⟨hflock, hlock, hwrite⟩
          obtain ⟨e, current, hrun⟩ := run_writeLastRun_error
            (r := job.lastRun none .running none) hwrite
          rw [run_bind_of_ok hacquire, Job.locked, run_bind_of_error hrun]
          rfl

/-- When the story under the lock is told. -/
theorem tells_iff (hrows : ∀ action, v.lostRow job.me action = false)
    (hlast : job.filename.toList.getLast? = some 'e')
    (hfiles : ∀ name, ∀ entry ∈ v.disk.lookup name,
      entry.run ≠ job.me ∧ job.me ∉ entry.writers)
    {r : Except Exn BackupResult} {u : World} (hguarded : job.guarded.run v = (r, u))
    (unlocks : Prop) :
    Tells job.me job.filename ((∃ made, r = .ok made) ∧ unlocks) v u ↔
      Works job.me v ∧ Completes job.me v ∧ Retains job.me job.filename v ∧ unlocks ∨
        ¬ Works job.me v ∧ RecordsFailure job.me v := by
  have hraised : ∀ {e : Exn}, r = .error e → (((∃ made, r = .ok made) ∧ unlocks) ↔ False) := by
    rintro e rfl
    apply iff_of_false _ not_false
    rintro ⟨⟨made, hmade⟩, -⟩
    cases hmade
  by_cases hworks : Works job.me v
  · by_cases hlate : Completes job.me v ∧ Retains job.me job.filename v
    · obtain ⟨made, u', hrun, hsays, htells⟩ :=
        tells_success hrows hlast hfiles hworks hlate.1 hlate.2
      rw [hguarded] at hrun
      cases hrun
      have hreturned : ((∃ made', (Except.ok made : Except Exn BackupResult) = .ok made') ∧
          unlocks) ↔ unlocks := and_iff_right ⟨made, rfl⟩
      rw [hreturned]
      constructor
      · exact fun h => Or.inl ⟨hworks, hlate.1, hlate.2, (h.status.mp hsays).2⟩
      · rintro (⟨-, -, -, hunlocks⟩ | ⟨hnot, -⟩)
        · rwa [iff_true_intro hunlocks]
        · exact absurd hworks hnot
    · obtain ⟨e, u', hrun, hnot⟩ := not_tells_late_failure hrows hlast hfiles hworks hlate
      rw [hguarded] at hrun
      cases hrun
      rw [hraised rfl]
      apply iff_of_false hnot
      rintro (⟨-, hcompletes, hretains, -⟩ | ⟨hnot, -⟩)
      · exact hlate ⟨hcompletes, hretains⟩
      · exact hnot hworks
  · obtain ⟨e, u', hrun, hiff⟩ := tells_early_failure hrows hfiles hworks
    rw [hguarded] at hrun
    cases hrun
    rw [hraised rfl, hiff]
    constructor
    · exact fun hfailure => Or.inr ⟨hworks, hfailure⟩
    · rintro (⟨hnot, -⟩ | ⟨-, hfailure⟩)
      · exact absurd hnot hworks
      · exact hfailure

theorem moves_run {r : Except Exn BackupResult} {u : World} (h : job.guarded.run v = (r, u)) :
    Moves v u := moves_guarded.keeps_of_run h

/-- The story of a run from where it takes the lock. -/
theorem story_locked_iff (hme : job.me = me) (hnew : NewRun me w)
    (hrows : ∀ action, w.lostRow me action = false)
    (hlast : job.filename.toList.getLast? = some 'e')
    (hdir : w.fault me (.lockDir .run) = none) (hopen : w.fault me (.openLock .run) = none)
    {returned : Prop} {r : Except Exn BackupResult} {u : World}
    (hrun : (acquire me .run >>= fun _ => job.locked).run
      { w with staging := me :: w.staging } = (r, u))
    (hreturned : returned ↔ (∃ made, r = .ok made) ∧ Unlocks me u) :
    Story me job.filename returned w u ↔
      Begins me w ∧ (Works me w ∧ Completes me w ∧ Retains me job.filename w ∧ Unlocks me w ∨
        ¬ Works me w ∧ RecordsFailure me w) := by
  subst hme
  let v := { w with staging := job.me :: w.staging }
  have hmem : job.me ∈ v.staging := List.mem_cons_self
  by_cases hstart : v.fault job.me (.flock .run) = none ∧ v.lock = none ∧
      CanWrite job.me .running v
  · obtain ⟨hflock, hlock, hwrite⟩ := hstart
    obtain ⟨v₁, hlocked, hstarted, hrest⟩ :=
      run_started (v := v) hrows hflock hlock hwrite
    cases hguarded : job.guarded.run v₁ with
    | mk r₁ u₁ =>
        have hmoves : Moves v₁ u₁ := moves_run hguarded
        have hfinally := run_tryFinally (removeStaging job.me) hguarded
        have hstate : u = ((removeStaging job.me).run u₁).2 := by
          rw [← hfinally.1, ← hlocked, hrun]
        have hresult : (∃ made, r = .ok made) ↔ ∃ made, r₁ = .ok made := by
          have hreturns := hfinally.2
          have hremoves : Returns (removeStaging job.me) u₁ := ⟨(), rfl⟩
          rw [and_iff_left hremoves, Returns, ← hlocked, hrun] at hreturns
          exact hreturns
        have hstays : u₁.staysBehind = w.staysBehind := by rw [hmoves.rest, hrest]
        rw [run_removeStaging] at hstate
        dsimp only at hstate
        by_cases hbehind : w.staysBehind job.me = true
        · rw [if_pos (by rw [hstays]; exact hbehind)] at hstate
          have hstaging : u.staging = v.staging := by rw [hstate, hmoves.rest, hrest]
          apply iff_of_false (not_story_of_staging (by rw [hstaging]; exact hmem))
          intro hboth
          rw [hboth.1.2.2.2.2.2] at hbehind
          cases hbehind
        · rw [if_neg (by rw [hstays]; exact hbehind)] at hstate
          have hunlocks : Unlocks job.me u ↔ Unlocks job.me w := by
            rw [hstate, hmoves.rest, hrest]
            rfl
          have hbegins : Begins job.me w :=
            ⟨hdir, hopen, hflock, hlock, hwrite, Bool.eq_false_of_not_eq_true hbehind⟩
          have htells := tells_iff (v := v₁) (by rw [hrest]; exact hrows) hlast (by
            rw [hrest]
            exact fun name entry hentry => hnew.files name entry hentry) hguarded
              (Unlocks job.me w)
          have hstory : Story job.me job.filename returned w u ↔
              Tells job.me job.filename returned v₁ u₁ := by
            rw [hstate]
            have hstarted' : Adds ["backup.started"] w v₁ := hstarted
            exact story_removeStaging hstarted' hmoves job.filename
          rw [hstory, hreturned, hresult, hunlocks, htells, and_iff_right hbegins, hrest]
          exact Iff.rfl
  · have hstaging := staging_not_started hstart
    rw [hrun] at hstaging
    apply iff_of_false (not_story_of_staging (by rw [hstaging]; exact hmem))
    exact fun hboth => hstart ⟨hboth.1.2.2.1, hboth.1.2.2.2.1, hboth.1.2.2.2.2.1⟩

/-- The story of a run from its staging directory on. -/
theorem story_exclusiveLock (hme : job.me = me) (hnew : NewRun me w)
    (hrows : ∀ action, w.lostRow me action = false)
    (hlast : job.filename.toList.getLast? = some 'e') :
    Story me job.filename
        (Returns (exclusiveLock me job.locked) { w with staging := me :: w.staging }) w
        ((exclusiveLock me job.locked).run { w with staging := me :: w.staging }).2 ↔
      Begins me w ∧ (Works me w ∧ Completes me w ∧ Retains me job.filename w ∧ Unlocks me w ∨
        ¬ Works me w ∧ RecordsFailure me w) := by
  let v := { w with staging := me :: w.staging }
  have hmem : me ∈ v.staging := List.mem_cons_self
  cases hdir : w.fault me (.lockDir .run) with
  | some f =>
      have hfails : (attempt me (.lockDir .run) id).run v = (.error (.other f.name f.text), v) := by
        have hfault : v.fault me (.lockDir .run) = some f := hdir
        rw [run_attempt, hfault]
      apply iff_of_false
      · rw [exclusiveLock, run_bind_of_error hfails]
        exact not_story_of_staging hmem
      · intro hboth
        have hnone := hboth.1.1
        rw [hdir] at hnone
        cases hnone
  | none =>
      have hlockDir : (attempt me (.lockDir .run) id).run v = (.ok (), v) := run_attempt_ok hdir
      cases hopen : w.fault me (.openLock .run) with
      | some f =>
          have hfails : (attempt me (.openLock .run) id).run v =
              (.error (.other f.name f.text), v) := by
            have hfault : v.fault me (.openLock .run) = some f := hopen
            rw [run_attempt, hfault]
          apply iff_of_false
          · rw [exclusiveLock, run_bind_of_ok hlockDir, run_bind_of_error hfails]
            exact not_story_of_staging hmem
          · intro hboth
            have hnone := hboth.1.2.1
            rw [hopen] at hnone
            cases hnone
      | none =>
          have hopenLock : (attempt me (.openLock .run) id).run v = (.ok (), v) :=
            run_attempt_ok hopen
          cases hinner : (acquire me .run >>= fun _ => job.locked).run v with
          | mk r u =>
              have hfinally := run_tryFinally (unlock me) hinner
              have hletsGo : LetsGo u ((unlock me).run u).2 := letsGo_unlock.keeps u
              have hrun : (exclusiveLock me job.locked).run v =
                  (tryFinally (acquire me .run >>= fun _ => job.locked) (unlock me)).run v := by
                rw [exclusiveLock, run_bind_of_ok hlockDir, run_bind_of_ok hopenLock]
                rfl
              rw [Returns, hrun, hfinally.1, hletsGo.story_congr]
              apply story_locked_iff hme hnew hrows hlast hdir hopen hinner
              rw [← returns_unlock]
              exact hfinally.2

/-- A run tells one consistent story exactly when its failures come at the right time. -/
theorem story_iff (hnew : NewRun me w) (hrows : ∀ action, w.lostRow me action = false) :
    Story me (archiveName w.clock w.version) (Returns (run me actor ip) w) w
        ((run me actor ip).run w).2 ↔
      FailsInTime me (archiveName w.clock w.version) w := by
  have hunchanged : ∀ {e : Exn}, (run me actor ip).run w = (.error e, w) →
      Story me (archiveName w.clock w.version) (Returns (run me actor ip) w) w
        ((run me actor ip).run w).2 := by
    intro e hrun
    rw [hrun]
    exact story_unchanged hnew
  cases hdirFault : w.fault me .backupDir with
  | some f =>
      have hfails : (attempt me .backupDir id).run w = (.error (.other f.name f.text), w) := by
        rw [run_attempt, hdirFault]
      have hin : FailsInTime me (archiveName w.clock w.version) w :=
        Or.inl (by rw [hdirFault]; exact Option.some_ne_none f)
      exact iff_of_true (hunchanged (run_bind_of_error hfails)) hin
  | none =>
      have hbackupDir : (attempt me .backupDir id).run w = (.ok (), w) := run_attempt_ok hdirFault
      have hclock : (ask World.clock).run w = (.ok w.clock, w) := rfl
      have hversion : (ask World.version).run w = (.ok w.version, w) := rfl
      cases htempFault : w.fault me .mkdtemp with
      | some f =>
          have hfails : (attempt me .mkdtemp (fun w => { w with staging := me :: w.staging })).run
              w = (.error (.other f.name f.text), w) := by
            rw [run_attempt, htempFault]
          have hin : FailsInTime me (archiveName w.clock w.version) w :=
            Or.inr (Or.inl (by rw [htempFault]; exact Option.some_ne_none f))
          apply iff_of_true _ hin
          apply hunchanged
          rw [run, run_bind_of_ok hbackupDir, run_bind_of_ok hclock, run_bind_of_ok hversion,
            run_bind_of_error hfails]
      | none =>
          let job : Job := ⟨me, actor, ip, w.clock, archiveName w.clock w.version⟩
          let v := { w with staging := me :: w.staging }
          have hmkdtemp : (attempt me .mkdtemp (fun w => { w with staging := me :: w.staging })).run
              w = (.ok (), v) := run_attempt_ok htempFault
          have hrun : (run me actor ip).run w = (exclusiveLock me job.locked).run v := by
            rw [run, run_bind_of_ok hbackupDir, run_bind_of_ok hclock, run_bind_of_ok hversion,
              run_bind_of_ok hmkdtemp]
          have hcondition : FailsInTime me (archiveName w.clock w.version) w ↔
              Begins me w ∧ (Works me w ∧ Completes me w ∧ Retains me job.filename w ∧
                Unlocks me w ∨ ¬ Works me w ∧ RecordsFailure me w) := by
            unfold FailsInTime
            rw [or_iff_right (by rw [hdirFault]; exact not_not_intro rfl),
              or_iff_right (by rw [htempFault]; exact not_not_intro rfl)]
          have hreturned : Returns (run me actor ip) w ↔
              Returns (exclusiveLock me job.locked) v := by
            rw [Returns, hrun]
            rfl
          rw [hcondition, hreturned, hrun]
          have hlast : job.filename.toList.getLast? = some 'e' :=
            getLast_archiveName w.clock w.version
          exact story_exclusiveLock rfl hnew hrows hlast

end Run

theorem newRun_newDir : NewRun 1 newDir :=
  ⟨List.not_mem_nil, rfl, fun name entry hentry => by
    rw [newDir, AList.lookup_empty] at hentry
    cases hentry⟩

/-- In a new directory the failures come at the right time: there are none. -/
theorem story_newDir :
    Story 1 (archiveName newDir.clock newDir.version) (Returns (run 1 "root" none) newDir) newDir
      ((run 1 "root" none).run newDir).2 := by
  have hbegins : Begins 1 newDir := ⟨rfl, rfl, rfl, rfl, ⟨rfl, rfl⟩, rfl⟩
  have hworks : Works 1 newDir := ⟨fun _ _ => rfl, fun _ _ => rfl, rfl, rfl⟩
  have hretains : Retains 1 (archiveName newDir.clock newDir.version) newDir := by
    refine ⟨14, rfl, fun _ _ => ⟨rfl, fun _ _ _ => rfl⟩, fun _ _ => ⟨rfl, rfl⟩⟩
  exact (story_iff newRun_newDir (fun _ => rfl)).mpr
    (Or.inr (Or.inr ⟨hbegins, Or.inl ⟨hworks, ⟨rfl, rfl, rfl, rfl⟩, hretains, rfl, rfl⟩⟩))

/-- A new directory in which another run has the lock. -/
def busyDir : World := { newDir with lock := some ⟨.run, 9⟩ }

/-- A refused run leaves its staging directory behind. -/
theorem refused_run_leaves_staging :
    NewRun 1 busyDir ∧ (∀ action, busyDir.lostRow 1 action = false) ∧
      ((run 1 "root" none).run busyDir).1 = .error .alreadyRunning ∧
      ¬ Story 1 (archiveName busyDir.clock busyDir.version) (Returns (run 1 "root" none) busyDir)
        busyDir ((run 1 "root" none).run busyDir).2 := by
  refine ⟨⟨List.not_mem_nil, rfl, ?_⟩, fun _ => rfl, by decide +kernel, ?_⟩
  · intro name entry hentry
    rw [busyDir, newDir, AList.lookup_empty] at hentry
    cases hentry
  · have hstaging : 1 ∈ ((run 1 "root" none).run busyDir).2.staging := by decide +kernel
    exact fun hstory => hstory.staging hstaging

-- a retention setting that cannot be read: the run is recorded as completed and as failed
example : (((run 1 "root" none).run { newDir with
    retentionKeep := .error ⟨"ValueError", "BACKUP_RETENTION_KEEP"⟩ }).2.events.map
      Event.action) = ["backup.started", "backup.completed", "backup.failed"] := by
  decide +kernel

end FastTAK.Backup
