import FastTAK.Backup.Retention
import FastTAK.Backup.State

/-!
# A run

A run streams an encrypted archive into a partial file, renames it, records its success and
prunes older archives; what it does on failure depends on how far it came.
-/

namespace FastTAK.Backup

open FastTAK.Calendar FastTAK.Effect

/-! ## The pipeline -/

/-- The pipeline of a process opens its output file, which it truncates.  A file that
another pipeline still has open is then written by both. -/
def openOutput (me : ℕ) (name : String) (w : World) : World :=
  let others := ((w.disk.lookup name).map Entry.writers).getD []
  w.setDisk (AList.insert name
    ⟨if others = [] then .unfinished else .mixed, me :: others, me, 0, w.clock.seconds, none⟩)

/-- The pipeline closes its output.  Without exit statuses `age` never ran. -/
def closeOutput (me : ℕ) (exits : Option Exits) (size : ℕ) (now : ℤ) (entry : Entry) :
    Entry :=
  if me ∈ entry.writers then
    match exits with
    | none => { entry with writers := entry.writers.filter (· ≠ me) }
    | some exits =>
        { entry with
          content := if entry.content = .mixed then .mixed else .output exits
          writers := entry.writers.filter (· ≠ me)
          size := size
          mtime := now }
  else entry

/-- The pipeline of a process ends, wherever its output file is by now. -/
def endPipeline (me : ℕ) (exits : Option Exits) (w : World) : World :=
  w.setDisk (mapFiles (closeOutput me exits (w.size me) w.clock.seconds))

/-- The processes of the pipeline, which ends when `age` does. -/
def runAge (me : ℕ) : Task Exits :=
  Prog.atomic fun w =>
    match w.fault me .runAge with
    | some f => (.error (.other f.name f.text), endPipeline me none w)
    | none => (.ok (w.exits me), endPipeline me (some (w.exits me)) w)

/-- `_stream_encrypted_archive`.  `age` is waited for first, then the others. -/
def streamEncryptedArchive (me : ℕ) (out : String) : Task Unit := do
  attempt me .popenTar id
  attempt me .popenGzip id
  attempt me .openArchive (openOutput me out)
  let exits ← runAge me
  if exits.age ≠ 0 then
    Prog.raise (.other "RuntimeError" "age failed")
  else if exits.tar ≠ 0 then
    Prog.raise (.other "RuntimeError" "tar (staging) failed")
  else if exits.gzip ≠ 0 then
    Prog.raise (.other "RuntimeError" "gzip failed")
  else pure ()

/-! ## A run -/

structure BackupResult where
  filename : String
  sizeBytes : ℕ
deriving DecidableEq

def databases : List String := ["cot", "lldap", "nodered", "fastak"]

/-- The components of every archive. -/
def componentNames : List String :=
  ["postgres/cot.sql", "postgres/lldap.sql", "postgres/nodered.sql", "postgres/fastak.sql",
    "tak-certs.tar", "tak-config.tar", "nodered-data.tar", "env"]

/-- `_populate_staging`. -/
def populateStaging (me : ℕ) : Task Unit := do
  attempt me .makePostgresDir id
  attempt me .writeManifest id
  Prog.forList (fun db => attempt me (.dump db) id) databases
  attempt me .tarCerts id
  attempt me .tarConfig id
  attempt me .tarNodered id
  attempt me .copyEnv id

/-- `os.replace(partial_path, final_path)`. -/
def replaceFile (me : ℕ) (source target : String) : Task Unit :=
  withFile me .replace source fun entry =>
    World.setDisk (fun disk => (disk.erase source).insert target entry)

/-- A sidecar is written. -/
def World.setSidecar (me : ℕ) (archive : String) (attests : Option (ℕ × String))
    (w : World) : World :=
  w.setDisk (AList.insert (archive ++ ".sha256") ⟨.other, [], me, 0, w.clock.seconds, attests⟩)

/-- `_write_sha256_sidecar`. -/
def writeSidecar (me : ℕ) (archive : String) : Task Unit :=
  Prog.atomic fun w =>
    match w.fault me .sidecar, w.disk.lookup archive with
    | some f, some _ =>
        (.error (.other f.name f.text),
          if w.empties me then w.setSidecar me archive none else w)
    | some f, none => (.error (.other f.name f.text), w)
    | none, none => (.error (.other "FileNotFoundError" archive), w)
    | none, some entry => (.ok (), w.setSidecar me archive (some (entry.run, archive)))

/-- `final_path.stat().st_size`. -/
def statSize (me : ℕ) (archive : String) : Task ℕ := do
  withFile me .stat archive (fun _ => id)
  ask (fun w => ((w.disk.lookup archive).map Entry.size).getD 0)

/-- `_cleanup_partial`. -/
def cleanupPartial (me : ℕ) (out : String) : Task Unit :=
  Prog.discard (ifFile me .unlinkPartial out (World.setDisk (AList.erase out)))

/-- `shutil.rmtree(staging, ignore_errors=True)`. -/
def removeStaging (me : ℕ) : Task Unit :=
  Prog.atomic (Call.modify fun w =>
    if w.staysBehind me then w else { w with staging := w.staging.filter (· ≠ me) })

/-- The digits that name a run; different runs have different ones. -/
def runId (me : ℕ) : String := toString me

def backupEvent (actor : String) (ip : Option String) (action targetId : String)
    (detail : List (String × Datum)) : Event :=
  ⟨actor, action, "backup", targetId, detail, ip⟩

/-- Who asked for a run, and the name and time it has. -/
structure Job where
  me : ℕ
  actor : String
  ip : Option String
  startedAt : DateTime
  filename : String

def Job.partialName (job : Job) : String := job.filename ++ ".partial"

def Job.lastRun (job : Job) (finishedAt : Option DateTime) (status : RunStatus)
    (error : Option String) : LastRun :=
  ⟨job.startedAt, finishedAt, status, job.filename, error⟩

def Job.event (job : Job) : String → String → List (String × Datum) → Event :=
  backupEvent job.actor job.ip

/-- The work of a run before its archive. -/
def Job.prepare (job : Job) : Task Unit := do
  attempt job.me .loadKey (fun w =>
    { w with identity := some (w.identity.getD (w.keygen job.me)) })
  attempt job.me .postgresVersions id
  attempt job.me .manifest id
  populateStaging job.me

/-- The success record of a run. -/
def Job.complete (job : Job) : Task BackupResult := do
  writeSidecar job.me job.filename
  let sizeBytes ← statSize job.me job.filename
  let finishedAt ← ask World.clock
  writeLastRun job.me (job.lastRun (some finishedAt) .success none)
  recordEvent job.me (job.event "backup.completed" job.filename
    [("size_bytes", .number sizeBytes), ("components", .texts componentNames)])
  return ⟨job.filename, sizeBytes⟩

/-- `retention_keep()`. -/
def retentionKeep : Task ℕ+ :=
  Prog.atomic fun w =>
    match w.retentionKeep with
    | .ok keep => (.ok keep, w)
    | .error f => (.error (.other f.name f.text), w)

def Job.retain (job : Job) : Task Unit := do
  let keep ← retentionKeep
  let pruned ← prune job.me (keep : ℕ)
  Prog.forList (fun name => recordEvent job.me
    (job.event "backup.pruned" name [("reason", .text "retention")])) pruned

/-- What stands in the `try` block. -/
def Job.body (job : Job) : Task BackupResult := do
  job.prepare
  streamEncryptedArchive job.me job.partialName
  replaceFile job.me job.partialName job.filename
  let result ← job.complete
  job.retain
  return result

/-- The `except` block. -/
def Job.fail (job : Job) (exc : Exn) : Task BackupResult := do
  cleanupPartial job.me job.partialName
  let finishedAt ← ask World.clock
  writeLastRun job.me (job.lastRun (some finishedAt) .failed (some exc.typeName))
  recordEvent job.me (job.event "backup.failed" (runId job.me)
    [("error", .text s!"{exc.typeName}: {exc.text}")])
  Prog.raise exc

/-- What a run does with the lock. -/
def Job.locked (job : Job) : Task BackupResult := do
  writeLastRun job.me (job.lastRun none .running none)
  let version ← ask World.version
  recordEvent job.me (job.event "backup.started" (runId job.me)
    [("filename", .text job.filename), ("fasttak_version", .text version)])
  Prog.tryFinally (job.body.tryExcept job.fail) (removeStaging job.me)

/-- `run`. -/
def run (me : ℕ) (actor : String) (ip : Option String) : Task BackupResult := do
  attempt me .backupDir id
  let startedAt ← ask World.clock
  let version ← ask World.version
  attempt me .mkdtemp (fun w => { w with staging := me :: w.staging })
  exclusiveLock me
    (Job.locked ⟨me, actor, ip, startedAt, archiveName startedAt version⟩)

/-! ## Rules -/

section Rules

variable {guar : World → World → Prop} {job : Job}

theorem respects_populateStaging {me : ℕ} (hsame : ∀ w, guar w w) :
    Prog.Respects guar (fun _ => True) (populateStaging me) := by
  have hattempt : ∀ step, Prog.Respects guar (fun _ => True) (attempt me step id) :=
    fun step => respects_attempt hsame hsame
  apply Prog.respects_bind (hattempt _)
  intro _ _
  apply Prog.respects_bind (hattempt _)
  intro _ _
  apply Prog.respects_bind (Prog.respects_forList databases (fun db _ => hattempt _))
  intro _ _
  apply Prog.respects_bind (hattempt _)
  intro _ _
  apply Prog.respects_bind (hattempt _)
  intro _ _
  apply Prog.respects_bind (hattempt _)
  intro _ _
  exact hattempt _

theorem respects_prepare (hsame : ∀ w, guar w w)
    (hlearn : ∀ w identity, guar w { w with identity := identity }) :
    Prog.Respects guar (fun _ => True) job.prepare := by
  apply Prog.respects_bind (respects_attempt hsame (fun w => hlearn w _))
  intro _ _
  apply Prog.respects_bind (respects_attempt hsame hsame)
  intro _ _
  apply Prog.respects_bind (respects_attempt hsame hsame)
  intro _ _
  exact respects_populateStaging hsame

theorem respects_runAge {me : ℕ} (hend : ∀ w exits, guar w (endPipeline me exits w)) :
    Prog.Respects guar (fun _ => True) (runAge me) := by
  apply Prog.respects_atomic
  intro w
  refine ⟨?_, fun _ _ => trivial⟩
  cases w.fault me .runAge with
  | some f => exact hend w none
  | none => exact hend w _

theorem respects_stream {me : ℕ} {out : String} (hsame : ∀ w, guar w w)
    (hopen : ∀ w, guar w (openOutput me out w))
    (hend : ∀ w exits, guar w (endPipeline me exits w)) :
    Prog.Respects guar (fun _ => True) (streamEncryptedArchive me out) := by
  apply Prog.respects_bind (respects_attempt hsame hsame)
  intro _ _
  apply Prog.respects_bind (respects_attempt hsame hsame)
  intro _ _
  apply Prog.respects_bind (respects_attempt hsame hopen)
  intro _ _
  apply Prog.respects_bind (respects_runAge hend)
  intro exits _
  split_ifs
  · exact Prog.respects_raise _
  · exact Prog.respects_raise _
  · exact Prog.respects_raise _
  · exact Prog.respects_pure trivial

theorem run_writeSidecar (me : ℕ) (archive : String) (w : World) :
    (writeSidecar me archive).run w =
      match w.fault me .sidecar, w.disk.lookup archive with
      | some f, some _ =>
          (.error (.other f.name f.text),
            if w.empties me then w.setSidecar me archive none else w)
      | some f, none => (.error (.other f.name f.text), w)
      | none, none => (.error (.other "FileNotFoundError" archive), w)
      | none, some entry => (.ok (), w.setSidecar me archive (some (entry.run, archive))) := rfl

/-- A sidecar is written, with whatever it says, or nothing is. -/
theorem writeSidecar_effect (me : ℕ) (archive : String) (w : World) :
    ((writeSidecar me archive).run w).2 = w ∨
      ∃ attests, ((writeSidecar me archive).run w).2 = w.setSidecar me archive attests := by
  rw [run_writeSidecar]
  cases w.fault me .sidecar with
  | some f =>
      cases w.disk.lookup archive with
      | none => exact .inl rfl
      | some entry =>
          dsimp only
          split_ifs
          · exact .inr ⟨none, rfl⟩
          · exact .inl rfl
  | none =>
      cases w.disk.lookup archive with
      | none => exact .inl rfl
      | some entry => exact .inr ⟨_, rfl⟩

theorem respects_writeSidecar {me : ℕ} {archive : String} (hsame : ∀ w, guar w w)
    (hsidecar : ∀ w entry, guar w (w.setDisk (AList.insert (archive ++ ".sha256") entry))) :
    Prog.Respects guar (fun _ => True) (writeSidecar me archive) := by
  apply Prog.respects_atomic
  intro w
  refine ⟨?_, fun _ _ => trivial⟩
  change guar w ((writeSidecar me archive).run w).2
  cases writeSidecar_effect me archive w with
  | inl hidle =>
      rw [hidle]
      exact hsame w
  | inr hwritten =>
      obtain ⟨attests, hset⟩ := hwritten
      rw [hset]
      exact hsidecar w _

/-- The record of a run names its archive. -/
theorem respects_complete (hsame : ∀ w, guar w w)
    (hsidecar : ∀ w entry, guar w (w.setDisk (AList.insert (job.filename ++ ".sha256") entry)))
    (hread : ∀ w seen, guar w (w.setCurrent job.me seen))
    (hsave : ∀ w state r, guar w (w.save job.me state (Record.setRecordOf job.me r)))
    (hevent : ∀ w e, guar w (w.addEvent job.me e)) :
    Prog.Respects guar (fun made => made.filename = job.filename) job.complete := by
  have hstat : Prog.Respects guar (fun _ => True) (statSize job.me job.filename) :=
    Prog.respects_bind (respects_withFile hsame (fun w _ _ => hsame w))
      (fun _ _ => respects_ask hsame)
  apply Prog.respects_bind (respects_writeSidecar hsame hsidecar)
  intro _ _
  apply Prog.respects_bind hstat
  intro size _
  apply Prog.respects_bind (respects_ask hsame)
  intro finishedAt _
  apply Prog.respects_bind
    (respects_writeLastRun hsame hread (fun w state => hsave w state _))
  intro _ _
  apply Prog.respects_bind (respects_recordEvent (fun w => hevent w _))
  intro _ _
  exact Prog.respects_pure rfl

theorem respects_retentionKeep (hsame : ∀ w, guar w w) :
    Prog.Respects guar (fun _ => True) retentionKeep := by
  apply Prog.respects_atomic
  intro w
  refine ⟨?_, fun _ _ => trivial⟩
  cases w.retentionKeep with
  | error f => exact hsame w
  | ok keep => exact hsame w

theorem respects_retain (hsame : ∀ w, guar w w)
    (herase : ∀ w name, guar w (w.setDisk (AList.erase name)))
    (hevent : ∀ w e, e.action = "backup.pruned" → guar w (w.addEvent job.me e)) :
    Prog.Respects guar (fun _ => True) job.retain := by
  apply Prog.respects_bind (respects_retentionKeep hsame)
  intro keep _
  apply Prog.respects_bind (respects_prune hsame herase)
  intro pruned _
  apply Prog.respects_forList
  intro name _
  exact respects_recordEvent (fun w => hevent w _ rfl)

/-- A run that failed raises in the end. -/
theorem respects_fail {exc : Exn} (hsame : ∀ w, guar w w)
    (herase : ∀ w, guar w (w.setDisk (AList.erase job.partialName)))
    (hread : ∀ w seen, guar w (w.setCurrent job.me seen))
    (hsave : ∀ w state r, guar w (w.save job.me state (Record.setRecordOf job.me r)))
    (hevent : ∀ w e, guar w (w.addEvent job.me e)) :
    Prog.Respects guar (fun _ => False) (job.fail exc) := by
  apply Prog.respects_bind (Prog.respects_discard (respects_ifFile hsame herase))
  intro _ _
  apply Prog.respects_bind (respects_ask hsame)
  intro finishedAt _
  apply Prog.respects_bind
    (respects_writeLastRun hsame hread (fun w state => hsave w state _))
  intro _ _
  apply Prog.respects_bind (respects_recordEvent (fun w => hevent w _))
  intro _ _
  exact Prog.respects_raise exc

theorem respects_removeStaging {me : ℕ} (hsame : ∀ w, guar w w)
    (hstaging : ∀ w staging, guar w { w with staging := staging }) :
    Prog.Respects guar (fun _ => True) (removeStaging me) := by
  apply Prog.respects_atomic
  intro w
  refine ⟨?_, fun _ _ => trivial⟩
  change guar w (if w.staysBehind me then w else _)
  split_ifs
  · exact hsame w
  · exact hstaging w _

end Rules

end FastTAK.Backup
