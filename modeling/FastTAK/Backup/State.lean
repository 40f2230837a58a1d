import FastTAK.Backup.World

/-!
# The state file and the lock

Every writer of the state file reads the whole of it, changes one field and replaces it.
The lock belongs to a descriptor; runs and the probes of requests take it without waiting.
-/

namespace FastTAK.Backup

open FastTAK.Calendar FastTAK.Effect

/-! ## The state file -/

/-- `DEFAULTS`. -/
def defaults : StateFile := ⟨none, none⟩

/-- `read()`, into the local variable `current`.  A file that cannot be opened or parsed
counts as missing. -/
def readState (me : ℕ) (kind : Writing) : Task Unit :=
  attempt me (.readState kind) fun w =>
    w.setCurrent me (some (kind, if w.unreadable me kind then defaults else w.state))

/-- The state file is replaced. -/
def World.save (me : ℕ) (state : StateFile) (note : Record → Record) (w : World) : World :=
  { w.setCurrent me none with
    state := state
    record := note w.record }

/-- `write(current)` after a change of `current`, with what the record keeps of it. -/
def writeState (me : ℕ) (kind : Writing) (change : StateFile → StateFile)
    (note : Record → Record) : Task Unit :=
  Prog.atomic fun w =>
    match w.fault me (.writeState kind), w.current me with
    | some f, _ => (.error (.other f.name f.text), w.setCurrent me none)
    | none, none => (.ok (), w)
    | none, some (_, current) => (.ok (), w.save me (change current) note)

def setLastRun (r : LastRun) (s : StateFile) : StateFile := { s with lastRun := some r }

def Record.setRecordOf (me : ℕ) (r : LastRun) (record : Record) : Record :=
  { record with recordOf := Function.update record.recordOf me (some r) }

/-- `write_last_run` by a run. -/
def writeLastRun (me : ℕ) (r : LastRun) : Task Unit := do
  readState me (.lastRun r.status)
  writeState me (.lastRun r.status) (setLastRun r) (Record.setRecordOf me r)

def Record.addRefusedRun (me : ℕ) (record : Record) : Record :=
  { record with refusedRuns := me :: record.refusedRuns }

/-- `write_last_run` by a request whose run was refused. -/
def writeRefused (me : ℕ) (r : LastRun) : Task Unit := do
  readState me .refused
  writeState me .refused (setLastRun r) (Record.addRefusedRun me)

def Record.setDownloaded (record : Record) : Record := { record with downloaded := true }

def markKeyDownloaded (me : ℕ) : Task Unit := do
  readState me .download
  let now ← ask World.clock
  writeState me .download (fun s => { s with keyDownloadedAt := some now }) Record.setDownloaded

/-! ## The lock -/

namespace World

/-- A process has the lock now. -/
def enter (use : Use) (me : ℕ) (w : World) : World :=
  { w with
    lock := some ⟨use, me⟩
    record :=
      match use with
      | .probe => w.record
      | .run =>
          { w.record with
            inside := me :: w.record.inside
            lastHolder := some me
            recordOf := Function.update w.record.recordOf me none } }

/-- A process lets go of the lock, if it has it. -/
def letGo (use : Use) (me : ℕ) (w : World) : World :=
  if w.lock = some ⟨use, me⟩ then
    { w with
      lock := none
      record := { w.record with inside := w.record.inside.filter (· ≠ me) } }
  else w

def refuse (me : ℕ) (holder : Holder) (w : World) : World :=
  { w with record := { w.record with refusals := (me, holder) :: w.record.refusals } }

end World

/-- `fcntl.flock(fd, LOCK_EX | LOCK_NB)`. -/
def acquire (me : ℕ) (use : Use) : Task Unit :=
  Prog.atomic fun w =>
    match w.fault me (.flock use), w.lock with
    | some f, _ => (.error (.other f.name f.text), w)
    | none, none => (.ok (), w.enter use me)
    | none, some holder => (.error .alreadyRunning, w.refuse me holder)

/-- `fcntl.flock(fd, LOCK_UN)`. -/
def release (me : ℕ) (use : Use) : Task Unit :=
  attempt me (.unlock use) (World.letGo use me)

/-- `os.close(fd)`, which lets go of the lock even where it reports an error. -/
def closeLock (me : ℕ) (use : Use) : Task Unit :=
  Prog.atomic fun w =>
    match w.fault me (.closeLock use) with
    | some f => (.error (.other f.name f.text), w.letGo use me)
    | none => (.ok (), w.letGo use me)

/-- `with _exclusive_lock(path): body`. -/
def exclusiveLock {α : Type} (me : ℕ) (body : Task α) : Task α := do
  attempt me (.lockDir .run) id
  attempt me (.openLock .run) id
  Prog.tryFinally (do
      acquire me .run
      body)
    (Prog.tryFinally (release me .run) (closeLock me .run))

/-- `run_backup_preflight`. -/
def runBackupPreflight (me : ℕ) : Task Unit := do
  attempt me (.lockDir .probe) id
  attempt me (.openLock .probe) id
  Prog.tryFinally (do
      acquire me .probe
      release me .probe)
    (closeLock me .probe)

/-! ## Rules -/

section Rules

variable {guar : World → World → Prop} {me : ℕ}

theorem respects_readState {kind : Writing} (hsame : ∀ w, guar w w)
    (hread : ∀ w seen, guar w (w.setCurrent me seen)) :
    Prog.Respects guar (fun _ => True) (readState me kind) :=
  respects_attempt hsame (fun w => hread w _)

theorem respects_writeState {kind : Writing} {change : StateFile → StateFile}
    {note : Record → Record} (hsame : ∀ w, guar w w)
    (hread : ∀ w seen, guar w (w.setCurrent me seen))
    (hsave : ∀ w state, guar w (w.save me state note)) :
    Prog.Respects guar (fun _ => True) (writeState me kind change note) := by
  apply Prog.respects_atomic
  intro w
  refine ⟨?_, fun _ _ => trivial⟩
  cases w.fault me (.writeState kind) with
  | some f => exact hread w none
  | none =>
      cases w.current me with
      | none => exact hsame w
      | some current => exact hsave w _

theorem respects_writeLastRun {r : LastRun} (hsame : ∀ w, guar w w)
    (hread : ∀ w seen, guar w (w.setCurrent me seen))
    (hsave : ∀ w state, guar w (w.save me state (Record.setRecordOf me r))) :
    Prog.Respects guar (fun _ => True) (writeLastRun me r) :=
  Prog.respects_bind (respects_readState hsame hread)
    (fun _ _ => respects_writeState hsame hread hsave)

theorem respects_release {use : Use} (hsame : ∀ w, guar w w)
    (hletGo : ∀ w, guar w (w.letGo use me)) :
    Prog.Respects guar (fun _ => True) (release me use) :=
  respects_attempt hsame hletGo

theorem respects_closeLock {use : Use} (hletGo : ∀ w, guar w (w.letGo use me)) :
    Prog.Respects guar (fun _ => True) (closeLock me use) := by
  apply Prog.respects_atomic
  intro w
  refine ⟨?_, fun _ _ => trivial⟩
  cases w.fault me (.closeLock use) with
  | some f => exact hletGo w
  | none => exact hletGo w

theorem respects_acquire {use : Use} (hsame : ∀ w, guar w w)
    (henter : ∀ w, w.lock = none → guar w (w.enter use me))
    (hrefuse : ∀ w holder, w.lock = some holder → guar w (w.refuse me holder)) :
    Prog.Respects guar (fun _ => True) (acquire me use) := by
  apply Prog.respects_atomic
  intro w
  refine ⟨?_, fun _ _ => trivial⟩
  cases w.fault me (.flock use) with
  | some f => exact hsame w
  | none =>
      cases hlock : w.lock with
      | none => exact henter w hlock
      | some holder => exact hrefuse w holder hlock

end Rules

end FastTAK.Backup
