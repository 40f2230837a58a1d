import FastTAK.Backup.Runner

/-!
# Requests and commands

What starts a run, a retention pass, a deletion or a download of the key: the backup API,
the dashboard and the command line.
-/

namespace FastTAK.Backup

open FastTAK.Calendar FastTAK.Effect

/-- Who sent a request. -/
structure Caller where
  actor : String
  ip : Option String

/-- `_run_in_thread`. -/
def runInThread (me : ℕ) (caller : Caller) : Task Unit :=
  (Prog.discard (run me caller.actor caller.ip)).tryExcept fun
    | .alreadyRunning => do
        let now ← ask World.clock
        writeRefused me ⟨now, some now, .failed, "", some "BackupAlreadyRunning"⟩
        recordEvent me (backupEvent caller.actor caller.ip "backup.started" (runId me) [])
        recordEvent me (backupEvent caller.actor caller.ip "backup.failed" (runId me)
          [("error", .text "BackupAlreadyRunning"), ("reason", .text "lock_held_at_dispatch")])
    | .other _ _ => pure ()

/-- `trigger_run`.  The background task starts after the answer. -/
def triggerRun (me : ℕ) (caller : Caller) : Task Unit :=
  (do
      runBackupPreflight me
      return true).tryExcept (fun
    | .alreadyRunning => do
        respond me (.conflict Exn.alreadyRunning.text)
        return false
    | exc => Prog.raise exc) >>= fun
    | true => do
        respond me .accepted
        runInThread me caller
    | false => pure ()

/-- `backup_state.read()` for a page. -/
def readPage (me : ℕ) : Task StateFile :=
  Prog.atomic fun w =>
    match w.fault me .readPage with
    | some f => (.error (.other f.name f.text), w)
    | none => (.ok w.state, w)

/-- The page of `backups_run`, and the run behind it. -/
def showPage (me : ℕ) (caller : Caller) (willKick : Bool) : Task Unit := do
  let page ← readPage me
  respond me (.page page.lastRun !willKick)
  if willKick then
    (Prog.discard (run me caller.actor caller.ip)).tryExcept (fun _ => pure ())
  else pure ()

/-- `backups_run` of the dashboard. -/
def backupsRun (me : ℕ) (caller : Caller) : Task Unit :=
  (do
      runBackupPreflight me
      return true).tryExcept (fun
    | .alreadyRunning => return false
    | exc => Prog.raise exc) >>= showPage me caller

/-- `_cmd_run`. -/
def cmdRun (me : ℕ) (actor : String) : Task Unit :=
  (do
      Prog.discard (run me actor none)
      respond me (.exited 0)).tryExcept fun
    | .alreadyRunning => respond me (.exited 2)
    | .other _ _ => respond me (.exited 1)

/-- `_cmd_prune`. -/
def cmdPrune (me : ℕ) : Option ℤ → Task Unit
  | some keep => Prog.discard (prune me keep)
  | none => do
      let keep ← retentionKeep
      Prog.discard (prune me (keep : ℕ))

/-- `[A-Za-z0-9]`. -/
def isWord (c : Char) : Bool := c.isAlpha || c.isDigit

/-- `.*\.\.` matches at the start. -/
def hasDoubleDot : List Char → Bool
  | '.' :: '.' :: _ => true
  | _ :: rest => hasDoubleDot rest
  | [] => false

/-- `_FILENAME_RE` on a name.  The last line break may follow the name. -/
def safeFilename (name : String) : Bool :=
  let text := if name.toList.getLast? = some '\n' then name.toList.dropLast else name.toList
  let body := text.drop "fasttak-backup-".length
  let version := (body.drop 17).dropLast.dropLast.dropLast.dropLast
  "fasttak-backup-".toList.isPrefixOf text && ".age".toList.isSuffixOf (body.drop 17) &&
    (body.take 8).all (fun c => (digit c).isSome) && body[8]? = some 'T' &&
    ((body.drop 9).take 6).all (fun c => (digit c).isSome) && body[15]? = some 'Z' &&
    body[16]? = some '-' && version.head?.any isWord &&
    version.all (fun c => isWord c || c ∈ ['.', '_', '-']) &&
    !hasDoubleDot (body.drop 17)

/-- `delete`. -/
def deleteFile (me : ℕ) (caller : Caller) (filename : String) : Task Unit := do
  if safeFilename filename then
    let found ← ask (fun w => (w.disk.lookup filename).isSome)
    if found then
      withFile me .deleteFile filename (fun _ => World.setDisk (AList.erase filename))
      recordEvent me (backupEvent caller.actor caller.ip "backup.deleted" filename [])
      respond me .noContent
    else respond me .notFound
  else respond me .badRequest

/-- `keys.read_identity()`. -/
def readIdentity (me : ℕ) : Task (Option String) := do
  attempt me .readKey id
  ask World.identity

/-- `download_key`. -/
def downloadKey (me : ℕ) (caller : Caller) : Task Unit :=
  readIdentity me >>= fun
    | none => respond me .notFound
    | some identity => do
        markKeyDownloaded me
        recordEvent me
          ⟨caller.actor, "backup.key_downloaded", "backup_key", "", [], caller.ip⟩
        respond me (.key identity)

/-! ## The requests together -/

inductive Request where
  | triggerRun (caller : Caller)
  | backupsRun (caller : Caller)
  | cmdRun (actor : String)
  | cmdPrune (keep : Option ℤ)
  | deleteFile (caller : Caller) (filename : String)
  | downloadKey (caller : Caller)

def Request.program (me : ℕ) : Request → Task Unit
  | .triggerRun caller => Backup.triggerRun me caller
  | .backupsRun caller => Backup.backupsRun me caller
  | .cmdRun actor => Backup.cmdRun me actor
  | .cmdPrune keep => Backup.cmdPrune me keep
  | .deleteFile caller filename => Backup.deleteFile me caller filename
  | .downloadKey caller => Backup.downloadKey me caller

end FastTAK.Backup
