import FastTAK.Backup.Names
import FastTAK.Base.Cleanup
import Mathlib.Data.List.AList
import Mathlib.Data.PNat.Basic

/-!
# The backup directory and what acts on it

The files, the lock, the state file and the audit rows that backup processes share.  A
process is a program whose requests take turns with those of the others; every request that
can fail asks the world whether it does.
-/

namespace FastTAK.Backup

open FastTAK.Calendar FastTAK.Effect

/-! ## Files -/

/-- The exit statuses of the three processes of the pipeline. -/
structure Exits where
  tar : ℤ
  gzip : ℤ
  age : ℤ
deriving DecidableEq

def Exits.clean : Exits := ⟨0, 0, 0⟩

/-- What is in a file: all that a pipeline put out, with how it ended; what a pipeline that
has not ended put out so far; what two pipelines wrote over each other; or something that
no pipeline wrote. -/
inductive Content where
  | output (exits : Exits)
  | unfinished
  | mixed
  | other
deriving DecidableEq

/-- A file, with the run that made it and the processes whose pipelines have it open. -/
structure Entry where
  content : Content
  writers : List ℕ
  run : ℕ
  size : ℕ
  mtime : ℤ
  /-- In a sidecar: the run whose output has the digest, and the name of the archive. -/
  attests : Option (ℕ × String)
deriving DecidableEq

abbrev Disk := AList (fun _ : String => Entry)

/-- Change every file in place. -/
def mapFiles (f : Entry → Entry) (disk : Disk) : Disk where
  entries := disk.entries.map (fun file => ⟨file.1, f file.2⟩)
  nodupKeys := by
    have hkeys : (disk.entries.map (fun file => (⟨file.1, f file.2⟩ :
        Sigma (fun _ : String => Entry)))).keys = disk.entries.keys := by
      simp [List.keys, Function.comp_def]
    rw [List.NodupKeys, hkeys]
    exact disk.nodupKeys

@[simp]
theorem lookup_mapFiles (f : Entry → Entry) (disk : Disk) (name : String) :
    (mapFiles f disk).lookup name = (disk.lookup name).map f :=
  List.dlookup_map₂ (l := disk.entries) (f := fun _ => f) name

@[simp]
theorem keys_mapFiles (f : Entry → Entry) (disk : Disk) :
    (mapFiles f disk).keys = disk.keys := by
  simp [AList.keys, mapFiles, List.keys, Function.comp_def]

/-! ## State and audit -/

inductive RunStatus where
  | running
  | success
  | failed
deriving DecidableEq

structure LastRun where
  startedAt : DateTime
  finishedAt : Option DateTime
  status : RunStatus
  filename : String
  error : Option String
deriving DecidableEq

/-- What `state.read` returns. -/
structure StateFile where
  keyDownloadedAt : Option DateTime
  lastRun : Option LastRun
deriving DecidableEq

inductive Datum where
  | text (value : String)
  | number (value : ℕ)
  | texts (values : List String)
deriving DecidableEq

/-- An audit row about a backup. -/
structure Event where
  actor : String
  action : String
  targetType : String
  targetId : String
  detail : List (String × Datum)
  ip : Option String
deriving DecidableEq

/-! ## Exceptions -/

inductive Exn where
  | alreadyRunning
  | other (name text : String)
deriving DecidableEq

def Exn.typeName : Exn → String
  | alreadyRunning => "BackupAlreadyRunning"
  | other name _ => name

def Exn.text : Exn → String
  | alreadyRunning => "a backup is already in progress"
  | other _ text => text

/-- A failure of a request to the system. -/
structure Fault where
  name : String
  text : String
deriving DecidableEq

/-- What the lock is taken for: to see whether it is free, or for a run. -/
inductive Use where
  | probe
  | run
deriving DecidableEq

/-- The writes to the state file. -/
inductive Writing where
  | lastRun (status : RunStatus)
  | refused
  | download
deriving DecidableEq

/-- The requests that can raise. -/
inductive Step where
  | backupDir
  | mkdtemp
  | lockDir (use : Use)
  | openLock (use : Use)
  | flock (use : Use)
  | unlock (use : Use)
  | closeLock (use : Use)
  | readState (kind : Writing)
  | writeState (kind : Writing)
  | loadKey
  | postgresVersions
  | manifest
  | makePostgresDir
  | writeManifest
  | dump (db : String)
  | tarCerts
  | tarConfig
  | tarNodered
  | copyEnv
  | popenTar
  | popenGzip
  | openArchive
  | runAge
  | replace
  | sidecar
  | stat
  | unlinkPartial
  | statPartial (name : String)
  | reapPartial (name : String)
  | unlinkBackup (name : String)
  | unlinkSidecar (name : String)
  | deleteFile
  | readKey
  | readPage
deriving DecidableEq

/-! ## The world -/

structure Holder where
  use : Use
  process : ℕ
deriving DecidableEq

/-- What a request answers, or the code with which a command exits. -/
inductive Reply where
  | accepted
  | conflict (detail : String)
  | page (lastRun : Option LastRun) (alreadyRunning : Bool)
  | badRequest
  | notFound
  | noContent
  | key (identity : String)
  | exited (code : ℕ)
deriving DecidableEq

/-- What happened, kept for statements about runs; no program reads it. -/
structure Record where
  /-- Who was refused the lock, and who held it then. -/
  refusals : List (ℕ × Holder)
  /-- Who recorded a failed run because it was refused the lock. -/
  refusedRuns : List ℕ
  /-- The runs between acquisition and release. -/
  inside : List ℕ
  /-- The run that acquired the lock last, and what each run last recorded. -/
  lastHolder : Option ℕ
  recordOf : ℕ → Option LastRun
  /-- Some download of the key was recorded. -/
  downloaded : Bool

structure World where
  disk : Disk
  staging : List ℕ
  lock : Option Holder
  state : StateFile
  /-- The local variable `current` of each process, between its read and its write. -/
  current : ℕ → Option (Writing × StateFile)
  events : List Event
  replies : List (ℕ × Reply)
  identity : Option String
  clock : DateTime
  version : String
  /-- What `retention_keep` returns or raises. -/
  retentionKeep : Except Fault ℕ+
  partialReapAge : ℤ
  /-- The failures that the requests of each process run into. -/
  fault : ℕ → Step → Option Fault
  /-- The reads of the state file that fall back to the defaults. -/
  unreadable : ℕ → Writing → Bool
  /-- The audit rows of each process that the database loses. -/
  lostRow : ℕ → String → Bool
  /-- The write of a sidecar, where it fails, has emptied the file. -/
  empties : ℕ → Bool
  /-- The removal of the staging directory, which ignores its errors, leaves it behind. -/
  staysBehind : ℕ → Bool
  /-- How the pipeline of each process ends, and how much it puts out. -/
  exits : ℕ → Exits
  size : ℕ → ℕ
  /-- The identity that a process makes if there is none. -/
  keygen : ℕ → String
  /-- The processes that were killed. -/
  killed : List ℕ
  record : Record

/-- A new backup directory, in which nothing fails. -/
def newDir : World where
  disk := ∅
  staging := []
  lock := none
  state := ⟨none, none⟩
  current := fun _ => none
  events := []
  replies := []
  identity := none
  clock := ⟨⟨2026, 5, 1, 12, 0, 0⟩, by decide⟩
  version := "dev"
  retentionKeep := .ok 14
  partialReapAge := 21600
  fault := fun _ _ => none
  unreadable := fun _ _ => false
  lostRow := fun _ _ => false
  empties := fun _ => false
  staysBehind := fun _ => false
  exits := fun _ => .clean
  size := fun _ => 1000
  keygen := fun _ => "AGE-SECRET-KEY-1"
  killed := []
  record := ⟨[], [], [], none, fun _ => none, false⟩

namespace World

def setDisk (f : Disk → Disk) (w : World) : World := { w with disk := f w.disk }

def setCurrent (i : ℕ) (s : Option (Writing × StateFile)) (w : World) : World :=
  { w with current := Function.update w.current i s }

def addEvent (i : ℕ) (e : Event) (w : World) : World :=
  if w.lostRow i e.action then w else { w with events := w.events ++ [e] }

def addReply (i : ℕ) (reply : Reply) (w : World) : World :=
  { w with replies := w.replies ++ [(i, reply)] }

end World

abbrev Task (α : Type) := Prog Exn World α

/-- A request that can fail.  If it does not, it changes the world. -/
def attempt (me : ℕ) (step : Step) (effect : World → World) : Task Unit :=
  Prog.atomic fun w =>
    match w.fault me step with
    | some f => (.error (.other f.name f.text), w)
    | none => (.ok (), effect w)

/-- A request that can fail and needs a file, whose absence is a `FileNotFoundError`. -/
def withFile (me : ℕ) (step : Step) (name : String) (effect : Entry → World → World) :
    Task Unit :=
  Prog.atomic fun w =>
    match w.fault me step, w.disk.lookup name with
    | some f, _ => (.error (.other f.name f.text), w)
    | none, none => (.error (.other "FileNotFoundError" name), w)
    | none, some entry => (.ok (), effect entry w)

/-- A request that can fail and does nothing about a file that is not there. -/
def ifFile (me : ℕ) (step : Step) (name : String) (effect : World → World) : Task Bool :=
  Prog.atomic fun w =>
    match w.fault me step with
    | some f => (.error (.other f.name f.text), w)
    | none => if w.disk.lookup name = none then (.ok false, w) else (.ok true, effect w)

def ask {α : Type} (f : World → α) : Task α := Prog.atomic (Call.read f)

/-- `record_event`, which swallows the errors of the database. -/
def recordEvent (me : ℕ) (e : Event) : Task Unit :=
  Prog.atomic (Call.modify (World.addEvent me e))

def respond (me : ℕ) (reply : Reply) : Task Unit :=
  Prog.atomic (Call.modify (World.addReply me reply))

/-! ## Rules for the requests -/

section Rules

variable {rely guar : World → World → Prop} {me : ℕ} {step : Step} {name : String}

theorem respects_attempt {effect : World → World} (hsame : ∀ w, guar w w)
    (heffect : ∀ w, guar w (effect w)) :
    Prog.Respects guar (fun _ => True) (attempt me step effect) := by
  apply Prog.respects_atomic
  intro w
  refine ⟨?_, fun _ _ => trivial⟩
  cases w.fault me step with
  | some f => exact hsame w
  | none => exact heffect w

theorem respects_withFile {effect : Entry → World → World} (hsame : ∀ w, guar w w)
    (heffect : ∀ w entry, w.disk.lookup name = some entry → guar w (effect entry w)) :
    Prog.Respects guar (fun _ => True) (withFile me step name effect) := by
  apply Prog.respects_atomic
  intro w
  refine ⟨?_, fun _ _ => trivial⟩
  cases w.fault me step with
  | some f => exact hsame w
  | none =>
      cases hentry : w.disk.lookup name with
      | none => exact hsame w
      | some entry => exact heffect w entry hentry

theorem respects_ifFile {effect : World → World} (hsame : ∀ w, guar w w)
    (heffect : ∀ w, guar w (effect w)) :
    Prog.Respects guar (fun _ => True) (ifFile me step name effect) := by
  apply Prog.respects_atomic
  intro w
  refine ⟨?_, fun _ _ => trivial⟩
  cases w.fault me step with
  | some f => exact hsame w
  | none =>
      dsimp only
      split_ifs
      · exact hsame w
      · exact heffect w

theorem respects_ask {α : Type} {f : World → α} (hsame : ∀ w, guar w w) :
    Prog.Respects guar (fun _ => True) (ask f) :=
  Prog.respects_atomic (fun w => ⟨hsame w, fun _ _ => trivial⟩)

theorem respects_recordEvent {e : Event} (hevent : ∀ w, guar w (w.addEvent me e)) :
    Prog.Respects guar (fun _ => True) (recordEvent me e) :=
  Prog.respects_atomic (fun w => ⟨hevent w, fun _ _ => trivial⟩)

theorem respects_respond {reply : Reply} (hreply : ∀ w, guar w (w.addReply me reply)) :
    Prog.Respects guar (fun _ => True) (respond me reply) :=
  Prog.respects_atomic (fun w => ⟨hreply w, fun _ _ => trivial⟩)

theorem meets_attempt {effect : World → World} {post : Except Exn Unit → World → Prop}
    {w : World} (hpost : ∀ result w w', post result w → rely w w' → post result w')
    (hfault : ∀ w' f, rely w w' → w'.fault me step = some f →
      guar w' w' ∧ post (.error (.other f.name f.text)) w')
    (hdone : ∀ w', rely w w' → w'.fault me step = none →
      guar w' (effect w') ∧ post (.ok ()) (effect w')) :
    Prog.Meets rely guar post (attempt me step effect) w := by
  apply Prog.meets_atomic
  intro w' hrely
  cases hfaulty : w'.fault me step with
  | some f =>
      obtain ⟨hguar, hends⟩ := hfault w' f hrely hfaulty
      exact ⟨hguar, fun w'' hmoved => hpost _ w' w'' hends hmoved⟩
  | none =>
      obtain ⟨hguar, hends⟩ := hdone w' hrely hfaulty
      exact ⟨hguar, fun w'' hmoved => hpost _ _ w'' hends hmoved⟩

theorem meets_withFile {effect : Entry → World → World}
    {post : Except Exn Unit → World → Prop} {w : World}
    (hpost : ∀ result w w', post result w → rely w w' → post result w')
    (hfault : ∀ w' e, rely w w' → guar w' w' ∧ post (.error e) w')
    (hdone : ∀ w' entry, rely w w' → w'.disk.lookup name = some entry →
      guar w' (effect entry w') ∧ post (.ok ()) (effect entry w')) :
    Prog.Meets rely guar post (withFile me step name effect) w := by
  apply Prog.meets_atomic
  intro w' hrely
  cases w'.fault me step with
  | some f =>
      obtain ⟨hguar, hends⟩ := hfault w' (.other f.name f.text) hrely
      exact ⟨hguar, fun w'' hmoved => hpost _ w' w'' hends hmoved⟩
  | none =>
      cases hentry : w'.disk.lookup name with
      | none =>
          obtain ⟨hguar, hends⟩ := hfault w' (.other "FileNotFoundError" name) hrely
          exact ⟨hguar, fun w'' hmoved => hpost _ w' w'' hends hmoved⟩
      | some entry =>
          obtain ⟨hguar, hends⟩ := hdone w' entry hrely hentry
          exact ⟨hguar, fun w'' hmoved => hpost _ _ w'' hends hmoved⟩

theorem meets_ifFile {effect : World → World} {post : Except Exn Bool → World → Prop}
    {w : World} (hpost : ∀ result w w', post result w → rely w w' → post result w')
    (hfault : ∀ w' f, rely w w' → w'.fault me step = some f →
      guar w' w' ∧ post (.error (.other f.name f.text)) w')
    (habsent : ∀ w', rely w w' → name ∉ w'.disk → guar w' w' ∧ post (.ok false) w')
    (hdone : ∀ w', rely w w' → name ∈ w'.disk →
      guar w' (effect w') ∧ post (.ok true) (effect w')) :
    Prog.Meets rely guar post (ifFile me step name effect) w := by
  apply Prog.meets_atomic
  intro w' hrely
  cases hfaulty : w'.fault me step with
  | some f =>
      obtain ⟨hguar, hends⟩ := hfault w' f hrely hfaulty
      exact ⟨hguar, fun w'' hmoved => hpost _ w' w'' hends hmoved⟩
  | none =>
      dsimp only
      split_ifs with hentry
      · obtain ⟨hguar, hends⟩ := habsent w' hrely (AList.lookup_eq_none.mp hentry)
        exact ⟨hguar, fun w'' hmoved => hpost _ w' w'' hends hmoved⟩
      · obtain ⟨hguar, hends⟩ := hdone w' hrely
          (by_contra fun habs => hentry (AList.lookup_eq_none.mpr habs))
        exact ⟨hguar, fun w'' hmoved => hpost _ _ w'' hends hmoved⟩

/-- A question, and what comes after it. -/
theorem meets_ask_bind {α β : Type} {f : World → α} {next : α → Task β}
    {post : Except Exn β → World → Prop} {w : World}
    (hnext : ∀ w', rely w w' → guar w' w' ∧ Prog.Meets rely guar post (next (f w')) w') :
    Prog.Meets rely guar post (ask f >>= next) w := hnext

end Rules

end FastTAK.Backup
