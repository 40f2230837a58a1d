import FastTAK.Backup.Refusals

/-!
# When the phases of a run return

Each phase returns exactly when none of its requests fails.  What a phase changes does not
matter to the failures of a later one.
-/

namespace FastTAK.Backup

open FastTAK.Calendar FastTAK.Effect FastTAK.Text Prog

/-! ## What changes files only -/

/-- Only files with such names change, and the identity. -/
structure Touches (names : String → Prop) (w w' : World) : Prop where
  files : ∀ name, ¬ names name → w'.disk.lookup name = w.disk.lookup name
  rest : w' = { w with disk := w'.disk, identity := w'.identity }

instance (names : String → Prop) : IsPreorder World (Touches names) where
  refl _ := ⟨fun _ _ => rfl, rfl⟩
  trans _ _ _ h h' :=
    ⟨fun name hname => (h'.files name hname).trans (h.files name hname), by
      rw [h'.rest, h.rest]⟩

theorem Touches.fault {names : String → Prop} {w w' : World} (h : Touches names w w') :
    w'.fault = w.fault := by rw [h.rest]

theorem touches_refl {names : String → Prop} (w : World) : Touches names w w :=
  refl_of (Touches names) w

theorem touches_erase {names : String → Prop} {name : String} (hname : names name) (w : World) :
    Touches names w (w.setDisk (AList.erase name)) := by
  refine ⟨fun other hother => AList.lookup_erase_ne ?_, rfl⟩
  rintro rfl
  exact hother hname

/-! ## Requests -/

section Requests

variable {me : ℕ} {step : Step} {w : World} {name : String}

theorem run_attempt (effect : World → World) :
    (attempt me step effect).run w =
      match w.fault me step with
      | some f => (.error (.other f.name f.text), w)
      | none => (.ok (), effect w) := rfl

theorem run_withFile (effect : Entry → World → World) :
    (withFile me step name effect).run w =
      match w.fault me step, w.disk.lookup name with
      | some f, _ => (.error (.other f.name f.text), w)
      | none, none => (.error (.other "FileNotFoundError" name), w)
      | none, some entry => (.ok (), effect entry w) := rfl

theorem run_ifFile (effect : World → World) :
    (ifFile me step name effect).run w =
      match w.fault me step with
      | some f => (.error (.other f.name f.text), w)
      | none => if w.disk.lookup name = none then (.ok false, w) else (.ok true, effect w) :=
  rfl

theorem returns_attempt {effect : World → World} :
    Returns (attempt me step effect) w ↔ w.fault me step = none := by
  rw [Returns, run_attempt]
  cases w.fault me step <;> simp

theorem run_attempt_ok {effect : World → World} (h : w.fault me step = none) :
    (attempt me step effect).run w = (.ok (), effect w) := by
  rw [run_attempt, h]

theorem returns_attempt_bind {β : Type} {effect : World → World} {next : Unit → Task β} :
    Returns (attempt me step effect >>= next) w ↔
      w.fault me step = none ∧ Returns (next ()) (effect w) := by
  have hattempt : Returns (attempt me step effect) w ↔ w.fault me step = none := returns_attempt
  rw [← hattempt]
  apply returns_bind_iff
  intro a w' hrun
  rw [run_attempt] at hrun
  cases hfault : w.fault me step with
  | some f =>
      rw [hfault] at hrun
      cases hrun
  | none =>
      rw [hfault] at hrun
      cases hrun
      rfl

theorem returns_ifFile {effect : World → World} :
    Returns (ifFile me step name effect) w ↔ w.fault me step = none := by
  rw [Returns, run_ifFile]
  cases w.fault me step with
  | some f => simp
  | none =>
      dsimp only
      split_ifs <;> simp

theorem returns_discard {α : Type} {p : Task α} : Returns p.discard w ↔ Returns p w :=
  returns_bind_pure

end Requests

/-! ## The state file -/

section State

variable {me : ℕ} {w : World}

/-- Both requests of a record of a run succeed. -/
def CanWrite (me : ℕ) (status : RunStatus) (w : World) : Prop :=
  w.fault me (.readState (.lastRun status)) = none ∧
    w.fault me (.writeState (.lastRun status)) = none

instance (status : RunStatus) : Decidable (CanWrite me status w) :=
  inferInstanceAs (Decidable (_ ∧ _))

theorem run_writeState {kind : Writing} (change : StateFile → StateFile)
    (note : Record → Record) :
    (writeState me kind change note).run w =
      match w.fault me (.writeState kind), w.current me with
      | some f, _ => (.error (.other f.name f.text), w.setCurrent me none)
      | none, none => (.ok (), w)
      | none, some (_, current) => (.ok (), w.save me (change current) note) := rfl

/-- The record of a run is written. -/
theorem run_writeLastRun {r : LastRun} (h : CanWrite me r.status w) :
    ∃ current state, state.lastRun = some r ∧ (writeLastRun me r).run w =
      (.ok (), { w with
        current := current
        state := state
        record := w.record.setRecordOf me r }) := by
  obtain ⟨hread, hwrite⟩ := h
  let seen := if w.unreadable me (.lastRun r.status) then defaults else w.state
  let read := w.setCurrent me (some (.lastRun r.status, seen))
  have hfault : read.fault me (.writeState (.lastRun r.status)) = none := hwrite
  have hcurrent : read.current me = some (.lastRun r.status, seen) :=
    Function.update_self me _ _
  refine ⟨(read.setCurrent me none).current, setLastRun r seen, rfl, ?_⟩
  rw [writeLastRun, readState, run_bind_of_ok (run_attempt_ok hread), run_writeState,
    hfault, hcurrent]
  rfl

/-- The record of a run is not written. -/
theorem run_writeLastRun_error {r : LastRun} (h : ¬ CanWrite me r.status w) :
    ∃ e current, (writeLastRun me r).run w = (.error e, { w with current := current }) := by
  cases hread : w.fault me (.readState (.lastRun r.status)) with
  | some f =>
      have hrun : (readState me (.lastRun r.status)).run w =
          (.error (.other f.name f.text), w) := by
        rw [readState, run_attempt, hread]
      exact ⟨_, w.current, by rw [writeLastRun, run_bind_of_error hrun]⟩
  | none =>
      cases hwrite : w.fault me (.writeState (.lastRun r.status)) with
      | none => exact absurd ⟨hread, hwrite⟩ h
      | some f =>
          let seen := if w.unreadable me (.lastRun r.status) then defaults else w.state
          let read := w.setCurrent me (some (.lastRun r.status, seen))
          have hfault : read.fault me (.writeState (.lastRun r.status)) = some f := hwrite
          refine ⟨.other f.name f.text, (read.setCurrent me none).current, ?_⟩
          rw [writeLastRun, readState, run_bind_of_ok (run_attempt_ok hread), run_writeState,
            hfault]
          rfl

end State

/-! ## The work of a run -/

section Work

variable {me : ℕ} {job : Job} {w : World}

/-- The requests of `Job.prepare`. -/
def prepareSteps : List Step :=
  [.loadKey, .postgresVersions, .manifest, .makePostgresDir, .writeManifest] ++
    databases.map Step.dump ++ [.tarCerts, .tarConfig, .tarNodered, .copyEnv]

/-- The requests of `_stream_encrypted_archive`. -/
def streamSteps : List Step := [.popenTar, .popenGzip, .openArchive, .runAge]

theorem returns_forList {α : Type} {f : α → Step} {xs : List α} :
    Returns (forList (fun x => attempt me (f x) id) xs) w ↔
      ∀ x ∈ xs, w.fault me (f x) = none := by
  induction xs with
  | nil => exact iff_of_true returns_pure (by simp)
  | cons x xs ih =>
      rw [forList, returns_attempt_bind, List.forall_mem_cons]
      exact and_congr_right (fun _ => ih)

/-- Requests that change nothing come before others. -/
theorem returns_forList_bind {α β : Type} {f : α → Step} {xs : List α}
    {next : Unit → Task β} :
    Returns (forList (fun x => attempt me (f x) id) xs >>= next) w ↔
      (∀ x ∈ xs, w.fault me (f x) = none) ∧ Returns (next ()) w := by
  have hloop : Respects (· = ·) (fun _ => True) (forList (fun x => attempt me (f x) id) xs) :=
    respects_forList xs (fun x _ => respects_attempt (fun _ => rfl) (fun _ => rfl))
  have hreturns : Returns (forList (fun x => attempt me (f x) id) xs) w ↔
    ∀ x ∈ xs, w.fault me (f x) = none := returns_forList
  rw [← hreturns]
  apply returns_bind_iff
  intro u w' hrun
  have hsame := hloop.keeps w
  rw [hrun] at hsame
  rw [hsame]

theorem returns_prepare :
    Returns job.prepare w ↔ ∀ step ∈ prepareSteps, w.fault job.me step = none := by
  simp only [Job.prepare, populateStaging, returns_attempt_bind, returns_forList_bind,
    returns_attempt, id]
  simp [prepareSteps, databases, and_assoc]

theorem returns_statuses {exits : Exits} :
    Returns (if exits.age ≠ 0 then Prog.raise (.other "RuntimeError" "age failed")
      else if exits.tar ≠ 0 then Prog.raise (.other "RuntimeError" "tar (staging) failed")
      else if exits.gzip ≠ 0 then Prog.raise (.other "RuntimeError" "gzip failed")
      else pure () : Task Unit) w ↔ exits = .clean := by
  have hclean : exits = .clean ↔ exits.tar = 0 ∧ exits.gzip = 0 ∧ exits.age = 0 := by
    cases exits
    simp [Exits.clean]
  rw [hclean]
  split_ifs with hage htar hgzip
  · exact iff_of_false not_returns_raise (fun h => hage h.2.2)
  · exact iff_of_false not_returns_raise (fun h => htar h.1)
  · exact iff_of_false not_returns_raise (fun h => hgzip h.2.1)
  · rw [not_not] at hage htar hgzip
    exact iff_of_true returns_pure ⟨htar, hgzip, hage⟩

theorem run_runAge : (runAge me).run w =
    match w.fault me .runAge with
    | some f => (.error (.other f.name f.text), endPipeline me none w)
    | none => (.ok (w.exits me), endPipeline me (some (w.exits me)) w) := rfl

theorem returns_runAge : Returns (runAge me) w ↔ w.fault me .runAge = none := by
  rw [Returns, run_runAge]
  cases w.fault me .runAge <;> simp

theorem returns_stream {out : String} :
    Returns (streamEncryptedArchive me out) w ↔
      (∀ step ∈ streamSteps, w.fault me step = none) ∧ w.exits me = .clean := by
  have hend : ∀ v : World, v.fault = w.fault → v.exits = w.exits →
      (Returns (runAge me >>= fun exits =>
        if exits.age ≠ 0 then Prog.raise (.other "RuntimeError" "age failed")
        else if exits.tar ≠ 0 then Prog.raise (.other "RuntimeError" "tar (staging) failed")
        else if exits.gzip ≠ 0 then Prog.raise (.other "RuntimeError" "gzip failed")
        else pure ()) v ↔ w.fault me .runAge = none ∧ w.exits me = .clean) := by
    intro v hfault hexits
    rw [← hfault, ← hexits]
    have hage : Returns (runAge me) v ↔ v.fault me .runAge = none := returns_runAge
    rw [← hage]
    apply returns_bind_iff
    intro exits v' hrun
    rw [run_runAge] at hrun
    cases hfault : v.fault me .runAge with
    | some f =>
        rw [hfault] at hrun
        cases hrun
    | none =>
        rw [hfault] at hrun
        cases hrun
        exact returns_statuses
  simp only [streamEncryptedArchive, returns_attempt_bind, id]
  rw [hend (openOutput me out w) rfl rfl]
  simp [streamSteps, and_assoc]

/-- Where nothing fails, the pipeline opens its file and ends. -/
theorem run_stream {out : String} (hsteps : ∀ step ∈ streamSteps, w.fault me step = none)
    (hexits : w.exits me = .clean) :
    (streamEncryptedArchive me out).run w =
      (.ok (), endPipeline me (some .clean) (openOutput me out w)) := by
  have hspawn : ∀ step ∈ streamSteps, (attempt me step id).run w = (.ok (), w) :=
    fun step hstep => run_attempt_ok (hsteps step hstep)
  have hopen : (attempt me .openArchive (openOutput me out)).run w =
      (.ok (), openOutput me out w) := run_attempt_ok (hsteps _ (by simp [streamSteps]))
  have hage : (runAge me).run (openOutput me out w) =
      (.ok .clean, endPipeline me (some .clean) (openOutput me out w)) := by
    have hfault : (openOutput me out w).fault me .runAge = none :=
      hsteps .runAge (by simp [streamSteps])
    have hclean : (openOutput me out w).exits me = .clean := hexits
    rw [run_runAge, hfault, hclean]
  rw [streamEncryptedArchive, run_bind_of_ok (hspawn _ (by simp [streamSteps])),
    run_bind_of_ok (hspawn _ (by simp [streamSteps])), run_bind_of_ok hopen,
    run_bind_of_ok hage]
  rfl

end Work

/-! ## Retention -/

section Retention

variable {me : ℕ} {w : World}

/-- The stale partial files are removed without an error. -/
def CanReap (me : ℕ) (names : List String) (w : World) : Prop :=
  ∀ name ∈ names, w.fault me (.statPartial name) = none ∧
    ∀ entry ∈ w.disk.lookup name, (w.clock.seconds : ℤ) - entry.mtime > w.partialReapAge →
      w.fault me (.reapPartial name) = none

theorem returns_reapOne {now maxAge : ℤ} {name : String} :
    Returns (reapOne me now maxAge name) w ↔ w.fault me (.statPartial name) = none ∧
      ∀ entry ∈ w.disk.lookup name, now - entry.mtime > maxAge →
        w.fault me (.reapPartial name) = none := by
  have hstat : (statPartial me name).run w =
      match w.fault me (.statPartial name) with
      | some f => (.error (.other f.name f.text), w)
      | none => (.ok ((w.disk.lookup name).map Entry.mtime), w) := rfl
  cases hfault : w.fault me (.statPartial name) with
  | some f =>
      rw [hfault] at hstat
      apply iff_of_false
      · intro h
        obtain ⟨a, ha⟩ := h
        rw [reapOne, run_bind_of_error hstat] at ha
        cases ha
      · simp
  | none =>
      rw [hfault] at hstat
      rw [Returns, reapOne, run_bind_of_ok hstat, and_iff_right rfl]
      cases w.disk.lookup name with
      | none => exact iff_of_true returns_pure (by simp)
      | some entry =>
          simp only [Option.map_some, Option.mem_some_iff, forall_eq']
          split_ifs with hstale
          · have hreap := returns_discard (p := ifFile me (.reapPartial name) name
              (World.setDisk (AList.erase name))) (w := w)
            rw [returns_ifFile] at hreap
            exact hreap.trans (by simp [hstale])
          · exact iff_of_true returns_pure (fun h => absurd h hstale)

/-- What one round removes does not matter to the others. -/
theorem returns_reapLoop {now maxAge : ℤ} {names : List String} (hnames : names.Nodup) :
    Returns (forList (reapOne me now maxAge) names) w ↔
      ∀ name ∈ names, w.fault me (.statPartial name) = none ∧
        ∀ entry ∈ w.disk.lookup name, now - entry.mtime > maxAge →
          w.fault me (.reapPartial name) = none := by
  induction names generalizing w with
  | nil => exact iff_of_true returns_pure (by simp)
  | cons name names ih =>
      obtain ⟨hname, hrest⟩ := List.nodup_cons.mp hnames
      have hone : Returns (reapOne me now maxAge name) w ↔ _ := returns_reapOne
      rw [List.forall_mem_cons, ← hone, forList]
      apply returns_bind_iff
      intro u w' hrun
      have hround : Respects (Touches (· = name)) (fun _ => True)
          (reapOne me now maxAge name) :=
        respects_reapOne touches_refl (touches_erase rfl)
      have htouches := hround.keeps w
      rw [hrun] at htouches
      rw [ih hrest, htouches.fault]
      apply forall₂_congr
      intro other hother
      rw [htouches.files other (fun hsame => hname (hsame ▸ hother))]

theorem returns_reapPartials :
    Returns (reapPartials me) w ↔ CanReap me (partialFiles w.disk) w :=
  returns_reapLoop (w.disk.keys_nodup.filter _)

/-- The archives and their sidecars are deleted without an error. -/
def CanDelete (me : ℕ) (names : List String) (w : World) : Prop :=
  ∀ name ∈ names,
    w.fault me (.unlinkBackup name) = none ∧ w.fault me (.unlinkSidecar name) = none

theorem touches_pruneOne (name : String) :
    Respects (Touches (fun _ => True)) (fun _ => True) (pruneOne me name) :=
  respects_pruneOne touches_refl (fun w _ => touches_erase trivial w)

theorem returns_pruneOne {name : String} :
    Returns (pruneOne me name) w ↔
      w.fault me (.unlinkBackup name) = none ∧ w.fault me (.unlinkSidecar name) = none := by
  have hunlink : Respects (Touches (fun _ => True)) (fun _ => True)
      (ifFile me (.unlinkBackup name) name (World.setDisk (AList.erase name))) :=
    respects_ifFile touches_refl (touches_erase trivial)
  have hfirst : Returns (ifFile me (.unlinkBackup name) name
      (World.setDisk (AList.erase name))) w ↔ _ := returns_ifFile
  rw [← hfirst]
  apply returns_bind_iff
  intro deleted w' hrun
  have htouches := hunlink.keeps w
  rw [hrun] at htouches
  have hsecond : Returns (ifFile me (.unlinkSidecar name) (name ++ ".sha256")
      (World.setDisk (AList.erase (name ++ ".sha256")))) w' ↔ _ := returns_ifFile
  rw [← htouches.fault, ← hsecond]
  exact returns_bind_pure

theorem returns_pruneLoop {names : List String} :
    Returns (mapList (pruneOne me) names) w ↔ CanDelete me names w := by
  apply returns_mapList touches_pruneOne
  intro name w' htouches
  rw [returns_pruneOne, htouches.fault]

/-- Retention works if its two passes do; the second sees what the first leaves. -/
theorem returns_prune {keep : ℤ} {archives : List String}
    (hsame : ∀ w', Touches (fun name => fitsStar "fasttak-backup-" ".partial" name) w w' →
      ∀ name, name ∈ toDelete keep w'.disk.keys ↔ name ∈ archives) :
    Returns (prune me keep) w ↔
      CanReap me (partialFiles w.disk) w ∧ CanDelete me archives w := by
  have hreap : Respects (Touches (fun name => fitsStar "fasttak-backup-" ".partial" name))
      (fun _ => True) (reapPartials me) :=
    respects_reapPartials touches_refl (fun w name hname => touches_erase hname w)
  have hfirst : Returns (reapPartials me) w ↔ _ := returns_reapPartials
  rw [← hfirst]
  apply returns_bind_iff
  intro u w' hrun
  have htouches := hreap.keeps w
  rw [hrun] at htouches
  have hloop : Returns (mapList (pruneOne me) (toDelete keep w'.disk.keys)) w' ↔ _ :=
    returns_pruneLoop
  have hdelete : CanDelete me archives w ↔ CanDelete me (toDelete keep w'.disk.keys) w' := by
    unfold CanDelete
    rw [htouches.fault]
    exact forall_congr' (fun name => by rw [hsame w' htouches name])
  rw [hdelete, ← hloop]
  exact returns_bind_pure

end Retention

end FastTAK.Backup
