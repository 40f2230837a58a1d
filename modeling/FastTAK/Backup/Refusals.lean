import FastTAK.Backup.Requests
import FastTAK.Base.Endings

/-!
# Who says that a backup is running

`BackupAlreadyRunning` comes from the lock alone: no other request of a run raises it.
-/

namespace FastTAK.Backup

open FastTAK.Calendar FastTAK.Effect

/-- Any exception but `BackupAlreadyRunning`. -/
def NotRunning (exc : Exn) : Prop := exc ≠ .alreadyRunning

theorem notRunning_other (name text : String) : NotRunning (.other name text) := by
  intro h
  cases h

section Raises

variable {me : ℕ} {job : Job}

theorem raises_attempt {step : Step} {effect : World → World} :
    Prog.Raises NotRunning (attempt me step effect) := by
  apply Prog.raises_atomic
  intro w e he
  cases hfault : w.fault me step with
  | some f =>
      rw [hfault] at he
      cases he
      exact notRunning_other _ _
  | none =>
      rw [hfault] at he
      cases he

theorem raises_withFile {step : Step} {name : String} {effect : Entry → World → World} :
    Prog.Raises NotRunning (withFile me step name effect) := by
  apply Prog.raises_atomic
  intro w e he
  cases hfault : w.fault me step with
  | some f =>
      rw [hfault] at he
      cases he
      exact notRunning_other _ _
  | none =>
      cases hentry : w.disk.lookup name with
      | none =>
          rw [hfault, hentry] at he
          cases he
          exact notRunning_other _ _
      | some entry =>
          rw [hfault, hentry] at he
          cases he

theorem raises_ifFile {step : Step} {name : String} {effect : World → World} :
    Prog.Raises NotRunning (ifFile me step name effect) := by
  apply Prog.raises_atomic
  intro w e he
  cases hfault : w.fault me step with
  | some f =>
      rw [hfault] at he
      cases he
      exact notRunning_other _ _
  | none =>
      rw [hfault] at he
      dsimp only at he
      split_ifs at he

theorem raises_ask {α : Type} {f : World → α} : Prog.Raises NotRunning (ask f) :=
  Prog.raises_atomic (fun w e he => by cases he)

theorem raises_recordEvent {e : Event} : Prog.Raises NotRunning (recordEvent me e) :=
  Prog.raises_atomic (fun w e he => by cases he)

theorem raises_writeState {kind : Writing} {change : StateFile → StateFile}
    {note : Record → Record} :
    Prog.Raises NotRunning (writeState me kind change note) := by
  apply Prog.raises_atomic
  intro w e he
  cases hfault : w.fault me (.writeState kind) with
  | some f =>
      rw [hfault] at he
      cases he
      exact notRunning_other _ _
  | none =>
      cases hcurrent : w.current me with
      | none =>
          rw [hfault, hcurrent] at he
          cases he
      | some current =>
          rw [hfault, hcurrent] at he
          cases he

theorem raises_writeLastRun {r : LastRun} : Prog.Raises NotRunning (writeLastRun me r) :=
  Prog.raises_bind raises_attempt (fun _ => raises_writeState)

theorem raises_prune {keep : ℤ} : Prog.Raises NotRunning (prune me keep) := by
  have hstat : ∀ name, Prog.Raises NotRunning (statPartial me name) := by
    intro name
    apply Prog.raises_atomic
    intro w e he
    cases hfault : w.fault me (.statPartial name) with
    | some f =>
        rw [hfault] at he
        cases he
        exact notRunning_other _ _
    | none =>
        rw [hfault] at he
        cases he
  have hreap : ∀ now maxAge name, Prog.Raises NotRunning (reapOne me now maxAge name) := by
    intro now maxAge name
    apply Prog.raises_bind (hstat name)
    intro mtime
    cases mtime with
    | none => exact Prog.raises_pure
    | some mtime =>
        dsimp only
        split_ifs
        · exact Prog.raises_discard raises_ifFile
        · exact Prog.raises_pure
  have hone : ∀ name, Prog.Raises NotRunning (pruneOne me name) := by
    intro name
    apply Prog.raises_bind raises_ifFile
    intro deleted
    exact Prog.raises_bind raises_ifFile (fun _ => Prog.raises_pure)
  apply Prog.raises_bind
  · apply Prog.raises_bind raises_ask
    intro maxAge
    apply Prog.raises_bind raises_ask
    intro now
    exact Prog.raises_bind raises_ask (fun names => Prog.raises_forList names (hreap _ _))
  · intro _
    apply Prog.raises_bind raises_ask
    intro names
    exact Prog.raises_bind (Prog.raises_mapList _ hone) (fun _ => Prog.raises_pure)

theorem raises_stream {out : String} :
    Prog.Raises NotRunning (streamEncryptedArchive me out) := by
  have hage : Prog.Raises NotRunning (runAge me) := by
    apply Prog.raises_atomic
    intro w e he
    cases hfault : w.fault me .runAge with
    | some f =>
        rw [hfault] at he
        cases he
        exact notRunning_other _ _
    | none =>
        rw [hfault] at he
        cases he
  apply Prog.raises_bind raises_attempt
  intro _
  apply Prog.raises_bind raises_attempt
  intro _
  apply Prog.raises_bind raises_attempt
  intro _
  apply Prog.raises_bind hage
  intro exits
  split_ifs
  · exact Prog.raises_raise (notRunning_other _ _)
  · exact Prog.raises_raise (notRunning_other _ _)
  · exact Prog.raises_raise (notRunning_other _ _)
  · exact Prog.raises_pure

theorem raises_prepare : Prog.Raises NotRunning job.prepare := by
  apply Prog.raises_bind raises_attempt
  intro _
  apply Prog.raises_bind raises_attempt
  intro _
  apply Prog.raises_bind raises_attempt
  intro _
  apply Prog.raises_bind raises_attempt
  intro _
  apply Prog.raises_bind raises_attempt
  intro _
  apply Prog.raises_bind (Prog.raises_forList databases (fun db => raises_attempt))
  intro _
  apply Prog.raises_bind raises_attempt
  intro _
  apply Prog.raises_bind raises_attempt
  intro _
  exact Prog.raises_bind raises_attempt (fun _ => raises_attempt)

theorem raises_writeSidecar {me : ℕ} {archive : String} :
    Prog.Raises NotRunning (writeSidecar me archive) := by
  apply Prog.raises_atomic
  intro w e he
  cases hfault : w.fault me .sidecar with
  | some f =>
      cases hentry : w.disk.lookup archive with
      | none =>
          rw [hfault, hentry] at he
          cases he
          exact notRunning_other _ _
      | some entry =>
          rw [hfault, hentry] at he
          cases he
          exact notRunning_other _ _
  | none =>
      cases hentry : w.disk.lookup archive with
      | none =>
          rw [hfault, hentry] at he
          cases he
          exact notRunning_other _ _
      | some entry =>
          rw [hfault, hentry] at he
          cases he

theorem raises_complete : Prog.Raises NotRunning job.complete := by
  apply Prog.raises_bind raises_writeSidecar
  intro _
  apply Prog.raises_bind (Prog.raises_bind raises_withFile (fun _ => raises_ask))
  intro size
  apply Prog.raises_bind raises_ask
  intro finishedAt
  apply Prog.raises_bind raises_writeLastRun
  intro _
  exact Prog.raises_bind raises_recordEvent (fun _ => Prog.raises_pure)

theorem raises_retentionKeep : Prog.Raises NotRunning retentionKeep := by
  apply Prog.raises_atomic
  intro w e he
  cases hkeep : w.retentionKeep with
  | error f =>
      rw [hkeep] at he
      cases he
      exact notRunning_other _ _
  | ok keep =>
      rw [hkeep] at he
      cases he

theorem raises_body : Prog.Raises NotRunning job.body := by
  apply Prog.raises_bind raises_prepare
  intro _
  apply Prog.raises_bind raises_stream
  intro _
  apply Prog.raises_bind raises_withFile
  intro _
  apply Prog.raises_bind raises_complete
  intro made
  apply Prog.raises_bind
  · apply Prog.raises_bind raises_retentionKeep
    intro keep
    apply Prog.raises_bind raises_prune
    intro pruned
    exact Prog.raises_forList pruned (fun name => raises_recordEvent)
  · exact fun _ => Prog.raises_pure

theorem raises_fail {exc : Exn} (hexc : NotRunning exc) :
    Prog.Raises NotRunning (job.fail exc) := by
  apply Prog.raises_bind (Prog.raises_discard raises_ifFile)
  intro _
  apply Prog.raises_bind raises_ask
  intro finishedAt
  apply Prog.raises_bind raises_writeLastRun
  intro _
  exact Prog.raises_bind raises_recordEvent (fun _ => Prog.raises_raise hexc)

/-- With the lock, a run does not say that one is running. -/
theorem raises_locked : Prog.Raises NotRunning job.locked := by
  apply Prog.raises_bind raises_writeLastRun
  intro _
  apply Prog.raises_bind raises_ask
  intro version
  apply Prog.raises_bind raises_recordEvent
  intro _
  apply Prog.raises_tryFinally
  · exact Prog.raises_tryExcept raises_body (fun exc hexc => raises_fail hexc)
  · exact Prog.raises_atomic (fun w e he => by cases he)

theorem raises_closeLock {use : Use} : Prog.Raises NotRunning (closeLock me use) := by
  apply Prog.raises_atomic
  intro w e he
  cases hfault : w.fault me (.closeLock use) with
  | some f =>
      rw [hfault] at he
      cases he
      exact notRunning_other _ _
  | none =>
      rw [hfault] at he
      cases he

theorem raises_unlock {use : Use} :
    Prog.Raises NotRunning (Prog.tryFinally (release me use) (closeLock me use)) :=
  Prog.raises_tryFinally raises_attempt raises_closeLock

end Raises

end FastTAK.Backup
