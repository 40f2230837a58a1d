import FastTAK.Backup.Exclusion

/-!
# Updates of the state file

A write of the state file keeps the update of another process when nobody replaced the file
since it was read.  Then the file says what the run that had the lock last recorded.
-/

namespace FastTAK.Backup

open FastTAK.Calendar FastTAK.Effect

/-! ## What the file should say -/

/-- A recorded download is in the file, the record in the file is the last of the run that
had the lock last, and a run that let go of the lock has recorded how it ended. -/
structure UpdatesKept (w : World) : Prop where
  download : w.record.downloaded → w.state.keyDownloadedAt ≠ none
  lastRun : ∀ i r, w.record.lastHolder = some i → w.record.recordOf i = some r →
    w.state.lastRun = some r
  ended : ∀ i, w.record.lastHolder = some i → ¬ Holds i w → Alive i w →
    ∃ r, w.record.recordOf i = some r ∧ r.status ≠ .running

/-- The field of the file that a write does not set is what the process has read, and a
request whose run was refused does not write over the record of a run. -/
def UpToDate (w : World) : Writing × StateFile → Prop
  | (.download, seen) => seen.lastRun = w.state.lastRun
  | (.lastRun _, seen) => seen.keyDownloadedAt = w.state.keyDownloadedAt
  | (.refused, seen) =>
      seen.keyDownloadedAt = w.state.keyDownloadedAt ∧
        ∀ j ∈ w.record.lastHolder, w.record.recordOf j = none

instance (w : World) : DecidablePred (UpToDate w)
  | (.download, seen) => inferInstanceAs (Decidable (seen.lastRun = w.state.lastRun))
  | (.lastRun _, seen) =>
      inferInstanceAs (Decidable (seen.keyDownloadedAt = w.state.keyDownloadedAt))
  | (.refused, seen) =>
      inferInstanceAs (Decidable (seen.keyDownloadedAt = w.state.keyDownloadedAt ∧
        ∀ j ∈ w.record.lastHolder, w.record.recordOf j = none))

/-- Who changes the file is up to date. -/
def WritesUpToDate (i : ℕ) (w w' : World) : Prop :=
  w'.state ≠ w.state → ∀ seen ∈ w.current i, UpToDate w seen

instance (i : ℕ) (w w' : World) : Decidable (WritesUpToDate i w w') :=
  inferInstanceAs (Decidable (_ → _))

/-! ## The invariant -/

structure Consistent (w : World) : Prop where
  holder : ∀ i, Holds i w → w.record.lastHolder = some i
  download : w.record.downloaded → w.state.keyDownloadedAt ≠ none
  lastRun : ∀ i r, w.record.lastHolder = some i → w.record.recordOf i = some r →
    w.state.lastRun = some r
  concluded : ∀ i, w.record.lastHolder = some i → ¬ Holds i w → Alive i w → Concluded i w

section Steps

variable {i : ℕ} {w w' : World}

theorem Consistent.same (h : Consistent w) (hlock : w'.lock = w.lock)
    (hrecord : w'.record.lastHolder = w.record.lastHolder ∧
      w'.record.recordOf = w.record.recordOf ∧ w'.record.downloaded = w.record.downloaded)
    (hstate : w'.state = w.state) (hfault : w'.fault = w.fault) (hkilled : w'.killed = w.killed) :
    Consistent w' where
  holder j hj := by
    rw [Holds, hlock] at hj
    rw [hrecord.1]
    exact h.holder j hj
  download hdown := by
    rw [hrecord.2.2] at hdown
    rw [hstate]
    exact h.download hdown
  lastRun j r hj hr := by
    rw [hrecord.1] at hj
    rw [hrecord.2.1] at hr
    rw [hstate]
    exact h.lastRun j r hj hr
  concluded j hj hfree halive := by
    rw [hrecord.1] at hj
    rw [Holds, hlock] at hfree
    rw [Alive, hkilled] at halive
    rw [Concluded, CanRecord, hfault, hrecord.2.1]
    exact h.concluded j hj hfree halive

/-- The lock is let go of once the record says how the run ended, or by a crash. -/
theorem Consistent.letGo (h : Consistent w) (use : Use)
    (hdone : use = .run → Holds i w → Alive i w → Concluded i w) :
    Consistent (w.letGo use i) := by
  unfold World.letGo
  split_ifs with hlock
  · refine ⟨fun j (hj : none = _) => (by cases hj), h.download, h.lastRun, ?_⟩
    intro j hj _ halive
    by_cases hheld : Holds j w
    · have hsame : use = .run ∧ i = j := by
        rw [Holds, hlock] at hheld
        simpa using hheld
      obtain ⟨rfl, rfl⟩ := hsame
      exact hdone rfl hheld halive
    · exact h.concluded j hj hheld halive
  · exact h

theorem Consistent.saveRun (h : Consistent w) (r : LastRun) (seen : StateFile)
    (hheld : Holds i w) (hkey : seen.keyDownloadedAt = w.state.keyDownloadedAt) :
    Consistent (w.save i (setLastRun r seen) (Record.setRecordOf i r)) where
  holder := h.holder
  download hdown := by
    change seen.keyDownloadedAt ≠ none
    rw [hkey]
    exact h.download hdown
  lastRun j r' hj hr' := by
    obtain rfl := Option.some.inj ((h.holder i hheld).symm.trans hj)
    have hrecord : some r = some r' := (Function.update_self i _ _).symm.trans hr'
    exact hrecord
  concluded j hj hfree _ := by
    obtain rfl := Option.some.inj ((h.holder i hheld).symm.trans hj)
    exact absurd hheld hfree

theorem Consistent.saveRefused (h : Consistent w) (r : LastRun) (seen : StateFile)
    (hkey : seen.keyDownloadedAt = w.state.keyDownloadedAt)
    (hnone : ∀ j ∈ w.record.lastHolder, w.record.recordOf j = none) :
    Consistent (w.save i (setLastRun r seen) (Record.addRefusedRun i)) where
  holder := h.holder
  download hdown := by
    change seen.keyDownloadedAt ≠ none
    rw [hkey]
    exact h.download hdown
  lastRun j r' hj hr' := by
    have hrecord : w.record.recordOf j = some r' := hr'
    rw [hnone j hj] at hrecord
    cases hrecord
  concluded := h.concluded

theorem Consistent.saveDownload (h : Consistent w) (now : DateTime) (seen : StateFile)
    (hlast : seen.lastRun = w.state.lastRun) :
    Consistent (w.save i { seen with keyDownloadedAt := some now } Record.setDownloaded) where
  holder := h.holder
  download _ := Option.some_ne_none now
  lastRun j r hj hr := hlast.trans (h.lastRun j r hj hr)
  concluded := h.concluded

theorem Consistent.enter (h : Consistent w) (use : Use) (hfree : w.lock = none) :
    Consistent (w.enter use i) := by
  have hfree' : ∀ j, ¬ Holds j w := fun j hj => by
    rw [Holds, hfree] at hj
    cases hj
  cases use with
  | probe =>
      exact ⟨fun j hj => (by cases hj), h.download, h.lastRun,
        fun j hj _ halive => h.concluded j hj (hfree' j) halive⟩
  | run =>
      refine ⟨?_, h.download, ?_, ?_⟩
      · intro j hj
        cases hj
        rfl
      · intro j r hj hr
        obtain rfl := Option.some.inj hj
        have hnone : (none : Option LastRun) = some r := (Function.update_self i _ _).symm.trans hr
        cases hnone
      · intro j hj hout _
        obtain rfl := Option.some.inj hj
        exact absurd rfl hout

/-- A write that does not change the file changes nothing about the other field either. -/
theorem upToDate_of_same {kind : Writing} {seen : StateFile} {state : StateFile}
    (hadmits : state ≠ w.state → UpToDate w (kind, seen)) (hkind : kind ≠ .refused)
    (hother : match kind with
      | .download => state.lastRun = seen.lastRun
      | _ => state.keyDownloadedAt = seen.keyDownloadedAt) :
    UpToDate w (kind, seen) := by
  by_cases hsame : state = w.state
  · cases kind with
    | download => exact hother.symm.trans (congrArg StateFile.lastRun hsame)
    | lastRun status => exact hother.symm.trans (congrArg StateFile.keyDownloadedAt hsame)
    | refused => exact absurd rfl hkind
  · exact hadmits hsame

theorem Deed.consistent (hdeed : Deed i w w') (hadmits : WritesUpToDate i w w')
    (h : Consistent w) : Consistent w' := by
  cases hdeed with
  | audit e =>
      unfold World.addEvent
      split_ifs
      · exact h
      · exact h.same rfl ⟨rfl, rfl, rfl⟩ rfl rfl rfl
  | enter use hfree => exact h.enter use hfree
  | letGo use hdone => exact h.letGo use (fun hrun hheld _ => hdone hrun hheld)
  | saveRun r seen hheld hseen =>
      have hkey : UpToDate w (.lastRun r.status, seen) :=
        upToDate_of_same (fun hne => hadmits hne _ hseen) (by simp) rfl
      exact h.saveRun r seen hheld hkey
  | saveDownload now seen hseen =>
      have hlast : UpToDate w (.download, seen) :=
        upToDate_of_same (fun hne => hadmits hne _ hseen) (by simp) rfl
      exact h.saveDownload now seen hlast
  | saveRefused r seen hrefused hseen =>
      by_cases hsame : setLastRun r seen = w.state
      · exact h.same rfl ⟨rfl, rfl, rfl⟩ hsame rfl rfl
      · have hdate : UpToDate w (.refused, seen) := hadmits hsame _ hseen
        exact h.saveRefused r seen hdate.1 hdate.2
  | _ => exact h.same rfl ⟨rfl, rfl, rfl⟩ rfl rfl rfl

theorem Surroundings.consistent (henv : Surroundings w w') (h : Consistent w) :
    Consistent w' := by
  cases henv with
  | tick clock => exact h.same rfl ⟨rfl, rfl, rfl⟩ rfl rfl rfl
  | orphan k exits hkilled => exact h.same rfl ⟨rfl, rfl, rfl⟩ rfl rfl rfl
  | crash k =>
      have hdead : Consistent { w with killed := k :: w.killed } :=
        ⟨h.holder, h.download, h.lastRun, fun j hj hfree halive =>
          h.concluded j hj hfree (fun hmem => halive (List.mem_cons_of_mem k hmem))⟩
      have hnobody : ∀ use : Use, use = .run → ∀ t : World, t.killed = k :: w.killed →
          Alive k t → Concluded k t := by
        intro use _ t ht halive
        rw [Alive, ht] at halive
        exact absurd List.mem_cons_self halive
      rw [crash_eq]
      apply (hdead.letGo .probe (fun hrun _ _ => by cases hrun)).letGo .run
      exact fun hrun _ halive => hnobody .run hrun _ (by rw [letGo_killed]) halive

end Steps

/-! ## Runs -/

/-- Where the processes write what they have seen to be up to date and can write it, the
file keeps every update. -/
theorem updatesKept_of_upToDate {w : World} (hw : Untouched w)
    (hrecord : ∀ i, CanRecord i w) {pool : Pool Exn World Unit}
    (hruns : BackupRuns WritesUpToDate w pool) : UpdatesKept pool.state := by
  have hstart : Consistent w ∧ w.fault = w.fault := by
    refine ⟨⟨?_, ?_, ?_, ?_⟩, rfl⟩
    · intro i hi
      rw [Holds, hw.lock] at hi
      cases hi
    · intro hdown
      rw [hw.record] at hdown
      cases hdown
    · intro i r hi _
      rw [hw.record] at hi
      cases hi
    · intro i hi _ _
      rw [hw.record] at hi
      cases hi
  have hdeed : ∀ i t t', Consistent t ∧ t.fault = w.fault → Deed i t t' →
      WritesUpToDate i t t' → Consistent t' ∧ t'.fault = w.fault :=
    fun i t t' h hstep hadmits => ⟨hstep.consistent hadmits h.1, hstep.fault.trans h.2⟩
  have henv : ∀ t t', Consistent t ∧ t.fault = w.fault → Surroundings t t' →
      Consistent t' ∧ t'.fault = w.fault :=
    fun t t' h hstep => ⟨hstep.consistent h.1, hstep.fault.trans h.2⟩
  have hend := backup_invariant hdeed henv hstart hw.lock hruns
  refine ⟨hend.1.download, hend.1.lastRun, fun i hi hfree halive => ?_⟩
  apply hend.1.concluded i hi hfree halive
  rw [CanRecord, hend.2]
  exact hrecord i

/-- A directory with an identity. -/
def keyedDir : World := { newDir with identity := some "AGE-SECRET-KEY-1" }

theorem untouched_keyedDir : Untouched keyedDir := ⟨rfl, rfl, rfl⟩

/-- A download of the key and then a backup. -/
def downloadThenRun : Pool Exn World Unit :=
  (twoRequests keyedDir (.downloadKey ⟨"ann", none⟩) (.cmdRun "root")).play
    (List.replicate 10 1 ++ List.replicate 60 2)

theorem updatesKept_downloadThenRun :
    downloadThenRun.state.record.downloaded = true ∧
      downloadThenRun.state.record.lastHolder = some 2 ∧
      UpdatesKept downloadThenRun.state :=
  ⟨by decide +kernel, by decide +kernel,
    updatesKept_of_upToDate untouched_keyedDir
      (fun _ => ⟨fun _ => ⟨rfl, rfl⟩, rfl⟩) (runs_twoRequests (by decide +kernel))⟩

/-! ## Updates that are lost -/

/-- A run reads the state file, the key is downloaded, and the run writes the file. -/
def downloadDuringRun : Pool Exn World Unit :=
  (twoRequests keyedDir (.downloadKey ⟨"ann", none⟩) (.cmdRun "root")).play
    (List.replicate 8 2 ++ List.replicate 10 1 ++ List.replicate 60 2)

/-- Both have answered, and the file says that the key was never downloaded. -/
theorem download_lost :
    BackupRuns (fun _ _ _ => True) keyedDir downloadDuringRun ∧
      (1, .key "AGE-SECRET-KEY-1") ∈ downloadDuringRun.state.replies ∧
      (2, .exited 0) ∈ downloadDuringRun.state.replies ∧
      downloadDuringRun.state.record.downloaded = true ∧
      downloadDuringRun.state.state.keyDownloadedAt = none ∧
      ¬ UpdatesKept downloadDuringRun.state := by
  have hdown : downloadDuringRun.state.record.downloaded = true := by decide +kernel
  have hnone : downloadDuringRun.state.state.keyDownloadedAt = none := by decide +kernel
  exact ⟨runs_twoRequests (Pool.plays_of_forall (fun _ _ _ => trivial) _ _),
    by decide +kernel, by decide +kernel, hdown, hnone, fun hkept => hkept.download hdown hnone⟩

/-- A request passes its preflight, a command starts a run, and the request is refused. -/
def refusedDuringRun : Pool Exn World Unit :=
  (twoRequests newDir (.triggerRun ⟨"ann", none⟩) (.cmdRun "root")).play
    (List.replicate 6 1 ++ List.replicate 9 2 ++ List.replicate 20 1)

/-- The run holds the lock, and the file says that a run has failed. -/
example :
    BackupRuns (fun _ _ _ => True) newDir refusedDuringRun ∧
      Holds 2 refusedDuringRun.state ∧
      (refusedDuringRun.state.record.recordOf 2).map LastRun.status = some .running ∧
      refusedDuringRun.state.state.lastRun.map LastRun.error =
        some (some "BackupAlreadyRunning") :=
  ⟨runs_twoRequests (Pool.plays_of_forall (fun _ _ _ => trivial) _ _), by decide +kernel,
    by decide +kernel, by decide +kernel⟩

end FastTAK.Backup
