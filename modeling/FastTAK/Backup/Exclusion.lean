import FastTAK.Backup.Processes

/-!
# One run at a time

The lock keeps runs apart, whatever happens.  That a backup is running is said truly as long
as no process meets the probe of a request at the lock.
-/

namespace FastTAK.Backup

open FastTAK.Calendar FastTAK.Effect

/-- Nothing has happened, and nobody has the lock. -/
structure Untouched (w : World) : Prop where
  lock : w.lock = none
  replies : w.replies = []
  record : w.record = ⟨[], [], [], none, fun _ => none, false⟩

theorem untouched_newDir : Untouched newDir := ⟨rfl, rfl, rfl⟩

/-! ## Exclusion -/

/-- The runs that the lock lets in. -/
def letIn : Option Holder → List ℕ
  | some ⟨.run, i⟩ => [i]
  | _ => []

theorem length_letIn (lock : Option Holder) : (letIn lock).length ≤ 1 := by
  match lock with
  | none => exact Nat.zero_le 1
  | some ⟨.probe, i⟩ => exact Nat.zero_le 1
  | some ⟨.run, i⟩ => exact le_refl 1

/-- The runs between acquisition and release are those that the lock lets in. -/
def LockedIn (w : World) : Prop := w.record.inside = letIn w.lock

theorem LockedIn.letGo {w : World} (h : LockedIn w) (use : Use) (i : ℕ) :
    LockedIn (w.letGo use i) := by
  unfold LockedIn World.letGo
  split_ifs with hlock
  · change w.record.inside.filter (· ≠ i) = []
    rw [h, hlock]
    cases use <;> simp [letIn]
  · exact h

theorem Deed.lockedIn {i : ℕ} {w w' : World} (hdeed : Deed i w w') (h : LockedIn w) :
    LockedIn w' := by
  cases hdeed with
  | letGo use hdone => exact h.letGo use i
  | enter use hfree =>
      rw [LockedIn, hfree] at h
      cases use with
      | probe => exact h
      | run => exact congrArg (i :: ·) h
  | audit e =>
      unfold World.addEvent
      split_ifs <;> exact h
  | _ => exact h

theorem Surroundings.lockedIn {w w' : World} (henv : Surroundings w w') (h : LockedIn w) :
    LockedIn w' := by
  cases henv with
  | tick clock => exact h
  | crash i => exact (h.letGo .probe i).letGo .run i
  | orphan i exits hkilled => exact h

/-- In every run of any processes there is at most one run inside. -/
theorem at_most_one_inside {admits : ℕ → World → World → Prop} {w : World}
    (hw : Untouched w) {pool : Pool Exn World Unit} (hruns : BackupRuns admits w pool) :
    pool.state.record.inside.length ≤ 1 := by
  have hstart : LockedIn w := by
    rw [LockedIn, hw.lock, hw.record]
    rfl
  have hinside := backup_invariant (fun _ _ _ h hdeed _ => hdeed.lockedIn h)
    (fun _ _ h henv => henv.lockedIn h) hstart hw.lock hruns
  rw [hinside]
  exact length_letIn _

/-! ## What is said -/

/-- The process reported that a backup was running. -/
def SaidRunning (i : ℕ) (w : World) : Prop :=
  (∃ reply, (i, reply) ∈ w.replies ∧ reply.saysRunning) ∨ i ∈ w.record.refusedRuns

/-- The process was refused while a run held the lock. -/
def RefusedByRun (i : ℕ) (w : World) : Prop := ∃ j, (i, ⟨.run, j⟩) ∈ w.record.refusals

/-- Whoever is refused the lock is refused by a run, not by the probe of a request. -/
def MeetsNoProbe (_ : ℕ) (w w' : World) : Prop :=
  w'.record.refusals ≠ w.record.refusals → ∀ holder ∈ w.lock, holder.use = .run

instance (i : ℕ) (w w' : World) : Decidable (MeetsNoProbe i w w') :=
  inferInstanceAs (Decidable (_ → _))

/-- Only who was refused reports it, and all refusals are by runs. -/
structure Honest (w : World) : Prop where
  said : ∀ i, SaidRunning i w → Refused i w
  byRuns : ∀ refusal ∈ w.record.refusals, refusal.2.use = .run

theorem Honest.refusedByRun {w : World} (h : Honest w) {i : ℕ} (hi : SaidRunning i w) :
    RefusedByRun i w := by
  obtain ⟨⟨use, j⟩, hmem⟩ := h.said i hi
  obtain rfl : use = .run := h.byRuns _ hmem
  exact ⟨j, hmem⟩

theorem Honest.same {w w' : World} (h : Honest w) (hreplies : w'.replies = w.replies)
    (hruns : w'.record.refusedRuns = w.record.refusedRuns)
    (hrefusals : w'.record.refusals = w.record.refusals) : Honest w' where
  said i hi := by
    rw [SaidRunning, hreplies, hruns] at hi
    rw [Refused, hrefusals]
    exact h.said i hi
  byRuns refusal hmem := h.byRuns refusal (hrefusals ▸ hmem)

theorem Honest.letGo {w : World} (h : Honest w) (use : Use) (i : ℕ) :
    Honest (w.letGo use i) := by
  unfold World.letGo
  split_ifs
  · exact h.same rfl rfl rfl
  · exact h

theorem Deed.honest {i : ℕ} {w w' : World} (hdeed : Deed i w w')
    (hadmits : MeetsNoProbe i w w') (h : Honest w) : Honest w' := by
  cases hdeed with
  | audit e =>
      unfold World.addEvent
      split_ifs
      · exact h
      · exact h.same rfl rfl rfl
  | answer reply hreply =>
      refine ⟨fun j hj => ?_, h.byRuns⟩
      cases hj with
      | inr hrun => exact h.said j (Or.inr hrun)
      | inl hreplied =>
          obtain ⟨said, hmem, hsays⟩ := hreplied
          cases List.mem_append.mp hmem with
          | inl hbefore => exact h.said j (Or.inl ⟨said, hbefore, hsays⟩)
          | inr hnow =>
              obtain ⟨rfl, rfl⟩ := Prod.mk.inj (List.mem_singleton.mp hnow)
              exact hreply hsays
  | saveRefused r seen hrefused hseen =>
      refine ⟨fun j hj => ?_, h.byRuns⟩
      cases hj with
      | inl hreplied => exact h.said j (Or.inl hreplied)
      | inr hrun =>
          cases List.mem_cons.mp hrun with
          | inl hme => exact hme ▸ hrefused
          | inr hbefore => exact h.said j (Or.inr hbefore)
  | enter use hfree =>
      cases use with
      | probe => exact h.same rfl rfl rfl
      | run => exact h.same rfl rfl rfl
  | refuse holder hheld =>
      have hrun : holder.use = .run := by
        apply hadmits _ holder hheld
        exact fun hsame => List.cons_ne_self _ _ hsame
      refine ⟨fun j hj => ?_, fun refusal hmem => ?_⟩
      · obtain ⟨other, hmem⟩ := h.said j hj
        exact ⟨other, List.mem_cons_of_mem _ hmem⟩
      · cases List.mem_cons.mp hmem with
        | inl hnew => exact hnew ▸ hrun
        | inr hbefore => exact h.byRuns refusal hbefore
  | letGo use hdone => exact h.letGo use i
  | _ => exact h.same rfl rfl rfl

theorem Surroundings.honest {w w' : World} (henv : Surroundings w w') (h : Honest w) :
    Honest w' := by
  cases henv with
  | tick clock => exact h.same rfl rfl rfl
  | crash i => exact ((h.letGo .probe i).letGo .run i).same rfl rfl rfl
  | orphan i exits hkilled => exact h.same rfl rfl rfl

/-- A command runs a backup, and another is refused meanwhile. -/
def runBesideRun : Pool Exn World Unit :=
  (twoRequests newDir (.cmdRun "root") (.cmdRun "root")).play
    (List.replicate 20 1 ++ List.replicate 20 2)

/-- Two requests for a run arrive together.  The second meets the probe of the first. -/
def probesMeet : Pool Exn World Unit :=
  (twoRequests newDir (.triggerRun ⟨"ann", none⟩) (.triggerRun ⟨"bob", none⟩)).play
    ([1, 1, 1] ++ List.replicate 8 2)

end FastTAK.Backup
