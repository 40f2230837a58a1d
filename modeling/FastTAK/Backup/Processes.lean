import FastTAK.Backup.Guarantee
import FastTAK.Base.Pool

/-!
# Backup processes together

Any number of requests and commands take turns, the clock moves, processes are killed, which
frees the lock, and the pipelines of killed processes end when they end.
-/

namespace FastTAK.Backup

open FastTAK.Calendar FastTAK.Effect

/-! ## Surroundings -/

def Alive (i : ℕ) (w : World) : Prop := i ∉ w.killed

instance (i : ℕ) : DecidablePred (Alive i) := fun w => inferInstanceAs (Decidable (i ∉ w.killed))

/-- A process is killed, and the system closes its descriptors. -/
def World.crash (i : ℕ) (w : World) : World :=
  { (w.letGo .probe i).letGo .run i with killed := i :: w.killed }

/-- What happens besides the requests of living processes. -/
inductive Surroundings (w : World) : World → Prop
  | tick (clock : DateTime) : Surroundings w { w with clock := clock }
  | crash (i : ℕ) : Surroundings w (w.crash i)
  | orphan (i : ℕ) (exits : Option Exits) (hkilled : ¬ Alive i w) :
      Surroundings w (endPipeline i exits w)

/-- The processes: requests that stop when they are killed. -/
def Starts (i : ℕ) (p : Task Unit) : Prop :=
  ∃ request : Request, p = (request.program i).mortal (Alive i)

/-! ## What a deed leaves to the others -/

section Others

variable {i j : ℕ} {w w' : World}

@[simp]
theorem setDisk_killed (f : Disk → Disk) : (w.setDisk f).killed = w.killed := rfl

@[simp]
theorem addEvent_killed (e : Event) : (w.addEvent i e).killed = w.killed := by
  unfold World.addEvent
  split_ifs <;> rfl

@[simp]
theorem letGo_killed (use : Use) : (w.letGo use i).killed = w.killed := by
  unfold World.letGo
  split_ifs <;> rfl

theorem Deed.killed (h : Deed i w w') : w'.killed = w.killed := by
  cases h with
  | audit e => exact addEvent_killed e
  | letGo use hdone => exact letGo_killed use
  | _ => rfl

@[simp]
theorem letGo_fault (use : Use) : (w.letGo use i).fault = w.fault := by
  unfold World.letGo
  split_ifs <;> rfl

theorem Deed.fault (h : Deed i w w') : w'.fault = w.fault := by
  cases h with
  | audit e =>
      unfold World.addEvent
      split_ifs <;> rfl
  | letGo use hdone => exact letGo_fault use
  | _ => rfl

theorem Surroundings.fault (h : Surroundings w w') : w'.fault = w.fault := by
  cases h with
  | tick clock => rfl
  | crash k => exact (letGo_fault .run).trans (letGo_fault .probe)
  | orphan k exits hkilled => rfl

/-- It does not matter in which order a killed process dies and lets go. -/
theorem crash_eq (k : ℕ) (w : World) :
    w.crash k = (({ w with killed := k :: w.killed } : World).letGo .probe k).letGo .run k := by
  unfold World.crash World.letGo
  by_cases hprobe : w.lock = some ⟨.probe, k⟩
  · simp [hprobe]
  · by_cases hrun : w.lock = some ⟨.run, k⟩
    · simp [hrun]
    · simp [hprobe, hrun]

/-- A world that differs from another in what its processes do not rely on. -/
theorem rely_of_knows (hknows : Knows j w w') (hdisk : w'.disk = w.disk)
    (hcurrent : w'.current j = w.current j) : Rely j w w' where
  toKnows := hknows
  current := hcurrent
  files _ name entry' hentry' := by
    rw [hdisk] at hentry'
    exact ⟨entry', hentry', id, fun _ => rfl⟩

theorem rely_erase (name : String) : Rely j w (w.setDisk (AList.erase name)) where
  toKnows := knows_same rfl rfl rfl
  current := rfl
  files _ other entry' hentry' := by
    rw [World.setDisk] at hentry'
    by_cases hother : other = name
    · subst hother
      rw [AList.lookup_erase] at hentry'
      cases hentry'
    · rw [AList.lookup_erase_ne hother] at hentry'
      exact ⟨entry', hentry', id, fun _ => rfl⟩

/-- The end of a pipeline changes only the files that it had open. -/
theorem rely_endPipeline (hne : i ≠ j) (exits : Option Exits) :
    Rely j w (endPipeline i exits w) where
  toKnows := knows_same rfl rfl rfl
  current := rfl
  files _ name entry' hentry' := by
    rw [endPipeline, World.setDisk, lookup_mapFiles] at hentry'
    obtain ⟨entry, hentry, rfl⟩ := Option.map_eq_some_iff.mp hentry'
    refine ⟨entry, hentry, fun hmixed => ?_, fun hown => ?_⟩
    · unfold closeOutput
      split_ifs
      · cases exits with
        | none => exact hmixed
        | some exits => rfl
      · exact hmixed
    · exact if_neg (fun hmem => hne (hown i hmem))

theorem rely_letGo (hne : i ≠ j) (use : Use) : Rely j w (w.letGo use i) := by
  unfold World.letGo
  split_ifs with hlock
  · refine rely_of_knows ⟨fun use' => ?_, rfl, fun _ h => h, rfl⟩ rfl rfl
    rw [hlock]
    simp [hne]
  · exact refl_of (Rely j) w

theorem rely_save (hne : i ≠ j) (state : StateFile) (note : Record → Record)
    (hrecord : (note w.record).recordOf j = w.record.recordOf j)
    (hrefusals : (note w.record).refusals = w.record.refusals) :
    Rely j w (w.save i state note) := by
  apply rely_of_knows
  · exact ⟨fun _ => Iff.rfl, hrecord, fun holder h => hrefusals.symm ▸ h, rfl⟩
  · rfl
  · exact Function.update_of_ne hne.symm _ _

/-- No deed of a process touches what another relies on. -/
theorem Deed.rely (h : Deed i w w') (hne : i ≠ j) : Rely j w w' := by
  have hother : Holds i w → Holds j w → False := fun hi hj => by
    unfold Holds at hi hj
    rw [hi] at hj
    simp [hne] at hj
  cases h with
  | idle => exact refl_of (Rely j) w
  | stage staging => exact rely_of_knows (knows_same rfl rfl rfl) rfl rfl
  | learn identity => exact rely_of_knows (knows_same rfl rfl rfl) rfl rfl
  | audit e =>
      unfold World.addEvent
      split_ifs
      · exact refl_of (Rely j) w
      · exact rely_of_knows (knows_same rfl rfl rfl) rfl rfl
  | answer reply hreply => exact rely_of_knows (knows_same rfl rfl rfl) rfl rfl
  | look seen =>
      exact rely_of_knows (knows_same rfl rfl rfl) rfl (Function.update_of_ne hne.symm _ _)
  | saveRun r seen hheld hseen =>
      exact rely_save hne _ _ (Function.update_of_ne hne.symm _ _) rfl
  | saveRefused r seen hrefused hseen => exact rely_save hne _ _ rfl rfl
  | saveDownload now seen hseen => exact rely_save hne _ _ rfl rfl
  | enter use hfree =>
      refine rely_of_knows ⟨fun use' => ?_, ?_, ?_, rfl⟩ rfl rfl
      · rw [hfree]
        simp [World.enter, hne]
      · cases use with
        | probe => rfl
        | run => exact Function.update_of_ne hne.symm _ _
      · cases use with
        | probe => exact fun _ h => h
        | run => exact fun _ h => h
  | refuse holder hheld =>
      exact rely_of_knows ⟨fun _ => Iff.rfl, rfl, fun _ h => List.mem_cons_of_mem _ h, rfl⟩
        rfl rfl
  | letGo use hdone => exact rely_letGo hne use
  | erase name => exact rely_erase name
  | endPipeline exits => exact rely_endPipeline hne exits
  | openOutput base hheld =>
      exact ⟨knows_same rfl rfl rfl, rfl, fun hj => (hother hheld hj).elim⟩
  | replace source target entry hheld hsource hentry =>
      exact ⟨knows_same rfl rfl rfl, rfl, fun hj => (hother hheld hj).elim⟩
  | sidecar name entry hheld hname hentry =>
      exact ⟨knows_same rfl rfl rfl, rfl, fun hj => (hother hheld hj).elim⟩

theorem rely_crash (hne : i ≠ j) : Rely j w (w.crash i) := by
  have hfreed : Rely j w ((w.letGo .probe i).letGo .run i) :=
    trans_of (Rely j) (rely_letGo hne .probe) (rely_letGo hne .run)
  have hknows := hfreed.toKnows
  exact ⟨⟨hknows.lock, hknows.recordOf, hknows.refusals, hknows.fault⟩, hfreed.current,
    hfreed.files⟩

end Others

/-! ## The pool -/

/-- A process that starts does not hold the lock. -/
def Fresh (i : ℕ) (w : World) : Prop := Alive i w → ¬ Holds i w

theorem backup_cooperates :
    Pool.Cooperates Fresh (fun i => Prog.WhileAlive (Alive i) (Rely i)) Deed Starts
      Surroundings where
  starts := by
    intro i p hstarts w hfresh
    obtain ⟨request, rfl⟩ := hstarts
    exact (Prog.Meets.mortal (fun _ => .idle)
      (fun halive => keeps_request request (hfresh halive))).mono (fun _ _ _ => trivial)
  fresh := by
    intro i w w' hfresh hrely halive' hheld
    obtain ⟨halive, hrely⟩ := hrely halive'
    exact hfresh halive (hrely.holds.mp hheld)
  env := by
    intro i w w' henv halive'
    cases henv with
    | tick clock => exact ⟨halive', rely_of_knows (knows_same rfl rfl rfl) rfl rfl⟩
    | crash k =>
        have hne : k ≠ i := fun hsame => halive' (by simp [World.crash, hsame])
        refine ⟨fun hkilled => halive' ?_, rely_crash hne⟩
        exact List.mem_cons_of_mem k hkilled
    | orphan k exits hkilled =>
        have hne : k ≠ i := by
          rintro rfl
          exact hkilled halive'
        exact ⟨halive', rely_endPipeline hne exits⟩
  others := by
    intro i j hne w w' hdeed halive'
    refine ⟨?_, hdeed.rely hne⟩
    rw [Alive, hdeed.killed] at halive'
    exact halive'

/-- The runs of backup processes. -/
abbrev BackupRuns (admits : ℕ → World → World → Prop) (w : World) (pool : Pool Exn World Unit) :
    Prop :=
  Pool.Runs Starts Surroundings admits (.idle w) pool

/-- What the deeds of the processes and the surroundings preserve holds in every state. -/
theorem backup_invariant {admits : ℕ → World → World → Prop} {Inv : World → Prop}
    (hdeed : ∀ i w w', Inv w → Deed i w w' → admits i w w' → Inv w')
    (henv : ∀ w w', Inv w → Surroundings w w' → Inv w') {w : World} (hw : Inv w)
    (hfree : w.lock = none) {pool : Pool Exn World Unit} (hruns : BackupRuns admits w pool) :
    Inv pool.state := by
  have hfresh : ∀ i, Fresh i w := fun i _ hheld => by
    rw [Holds, hfree] at hheld
    cases hheld
  exact (Pool.runs_invariant backup_cooperates henv hdeed hw hfresh hruns).1

/-- Two requests at once. -/
def twoRequests (w : World) (first second : Request) : Pool Exn World Unit :=
  ((Pool.idle w).setThread 1 ((first.program 1).mortal (Alive 1))).setThread 2
    ((second.program 2).mortal (Alive 2))

theorem runs_twoRequests {admits : ℕ → World → World → Prop} {w : World}
    {first second : Request} {schedule : List ℕ}
    (hplays : Pool.Plays admits schedule (twoRequests w first second)) :
    BackupRuns admits w ((twoRequests w first second).play schedule) :=
  .trans (.trans (.single (.start 1 ⟨first, rfl⟩ rfl)) (.single (.start 2 ⟨second, rfl⟩ rfl)))
    (Pool.runs_play hplays)

end FastTAK.Backup
