import FastTAK.Backup.Exclusion

/-!
# What is listed is complete

An archive gets its final name only from the run that wrote it, after the pipeline has ended
well.  So the listed files are complete, unless a run writes into a partial file that the
pipeline of a killed run still has open.
-/

namespace FastTAK.Backup

open FastTAK.Calendar FastTAK.Effect

/-- No pipeline has anything to do with the file. -/
def Entry.Foreign (entry : Entry) : Prop := entry.content = .other ∧ entry.writers = []

/-- A pipeline has put something out, but not all. -/
def Entry.Truncated (entry : Entry) : Prop := ¬ entry.Foreign ∧ ¬ entry.Complete

/-- The listed files are complete, and truncated ones have the names of partial files. -/
structure ListedComplete (disk : Disk) : Prop where
  listed : ∀ name entry, disk.lookup name = some entry → stampOf name ≠ none → entry.Complete
  truncated : ∀ name entry, disk.lookup name = some entry → entry.Truncated →
    ∃ base, name = base ++ ".partial"

/-- A file gets another writer only when it has none. -/
def OpensAlone (_ : ℕ) (w w' : World) : Prop :=
  ∀ file ∈ w.disk.entries, ∀ entry' ∈ w'.disk.lookup file.1,
    file.2.writers.length < entry'.writers.length → file.2.writers = []

instance (i : ℕ) (w w' : World) : Decidable (OpensAlone i w w') :=
  inferInstanceAs (Decidable (∀ file ∈ w.disk.entries, _))

/-! ## The invariant -/

/-- Also, no file was written by two pipelines. -/
structure Sound (disk : Disk) : Prop extends ListedComplete disk where
  unmixed : ∀ name entry, disk.lookup name = some entry → entry.content ≠ .mixed

section Steps

variable {i : ℕ} {w w' : World} {disk : Disk}

theorem Sound.erase (h : Sound disk) (name : String) : Sound (disk.erase name) := by
  have hbefore : ∀ other entry, (disk.erase name).lookup other = some entry →
      disk.lookup other = some entry := by
    intro other entry hentry
    by_cases hother : other = name
    · rw [hother, AList.lookup_erase] at hentry
      cases hentry
    · rwa [AList.lookup_erase_ne hother] at hentry
  exact
    { listed := fun other entry hentry => h.listed other entry (hbefore other entry hentry)
      truncated := fun other entry hentry => h.truncated other entry (hbefore other entry hentry)
      unmixed := fun other entry hentry => h.unmixed other entry (hbefore other entry hentry) }

theorem Sound.insert (h : Sound disk) {name : String} {entry : Entry}
    (hlisted : stampOf name ≠ none → entry.Complete)
    (htruncated : entry.Truncated → ∃ base, name = base ++ ".partial")
    (hunmixed : entry.content ≠ .mixed) : Sound (disk.insert name entry) := by
  have hcases : ∀ other found, (disk.insert name entry).lookup other = some found →
      other = name ∧ found = entry ∨ disk.lookup other = some found := by
    intro other found hfound
    by_cases hother : other = name
    · subst hother
      rw [AList.lookup_insert] at hfound
      exact Or.inl ⟨rfl, (Option.some.inj hfound).symm⟩
    · rw [AList.lookup_insert_ne hother] at hfound
      exact Or.inr hfound
  constructor
  · constructor
    · intro other found hfound
      cases hcases other found hfound with
      | inl hnew => exact hnew.1 ▸ hnew.2 ▸ hlisted
      | inr hold => exact h.listed other found hold
    · intro other found hfound
      cases hcases other found hfound with
      | inl hnew => exact hnew.1 ▸ hnew.2 ▸ htruncated
      | inr hold => exact h.truncated other found hold
  · intro other found hfound
    cases hcases other found hfound with
    | inl hnew => exact hnew.2 ▸ hunmixed
    | inr hold => exact h.unmixed other found hold

/-- The end of a pipeline leaves alone a file that nobody writes. -/
theorem closeOutput_of_writers {entry : Entry} (hentry : entry.writers = [])
    (exits : Option Exits) (size : ℕ) (now : ℤ) :
    closeOutput i exits size now entry = entry := by
  unfold closeOutput
  rw [hentry]
  exact if_neg List.not_mem_nil

theorem closeOutput_unmixed {entry : Entry} (hentry : entry.content ≠ .mixed)
    (exits : Option Exits) (size : ℕ) (now : ℤ) :
    (closeOutput i exits size now entry).content ≠ .mixed := by
  unfold closeOutput
  split_ifs
  · cases exits with
    | none => exact hentry
    | some exits => simp
  · exact hentry

theorem Sound.pipelineEnds (h : Sound w.disk) (exits : Option Exits) :
    Sound (endPipeline i exits w).disk := by
  have hbefore : ∀ name entry', (endPipeline i exits w).disk.lookup name = some entry' →
      ∃ entry, w.disk.lookup name = some entry ∧
        closeOutput i exits (w.size i) w.clock.seconds entry = entry' := by
    intro name entry' hentry'
    rw [endPipeline, World.setDisk, lookup_mapFiles] at hentry'
    exact Option.map_eq_some_iff.mp hentry'
  constructor
  · constructor
    · intro name entry' hentry' hname
      obtain ⟨entry, hentry, rfl⟩ := hbefore name entry' hentry'
      have hcomplete := h.listed name entry hentry hname
      rwa [closeOutput_of_writers hcomplete.2]
    · intro name entry' hentry' htruncated
      obtain ⟨entry, hentry, rfl⟩ := hbefore name entry' hentry'
      apply h.truncated name entry hentry
      refine ⟨fun hforeign => ?_, fun hcomplete => ?_⟩
      · rw [closeOutput_of_writers hforeign.2] at htruncated
        exact htruncated.1 hforeign
      · rw [closeOutput_of_writers hcomplete.2] at htruncated
        exact htruncated.2 hcomplete
  · intro name entry' hentry'
    obtain ⟨entry, hentry, rfl⟩ := hbefore name entry' hentry'
    exact closeOutput_unmixed (h.unmixed name entry hentry) _ _ _

/-- A pipeline that opens a file no other has open is its only writer. -/
theorem Sound.opensOutput {base : String}
    (hadmits : OpensAlone i w (openOutput i (base ++ ".partial") w)) (h : Sound w.disk) :
    Sound (openOutput i (base ++ ".partial") w).disk := by
  have hnone : ((w.disk.lookup (base ++ ".partial")).map Entry.writers).getD [] = [] := by
    cases hentry : w.disk.lookup (base ++ ".partial") with
    | none => rfl
    | some entry =>
        apply hadmits ⟨_, entry⟩ (AList.mem_lookup_iff.mp hentry) _
          (AList.lookup_insert w.disk)
        simp [hentry]
  apply h.insert
  · exact fun hlisted => absurd (stampOf_partialName base) hlisted
  · exact fun _ => ⟨base, rfl⟩
  · rw [if_pos hnone]
    simp

theorem Deed.sound (hdeed : Deed i w w') (hadmits : OpensAlone i w w') (h : Sound w.disk) :
    Sound w'.disk := by
  cases hdeed with
  | erase name => exact h.erase name
  | endPipeline exits => exact h.pipelineEnds exits
  | openOutput base hheld => exact h.opensOutput hadmits
  | replace source target entry hheld hsource hentry =>
      have hcomplete : entry.Complete :=
        hentry.resolve_left (h.unmixed source entry hsource)
      apply (h.erase source).insert (fun _ => hcomplete)
      · exact fun htruncated => absurd hcomplete htruncated.2
      · exact h.unmixed source entry hsource
  | sidecar name entry hheld hname hentry =>
      apply h.insert (fun hlisted => absurd hname hlisted)
      · exact fun htruncated => absurd hentry htruncated.1
      · rw [hentry.1]
        simp
  | audit e =>
      unfold World.addEvent
      split_ifs <;> exact h
  | letGo use hdone =>
      unfold World.letGo
      split_ifs <;> exact h
  | _ => exact h

theorem Surroundings.sound (henv : Surroundings w w') (h : Sound w.disk) : Sound w'.disk := by
  cases henv with
  | tick clock => exact h
  | orphan k exits hkilled => exact h.pipelineEnds exits
  | crash k =>
      unfold World.crash World.letGo
      split_ifs <;> exact h

end Steps

/-! ## Runs -/

/-- Where no run writes into a file that another pipeline has open, the listed files are
complete, whatever fails and whoever is killed. -/
theorem listedComplete_of_opensAlone {w : World} (hlock : w.lock = none) (hw : Sound w.disk)
    {pool : Pool Exn World Unit} (hruns : BackupRuns OpensAlone w pool) :
    ListedComplete pool.state.disk := by
  have hsound := backup_invariant (fun _ _ _ h hdeed hadmits => hdeed.sound hadmits h)
    (fun _ _ h henv => henv.sound h) hw hlock hruns
  exact hsound.toListedComplete

theorem sound_empty : Sound ∅ where
  listed name entry hentry := by cases hentry
  truncated name entry hentry := by cases hentry
  unmixed name entry hentry := by cases hentry

/-- A run is killed while its pipeline writes. -/
def crashedRun (clock : DateTime) : Pool Exn World Unit :=
  let writing := (twoRequests newDir (.cmdRun "root") (.cmdRun "root")).play
    (List.replicate 27 1)
  ⟨{ writing.state.crash 1 with clock := clock }, writing.threads⟩

/-- Another run starts at the given time. -/
def crashThenRun (clock : DateTime) : Pool Exn World Unit :=
  (crashedRun clock).play (List.replicate 60 2)

theorem runs_crashThenRun {admits : ℕ → World → World → Prop} (clock : DateTime)
    (hfirst : Pool.Plays admits (List.replicate 27 1)
      (twoRequests newDir (.cmdRun "root") (.cmdRun "root")))
    (hsecond : Pool.Plays admits (List.replicate 60 2) (crashedRun clock)) :
    BackupRuns admits newDir (crashThenRun clock) := by
  apply Relation.ReflTransGen.trans _ (Pool.runs_play hsecond)
  exact ((runs_twoRequests hfirst).tail (.env (.crash 1))).tail (.env (.tick clock))

def nextSecond : DateTime := ⟨⟨2026, 5, 1, 12, 0, 1⟩, by decide⟩

theorem listedComplete_nextSecond :
    (2, .exited 0) ∈ (crashThenRun nextSecond).state.replies ∧
      "fasttak-backup-20260501T120000Z-dev.age.partial" ∈ (crashThenRun nextSecond).state.disk ∧
      ListedComplete (crashThenRun nextSecond).state.disk :=
  ⟨by decide +kernel, by decide +kernel, listedComplete_of_opensAlone rfl sound_empty
    (runs_crashThenRun nextSecond (by decide +kernel) (by decide +kernel))⟩

/-- A run in the second of one that was killed reports an archive that both pipelines
wrote. -/
theorem mixed_archive_listed :
    BackupRuns (fun _ _ _ => True) newDir (crashThenRun newDir.clock) ∧
      (2, .exited 0) ∈ (crashThenRun newDir.clock).state.replies ∧
      ((crashThenRun newDir.clock).state.disk.lookup
        "fasttak-backup-20260501T120000Z-dev.age").map Entry.content = some .mixed ∧
      (stampOf "fasttak-backup-20260501T120000Z-dev.age").isSome ∧
      ¬ ListedComplete (crashThenRun newDir.clock).state.disk := by
  have hmixed : ((crashThenRun newDir.clock).state.disk.lookup
      "fasttak-backup-20260501T120000Z-dev.age").map Entry.content = some .mixed := by
    decide +kernel
  have hlisted : (stampOf "fasttak-backup-20260501T120000Z-dev.age").isSome := by
    decide +kernel
  have hadmits : ∀ (schedule : List ℕ) (pool : Pool Exn World Unit),
      Pool.Plays (fun _ _ _ => True) schedule pool :=
    Pool.plays_of_forall (fun _ _ _ => trivial)
  refine ⟨runs_crashThenRun newDir.clock (hadmits _ _) (hadmits _ _), by decide +kernel,
    hmixed, hlisted, fun hcomplete => ?_⟩
  obtain ⟨entry, hentry, hcontent⟩ := Option.map_eq_some_iff.mp hmixed
  have hwhole := hcomplete.listed _ entry hentry (Option.isSome_iff_ne_none.mp hlisted)
  rw [hwhole.1] at hcontent
  cases hcontent

end FastTAK.Backup
