import FastTAK.Backup.Pruned
import FastTAK.Backup.Retained
import FastTAK.Backup.Requests

/-!
# Archives and their sidecars

A run writes the checksum of its archive beside it, and retention removes the two together.
What else makes, replaces or removes an archive has to keep the pair together too.
-/

namespace FastTAK.Backup

open FastTAK.Calendar FastTAK.Effect FastTAK.Text Prog

/-! ## Pairs -/

def IsSidecar (name : String) : Prop := ".sha256".toList <:+ name.toList

/-- The run whose output is in a file. -/
def runOf (disk : Disk) (name : String) : Option ℕ := (disk.lookup name).map Entry.run

def attestsOf (disk : Disk) (name : String) : Option (Option (ℕ × String)) :=
  (disk.lookup name).map Entry.attests

/-- The sidecar of an archive that is there, with the digest and the name of the archive. -/
def Attested (disk : Disk) (name : String) : Prop :=
  ∃ archive run, name = archive ++ ".sha256" ∧ Archival archive ∧
    runOf disk archive = some run ∧ attestsOf disk name = some (some (run, archive))

/-- Every sidecar belongs to its archive, but perhaps one. -/
def Belong (loose : Option String) (disk : Disk) : Prop :=
  ∀ name ∈ disk, IsSidecar name → some name ≠ loose → Attested disk name

section Pairs

variable {loose loose' : Option String} {disk disk' : Disk} {name archive : String}

theorem isSidecar_append (archive : String) : IsSidecar (archive ++ ".sha256") := by
  rw [IsSidecar, String.toList_append]
  exact List.suffix_append _ _

theorem getLast_of_isSidecar (h : IsSidecar name) : name.toList.getLast? = some '6' := by
  obtain ⟨lead, hlead⟩ := h
  rw [← hlead, List.getLast?_append]
  rfl

theorem not_isSidecar_of_archival (h : Archival name) : ¬ IsSidecar name := by
  intro hsidecar
  rw [Archival, getLast_of_isSidecar hsidecar] at h
  exact absurd h (by decide)

theorem mem_iff_attestsOf : name ∈ disk ↔ attestsOf disk name ≠ none := by
  rw [attestsOf, Ne, Option.map_eq_none_iff, AList.lookup_eq_none, not_not]

/-- What is the same of the sidecars that count and of their archives. -/
theorem Belong.of_agrees (h : Belong loose disk)
    (hattests' : ∀ name ∈ disk', IsSidecar name → some name ≠ loose' →
      some name ≠ loose ∧ attestsOf disk' name = attestsOf disk name)
    (hruns : ∀ archive, Archival archive → some (archive ++ ".sha256") ≠ loose' →
      runOf disk' archive = runOf disk archive) : Belong loose' disk' := by
  intro name hmem hsidecar hcounts
  obtain ⟨hcounted, hsame⟩ := hattests' name hmem hsidecar hcounts
  rw [mem_iff_attestsOf, hsame, ← mem_iff_attestsOf] at hmem
  obtain ⟨archive, run, rfl, harchive, hrun, hattests⟩ := h name hmem hsidecar hcounted
  exact ⟨archive, run, rfl, harchive, (hruns archive harchive hcounts).trans hrun,
    hsame.trans hattests⟩

theorem attestsOf_erase_ne {other : String} (hne : name ≠ other) :
    attestsOf (disk.erase other) name = attestsOf disk name := by
  rw [attestsOf, AList.lookup_erase_ne hne, attestsOf]

theorem runOf_erase_ne {other : String} (hne : name ≠ other) :
    runOf (disk.erase other) name = runOf disk name := by
  rw [runOf, AList.lookup_erase_ne hne, runOf]

theorem attestsOf_insert_ne {other : String} {entry : Entry} (hne : name ≠ other) :
    attestsOf (disk.insert other entry) name = attestsOf disk name := by
  rw [attestsOf, AList.lookup_insert_ne hne, attestsOf]

theorem runOf_insert_ne {other : String} {entry : Entry} (hne : name ≠ other) :
    runOf (disk.insert other entry) name = runOf disk name := by
  rw [runOf, AList.lookup_insert_ne hne, runOf]

/-- The archive goes, and its sidecar stays behind. -/
theorem Belong.erase_archive (h : Belong none disk) (harchive : Archival archive) :
    Belong (some (archive ++ ".sha256")) (disk.erase archive) := by
  apply h.of_agrees
  · intro name _ hsidecar _
    refine ⟨Option.some_ne_none name, attestsOf_erase_ne ?_⟩
    rintro rfl
    exact not_isSidecar_of_archival harchive hsidecar
  · intro other _ hcounts
    apply runOf_erase_ne
    rintro rfl
    exact hcounts rfl

/-- The archive is replaced, and its sidecar is that of the one before. -/
theorem Belong.insert_archive (h : Belong none disk) (harchive : Archival archive)
    (entry : Entry) : Belong (some (archive ++ ".sha256")) (disk.insert archive entry) := by
  apply h.of_agrees
  · intro name _ hsidecar _
    refine ⟨Option.some_ne_none name, attestsOf_insert_ne ?_⟩
    rintro rfl
    exact not_isSidecar_of_archival harchive hsidecar
  · intro other _ hcounts
    apply runOf_insert_ne
    rintro rfl
    exact hcounts rfl

theorem Belong.erase_sidecar (h : Belong (some (archive ++ ".sha256")) disk) :
    Belong none (disk.erase (archive ++ ".sha256")) := by
  apply h.of_agrees
  · intro name hmem _ _
    have hne : name ≠ archive ++ ".sha256" := (AList.mem_erase.mp hmem).1
    exact ⟨fun hsame => hne (Option.some.inj hsame), attestsOf_erase_ne hne⟩
  · intro other hother _
    apply runOf_erase_ne
    rintro rfl
    exact not_isSidecar_of_archival hother (isSidecar_append archive)

theorem Belong.of_absent (h : Belong (some (archive ++ ".sha256")) disk)
    (habsent : archive ++ ".sha256" ∉ disk) : Belong none disk := by
  apply h.of_agrees
  · intro name hmem _ _
    refine ⟨?_, rfl⟩
    intro hsame
    exact habsent (Option.some.inj hsame ▸ hmem)
  · exact fun _ _ _ => rfl

/-- The sidecar is written for the archive that is there. -/
theorem Belong.insert_sidecar (h : Belong (some (archive ++ ".sha256")) disk)
    (harchive : Archival archive) {run : ℕ} (hrun : runOf disk archive = some run)
    {entry : Entry} (hentry : entry.attests = some (run, archive)) :
    Belong none (disk.insert (archive ++ ".sha256") entry) := by
  have hkept : ∀ other, Archival other →
      runOf (disk.insert (archive ++ ".sha256") entry) other = runOf disk other := by
    intro other hother
    apply runOf_insert_ne
    rintro rfl
    exact not_isSidecar_of_archival hother (isSidecar_append archive)
  intro name hmem hsidecar hcounts
  by_cases hname : name = archive ++ ".sha256"
  · subst hname
    refine ⟨archive, run, rfl, harchive, (hkept archive harchive).trans hrun, ?_⟩
    rw [attestsOf, AList.lookup_insert, Option.map_some, hentry]
  · have hbut : Belong (some (archive ++ ".sha256"))
        (disk.insert (archive ++ ".sha256") entry) := by
      apply h.of_agrees
      · intro other _ _ hother
        exact ⟨hother, attestsOf_insert_ne (fun hsame => hother (congrArg some hsame))⟩
      · exact fun other hother _ => hkept other hother
    exact hbut name hmem hsidecar (fun hsame => hname (Option.some.inj hsame))

end Pairs

/-! ## Steps away from the pairs -/

/-- A step that changes no archive and no sidecar, and nothing on which their steps depend. -/
structure Tidy (w w' : World) : Prop where
  attests : ∀ name, IsSidecar name → attestsOf w'.disk name = attestsOf w.disk name
  runs : ∀ archive, Archival archive → runOf w'.disk archive = runOf w.disk archive
  fault : w'.fault = w.fault
  empties : w'.empties = w.empties
  clock : w'.clock = w.clock
  version : w'.version = w.version

instance : IsPreorder World Tidy where
  refl _ := ⟨fun _ _ => rfl, fun _ _ => rfl, rfl, rfl, rfl, rfl⟩
  trans _ _ _ h h' :=
    ⟨fun name hname => (h'.attests name hname).trans (h.attests name hname),
      fun archive harchive => (h'.runs archive harchive).trans (h.runs archive harchive),
      h'.fault.trans h.fault, h'.empties.trans h.empties, h'.clock.trans h.clock,
      h'.version.trans h.version⟩

section Tidy

variable {me : ℕ} {job : Job} {w w' : World} {name : String}

theorem tidy_refl (w : World) : Tidy w w := refl_of Tidy w

theorem Tidy.mem_iff (h : Tidy w w') (hname : IsSidecar name) :
    name ∈ w'.disk ↔ name ∈ w.disk := by
  rw [mem_iff_attestsOf, mem_iff_attestsOf, h.attests name hname]

theorem Tidy.belong {loose : Option String} (h : Tidy w w') (hbelong : Belong loose w.disk) :
    Belong loose w'.disk :=
  hbelong.of_agrees (fun name _ hsidecar hcounts => ⟨hcounts, h.attests name hsidecar⟩)
    (fun archive harchive _ => h.runs archive harchive)

/-- The name of neither an archive nor a sidecar. -/
def Apart (name : String) : Prop := ¬ IsSidecar name ∧ ¬ Archival name

theorem apart_of_getLast {c : Char} (hlast : name.toList.getLast? = some c) (he : c ≠ 'e')
    (h6 : c ≠ '6') : Apart name := by
  constructor
  · intro hsidecar
    rw [getLast_of_isSidecar hsidecar] at hlast
    exact h6 (Option.some.inj hlast).symm
  · intro harchive
    rw [harchive] at hlast
    exact he (Option.some.inj hlast).symm

theorem apart_partialName (name : String) : Apart (name ++ ".partial") :=
  apart_of_getLast (getLast_partialName name) (by decide) (by decide)

theorem tidy_of_disk {disk : Disk} (hlookup : ∀ name, ¬ Apart name →
    attestsOf disk name = attestsOf w.disk name ∧ runOf disk name = runOf w.disk name) :
    Tidy w (w.setDisk (fun _ => disk)) where
  attests name hname := (hlookup name (fun hapart => hapart.1 hname)).1
  runs archive harchive := (hlookup archive (fun hapart => hapart.2 harchive)).2
  fault := rfl
  empties := rfl
  clock := rfl
  version := rfl

theorem tidy_erase (hname : Apart name) : Tidy w (w.setDisk (AList.erase name)) := by
  apply tidy_of_disk
  intro other hother
  have hne : other ≠ name := by
    rintro rfl
    exact hother hname
  exact ⟨attestsOf_erase_ne hne, runOf_erase_ne hne⟩

theorem tidy_insert (hname : Apart name) (entry : Entry) :
    Tidy w (w.setDisk (AList.insert name entry)) := by
  apply tidy_of_disk
  intro other hother
  have hne : other ≠ name := by
    rintro rfl
    exact hother hname
  exact ⟨attestsOf_insert_ne hne, runOf_insert_ne hne⟩

theorem closeOutput_run (me : ℕ) (exits : Option Exits) (size : ℕ) (now : ℤ) (entry : Entry) :
    (closeOutput me exits size now entry).run = entry.run ∧
      (closeOutput me exits size now entry).attests = entry.attests := by
  unfold closeOutput
  by_cases hopen : me ∈ entry.writers
  · rw [if_pos hopen]
    cases exits <;> exact ⟨rfl, rfl⟩
  · rw [if_neg hopen]
    exact ⟨rfl, rfl⟩

theorem tidy_endPipeline (exits : Option Exits) (w : World) :
    Tidy w (endPipeline me exits w) := by
  apply tidy_of_disk
  intro name _
  simp only [attestsOf, runOf, lookup_mapFiles, Option.map_map]
  constructor
  · apply congrArg (fun f => Option.map f (w.disk.lookup name))
    funext entry
    exact (closeOutput_run me exits _ _ entry).2
  · apply congrArg (fun f => Option.map f (w.disk.lookup name))
    funext entry
    exact (closeOutput_run me exits _ _ entry).1

/-- The files, the clock and what will fail are as they were. -/
theorem tidy_beside (hdisk : w'.disk = w.disk) (hfault : w'.fault = w.fault)
    (hempties : w'.empties = w.empties) (hclock : w'.clock = w.clock)
    (hversion : w'.version = w.version) : Tidy w w' :=
  ⟨fun _ _ => by rw [hdisk], fun _ _ => by rw [hdisk], hfault, hempties, hclock, hversion⟩

theorem tidy_setCurrent (seen : Option (Writing × StateFile)) (w : World) :
    Tidy w (w.setCurrent me seen) := tidy_beside rfl rfl rfl rfl rfl

theorem tidy_save (state : StateFile) (note : Record → Record) (w : World) :
    Tidy w (w.save me state note) := tidy_beside rfl rfl rfl rfl rfl

theorem tidy_addEvent (e : Event) (w : World) : Tidy w (w.addEvent me e) := by
  unfold World.addEvent
  split_ifs
  · exact tidy_refl w
  · exact tidy_beside rfl rfl rfl rfl rfl

theorem tidy_letGo (use : Use) (w : World) : Tidy w (w.letGo use me) := by
  unfold World.letGo
  split_ifs
  · exact tidy_beside rfl rfl rfl rfl rfl
  · exact tidy_refl w

theorem tidy_attempt {step : Step} :
    Respects Tidy (fun _ => True) (attempt me step id) := respects_attempt tidy_refl tidy_refl

theorem tidy_recordEvent {e : Event} : Respects Tidy (fun _ => True) (recordEvent me e) :=
  respects_recordEvent (tidy_addEvent e)

theorem tidy_respond {reply : Reply} : Respects Tidy (fun _ => True) (respond me reply) :=
  respects_respond (fun _ => tidy_beside rfl rfl rfl rfl rfl)

theorem tidy_writeLastRun {r : LastRun} : Respects Tidy (fun _ => True) (writeLastRun me r) :=
  respects_writeLastRun tidy_refl (fun w seen => tidy_setCurrent seen w)
    (fun w state => tidy_save state _ w)

theorem tidy_acquire {use : Use} : Respects Tidy (fun _ => True) (acquire me use) :=
  respects_acquire tidy_refl (fun _ _ => tidy_beside rfl rfl rfl rfl rfl)
    (fun _ _ _ => tidy_beside rfl rfl rfl rfl rfl)

theorem tidy_release {use : Use} : Respects Tidy (fun _ => True) (release me use) :=
  respects_release tidy_refl (tidy_letGo use)

theorem tidy_closeLock {use : Use} : Respects Tidy (fun _ => True) (closeLock me use) :=
  respects_closeLock (tidy_letGo use)

theorem tidy_prepare : Respects Tidy (fun _ => True) job.prepare :=
  respects_prepare tidy_refl (fun _ _ => tidy_beside rfl rfl rfl rfl rfl)

theorem tidy_stream : Respects Tidy (fun _ => True)
    (streamEncryptedArchive me job.partialName) :=
  respects_stream tidy_refl (fun _ => tidy_insert (apart_partialName job.filename) _)
    (fun w exits => tidy_endPipeline exits w)

theorem tidy_fail {exc : Exn} : Respects Tidy (fun _ => True) (job.fail exc) :=
  (respects_fail tidy_refl (fun _ => tidy_erase (apart_partialName job.filename))
    (fun w seen => tidy_setCurrent seen w) (fun w state _ => tidy_save state _ w)
    (fun w e => tidy_addEvent e w)).mono (fun _ _ h => h) (fun _ h => h.elim)

theorem tidy_reapPartials : Respects Tidy (fun _ => True) (reapPartials me) := by
  apply respects_reapPartials tidy_refl
  intro w name hpartialName
  apply tidy_erase
  exact apart_of_getLast (getLast_of_fitsPartial hpartialName) (by decide) (by decide)

theorem tidy_removeStaging : Respects Tidy (fun _ => True) (removeStaging me) :=
  respects_removeStaging tidy_refl (fun _ _ => tidy_beside rfl rfl rfl rfl rfl)

end Tidy

/-! ## Steps on the pairs -/

/-- No sidecar that is there resists its removal. -/
def Removable (me : ℕ) (w : World) : Prop :=
  ∀ name, w.fault me (.unlinkSidecar name) ≠ none → name ++ ".sha256" ∉ w.disk

/-- A run writes the sidecar of its archive, or leaves none, and can remove it again. -/
structure Pairs (me : ℕ) (filename : String) (w : World) : Prop where
  removable : Removable me w
  ownRemovable : w.fault me (.unlinkSidecar filename) = none
  written : w.fault me .sidecar = none ∨
    w.empties me = false ∧ filename ++ ".sha256" ∉ w.disk

/-- Every sidecar belongs to its archive. -/
def Whole (w : World) : Prop := Belong none w.disk

def Tended (me : ℕ) (w : World) : Prop := Removable me w ∧ Whole w

def Begun (me : ℕ) (filename : String) (w : World) : Prop := Pairs me filename w ∧ Whole w

/-- The archive of a run is there, and its sidecar may be that of an earlier one. -/
structure Moved (me : ℕ) (filename : String) (w : World) : Prop where
  pairs : Pairs me filename w
  made : filename ∈ w.disk
  belong : Belong (some (filename ++ ".sha256")) w.disk

/-- An archive is gone, and its sidecar may still be there. -/
def Cut (me : ℕ) (name : String) (w : World) : Prop :=
  Removable me w ∧ Belong (some (name ++ ".sha256")) w.disk

section Preserved

variable {me : ℕ} {filename : String} {w w' : World}

theorem Removable.of_subset (h : Removable me w) (hfault : w'.fault = w.fault)
    (hsubset : ∀ name, IsSidecar name → name ∈ w'.disk → name ∈ w.disk) : Removable me w' := by
  intro name hfails hmem
  rw [hfault] at hfails
  exact h name hfails (hsubset _ (isSidecar_append name) hmem)

theorem Pairs.of_subset (h : Pairs me filename w) (hfault : w'.fault = w.fault)
    (hempties : w'.empties = w.empties)
    (hsubset : ∀ name, IsSidecar name → name ∈ w'.disk → name ∈ w.disk) :
    Pairs me filename w' where
  removable := h.removable.of_subset hfault hsubset
  ownRemovable := by rw [hfault, h.ownRemovable]
  written := by
    rw [hfault, hempties]
    apply h.written.imp_right
    intro hleft
    exact ⟨hleft.1, fun hmem => hleft.2 (hsubset _ (isSidecar_append filename) hmem)⟩

theorem tended_tidy (w w' : World) (h : Tended me w) (htidy : Tidy w w') : Tended me w' :=
  ⟨h.1.of_subset htidy.fault (fun _ hname => (htidy.mem_iff hname).mp), htidy.belong h.2⟩

theorem begun_tidy (w w' : World) (h : Begun me filename w) (htidy : Tidy w w') :
    Begun me filename w' :=
  ⟨h.1.of_subset htidy.fault htidy.empties (fun _ hname => (htidy.mem_iff hname).mp),
    htidy.belong h.2⟩

theorem whole_tidy (w w' : World) (h : Whole w) (htidy : Tidy w w') : Whole w' :=
  htidy.belong h

theorem Belong.loosen {disk : Disk} (h : Belong none disk) (loose : Option String) :
    Belong loose disk :=
  fun name hmem hsidecar _ => h name hmem hsidecar (Option.some_ne_none name)

end Preserved

section Phases

variable {me : ℕ} {job : Job} {name filename : String}

/-- The archive goes first. -/
theorem leads_unlinkBackup (harchive : Archival name) :
    Leads (Tended me) (Cut me name) Whole
      (ifFile me (.unlinkBackup name) name (World.setDisk (AList.erase name))) := by
  intro w hw
  rw [run_ifFile]
  cases w.fault me (.unlinkBackup name) with
  | some f => exact hw.2
  | none =>
      dsimp only
      split_ifs with habsent
      · exact ⟨hw.1, hw.2.loosen _⟩
      · refine ⟨hw.1.of_subset rfl ?_, hw.2.erase_archive harchive⟩
        exact fun other _ hmem => (AList.mem_erase.mp hmem).2

/-- The sidecar follows. -/
theorem leads_unlinkSidecar :
    Leads (Cut me name) (Tended me) Whole
      (ifFile me (.unlinkSidecar name) (name ++ ".sha256")
        (World.setDisk (AList.erase (name ++ ".sha256")))) := by
  intro w hw
  rw [run_ifFile]
  cases hfault : w.fault me (.unlinkSidecar name) with
  | some f =>
      have hfails : w.fault me (.unlinkSidecar name) ≠ none := by
        rw [hfault]
        exact Option.some_ne_none f
      exact hw.2.of_absent (hw.1 name hfails)
  | none =>
      dsimp only
      split_ifs with habsent
      · exact ⟨hw.1, hw.2.of_absent (AList.lookup_eq_none.mp habsent)⟩
      · refine ⟨hw.1.of_subset rfl ?_, hw.2.erase_sidecar⟩
        exact fun other _ hmem => (AList.mem_erase.mp hmem).2

theorem leads_pruneOne (harchive : Archival name) :
    Leads (Tended me) (Tended me) Whole (pruneOne me name) := by
  apply leads_bind (leads_unlinkBackup harchive)
  intro deleted
  apply leads_bind leads_unlinkSidecar
  intro found
  exact leads_pure (fun _ h => h)

theorem archival_of_mem_toDelete {keep : ℤ} {names : List String}
    (hdeleted : name ∈ toDelete keep names) : Archival name := by
  obtain ⟨s, hs, rfl⟩ := List.mem_map.mp hdeleted
  have hlisted : s ∈ stampedBackups names := by
    rw [sliceFrom] at hs
    split_ifs at hs
    · exact List.mem_of_mem_drop hs
    · exact List.mem_of_mem_drop hs
  obtain ⟨other, -, hother⟩ :=
    List.mem_filterMap.mp ((Newest.perm_newestFirst _).mem_iff.mp hlisted)
  obtain ⟨hstamp, rfl⟩ := stamped_eq_some hother
  apply getLast_of_stampOf
  rw [hstamp]
  exact Option.some_ne_none _

theorem tended_whole (w : World) (h : Tended me w) : Whole w := h.2

theorem leads_prune (keep : ℤ) : Leads (Tended me) (Tended me) Whole (prune me keep) := by
  have hreap : Leads (Tended me) (Tended me) Whole (reapPartials me) :=
    (tidy_reapPartials.leads tended_tidy).mono (fun _ h => h) (fun _ h => h) tended_whole
  have hnames : Leads (Tended me) (Tended me) Whole (ask (fun w => w.disk.keys)) :=
    ((respects_ask tidy_refl).leads tended_tidy).mono (fun _ h => h) (fun _ h => h) tended_whole
  apply leads_bind hreap
  intro _
  apply leads_bind hnames
  intro names
  apply leads_bind (leads_mapList _
    (fun name hname => leads_pruneOne (archival_of_mem_toDelete hname)))
  intro results
  exact leads_pure (fun _ h => h)

/-- A phase that changes no pair, between the archive and the end of its run. -/
theorem leads_tended {α : Type} {P : α → Prop} {p : Task α} (hp : Respects Tidy P p) :
    Leads (Tended me) (Tended me) Whole p :=
  (hp.leads tended_tidy).mono (fun _ h => h) (fun _ h => h) tended_whole

theorem leads_begun {α : Type} {P : α → Prop} {p : Task α} (hp : Respects Tidy P p) :
    Leads (Begun me filename) (Begun me filename) Whole p :=
  (hp.leads begun_tidy).mono (fun _ h => h) (fun _ h => h) (fun _ h => h.2)

/-- The archive is moved to its name, over an earlier one if there is one. -/
theorem leads_replaceFile (harchive : Archival filename) (source : String)
    (hsource : Apart source) :
    Leads (Begun me filename) (Moved me filename) Whole (replaceFile me source filename) := by
  intro w hw
  rw [replaceFile, run_withFile]
  cases w.fault me .replace with
  | some f => exact hw.2
  | none =>
      cases hentry : w.disk.lookup source with
      | none => exact hw.2
      | some entry =>
          have herased : Tidy w (w.setDisk (AList.erase source)) := tidy_erase hsource
          have hwhole : Belong none (w.disk.erase source) := herased.belong hw.2
          refine ⟨hw.1.of_subset rfl rfl ?_, (AList.mem_insert _).mpr (.inl rfl),
            hwhole.insert_archive harchive entry⟩
          intro name hname hmem
          cases (AList.mem_insert _).mp hmem with
          | inl hsame => exact absurd hname (hsame ▸ not_isSidecar_of_archival harchive)
          | inr hmem => exact (AList.mem_erase.mp hmem).2

/-- The sidecar is written for the archive that is there now. -/
theorem leads_writeSidecar (harchive : Archival filename) :
    Leads (Moved me filename) (Tended me) Whole (writeSidecar me filename) := by
  intro w hw
  obtain ⟨entry, hentry⟩ := Option.isSome_iff_exists.mp (AList.lookup_isSome.mpr hw.made)
  rw [run_writeSidecar, hentry]
  cases hfault : w.fault me .sidecar with
  | some f =>
      have hleft : w.empties me = false ∧ filename ++ ".sha256" ∉ w.disk := by
        apply hw.pairs.written.resolve_left
        rw [hfault]
        exact Option.some_ne_none f
      dsimp only
      rw [hleft.1, if_neg Bool.false_ne_true]
      exact hw.belong.of_absent hleft.2
  | none =>
      have hrun : runOf w.disk filename = some entry.run := by rw [runOf, hentry, Option.map_some]
      constructor
      · intro name hfails hmem
        cases (AList.mem_insert _).mp hmem with
        | inl hsame =>
            have hname : name = filename := (String.append_left_inj ".sha256").mp hsame
            rw [hname] at hfails
            exact hfails hw.pairs.ownRemovable
        | inr hmem => exact hw.pairs.removable name hfails hmem
      · exact hw.belong.insert_sidecar harchive hrun rfl

theorem tidy_statSize (archive : String) : Respects Tidy (fun _ => True) (statSize me archive) :=
  respects_bind (respects_withFile tidy_refl (fun w _ _ => tidy_refl w))
    (fun _ _ => respects_ask tidy_refl)

theorem leads_complete (harchive : Archival job.filename) :
    Leads (Moved job.me job.filename) (Tended job.me) Whole job.complete := by
  apply leads_bind (leads_writeSidecar harchive)
  intro _
  apply leads_bind (leads_tended (tidy_statSize job.filename))
  intro size
  apply leads_bind (leads_tended (respects_ask tidy_refl))
  intro finishedAt
  apply leads_bind (leads_tended tidy_writeLastRun)
  intro _
  apply leads_bind (leads_tended tidy_recordEvent)
  intro _
  exact leads_pure (fun _ h => h)

theorem leads_retain : Leads (Tended job.me) (Tended job.me) Whole job.retain := by
  apply leads_bind (leads_tended (respects_retentionKeep tidy_refl))
  intro keep
  apply leads_bind (leads_prune _)
  intro pruned
  exact leads_tended (respects_forList pruned (fun name _ => tidy_recordEvent))

theorem leads_body (harchive : Archival job.filename) :
    Leads (Begun job.me job.filename) (Tended job.me) Whole job.body := by
  apply leads_bind (leads_begun tidy_prepare)
  intro _
  apply leads_bind (leads_begun tidy_stream)
  intro _
  apply leads_bind (leads_replaceFile harchive job.partialName (apart_partialName job.filename))
  intro _
  apply leads_bind (leads_complete harchive)
  intro made
  apply leads_bind leads_retain
  intro _
  exact leads_pure (fun _ h => h)

/-- However a run ends, every sidecar belongs to its archive. -/
theorem leads_locked (harchive : Archival job.filename) :
    Leads (Begun job.me job.filename) Whole Whole job.locked := by
  apply leads_bind (leads_begun tidy_writeLastRun)
  intro _
  apply leads_bind (leads_begun (respects_ask tidy_refl))
  intro version
  apply leads_bind (leads_begun tidy_recordEvent)
  intro _
  apply leads_tryFinally
  · apply leads_tryExcept ((leads_body harchive).mono (fun _ h => h) tended_whole (fun _ h => h))
    intro exc
    exact tidy_fail.leads whole_tidy
  · exact tidy_removeStaging.leads whole_tidy

theorem leads_exclusiveLock {α : Type} {body : Task α}
    (hbody : Leads (Begun me filename) Whole Whole body) :
    Leads (Begun me filename) Whole Whole (exclusiveLock me body) := by
  apply leads_bind (leads_begun tidy_attempt)
  intro _
  apply leads_bind (leads_begun tidy_attempt)
  intro _
  apply leads_tryFinally
  · apply leads_bind (leads_begun tidy_acquire)
    intro _
    exact hbody
  · exact (respects_tryFinally tidy_release tidy_closeLock).leads whole_tidy

end Phases

/-! ## Requests -/

/-- A run may start. -/
def Startable (me : ℕ) (w : World) : Prop := Begun me (archiveName w.clock w.version) w

theorem startable_tidy {me : ℕ} (w w' : World) (h : Startable me w) (htidy : Tidy w w') :
    Startable me w' := by
  rw [Startable, htidy.clock, htidy.version]
  exact begun_tidy w w' h htidy

section Requests

variable {me : ℕ}

theorem leads_startable {α : Type} {P : α → Prop} {p : Task α} (hp : Respects Tidy P p) :
    Leads (Startable me) (Startable me) Whole p :=
  (hp.leads startable_tidy).mono (fun _ h => h) (fun _ h => h) (fun _ h => h.2)

/-- A question, whose answer the rest of the program goes by. -/
theorem leads_ask_bind {α β : Type} {f : World → α} {next : α → Task β} {I J K : World → Prop}
    (hnext : ∀ a, Leads (fun w => I w ∧ f w = a) J K (next a)) :
    Leads I J K (ask f >>= next) :=
  fun w hw => hnext (f w) w ⟨hw, rfl⟩

theorem leads_run (actor : String) (ip : Option String) :
    Leads (Startable me) Whole Whole (run me actor ip) := by
  have hbegun : ∀ (startedAt : DateTime) (version : String) w,
      ((Startable me w ∧ w.clock = startedAt) ∧ w.version = version) →
      Begun me (archiveName startedAt version) w := by
    intro startedAt version w hw
    rw [← hw.1.2, ← hw.2]
    exact hw.1.1
  have htemp : Respects Tidy (fun _ => True)
      (attempt me .mkdtemp (fun w => { w with staging := me :: w.staging })) :=
    respects_attempt tidy_refl (fun _ => tidy_beside rfl rfl rfl rfl rfl)
  apply leads_bind (leads_startable tidy_attempt)
  intro _
  apply leads_ask_bind
  intro startedAt
  apply leads_ask_bind
  intro version
  apply leads_bind ((leads_begun htemp).mono (hbegun startedAt version) (fun _ h => h)
    (fun _ h => h))
  intro _
  let job : Job := ⟨me, actor, ip, startedAt, archiveName startedAt version⟩
  have harchive : Archival job.filename := getLast_archiveName startedAt version
  exact leads_exclusiveLock (leads_locked harchive)

theorem tidy_probe : Respects Tidy (fun _ => True) (runBackupPreflight me) := by
  apply respects_bind tidy_attempt
  intro _ _
  apply respects_bind tidy_attempt
  intro _ _
  apply respects_tryFinally
  · exact respects_bind tidy_acquire (fun _ _ => tidy_release)
  · exact tidy_closeLock

theorem tidy_writeRefused {r : LastRun} : Respects Tidy (fun _ => True) (writeRefused me r) :=
  respects_bind (respects_readState tidy_refl (fun w seen => tidy_setCurrent seen w))
    (fun _ _ => respects_writeState tidy_refl (fun w seen => tidy_setCurrent seen w)
      (fun w state => tidy_save state _ w))

theorem leads_runInThread (caller : Caller) :
    Leads (Startable me) Whole Whole (runInThread me caller) := by
  apply leads_tryExcept (leads_discard (leads_run caller.actor caller.ip))
  intro exc
  cases exc with
  | other name text => exact leads_pure (fun _ h => h)
  | alreadyRunning =>
      apply leads_bind ((respects_ask tidy_refl).leads whole_tidy)
      intro now
      apply leads_bind (tidy_writeRefused.leads whole_tidy)
      intro _
      exact (respects_bind tidy_recordEvent (fun _ _ => tidy_recordEvent)).leads whole_tidy

theorem leads_triggerRun (caller : Caller) :
    Leads (Startable me) Whole Whole (triggerRun me caller) := by
  refine leads_bind (leads_startable (P := fun _ => True) ?_) ?_
  · apply respects_tryExcept
    · exact respects_bind tidy_probe (fun _ _ => respects_pure trivial)
    · intro exc
      cases exc with
      | alreadyRunning => exact respects_bind tidy_respond (fun _ _ => respects_pure trivial)
      | other name text => exact respects_raise _
  · intro started
    cases started with
    | false => exact leads_pure (fun _ h => h.2)
    | true =>
        apply leads_bind (leads_startable tidy_respond)
        intro _
        exact leads_runInThread caller

theorem tidy_readPage : Respects Tidy (fun _ => True) (readPage me) := by
  apply respects_atomic
  intro w
  refine ⟨?_, fun _ _ => trivial⟩
  cases w.fault me .readPage with
  | some f => exact tidy_refl w
  | none => exact tidy_refl w

theorem leads_backupsRun (caller : Caller) :
    Leads (Startable me) Whole Whole (backupsRun me caller) := by
  refine leads_bind (leads_startable (P := fun _ => True) ?_) ?_
  · apply respects_tryExcept
    · exact respects_bind tidy_probe (fun _ _ => respects_pure trivial)
    · intro exc
      cases exc with
      | alreadyRunning => exact respects_pure trivial
      | other name text => exact respects_raise _
  · intro willKick
    apply leads_bind (leads_startable tidy_readPage)
    intro page
    apply leads_bind (leads_startable tidy_respond)
    intro _
    cases willKick with
    | false => exact leads_pure (fun _ h => h.2)
    | true =>
        apply leads_tryExcept (leads_discard (leads_run caller.actor caller.ip))
        intro exc
        exact leads_pure (fun _ h => h)

theorem leads_cmdRun (actor : String) : Leads (Startable me) Whole Whole (cmdRun me actor) := by
  apply leads_tryExcept
  · apply leads_bind (leads_discard (leads_run actor none))
    intro _
    exact tidy_respond.leads whole_tidy
  · intro exc
    cases exc with
    | alreadyRunning => exact tidy_respond.leads whole_tidy
    | other name text => exact tidy_respond.leads whole_tidy

theorem leads_cmdPrune (keep : Option ℤ) :
    Leads (Tended me) Whole Whole (cmdPrune me keep) := by
  have hprune : ∀ keep, Leads (Tended me) Whole Whole (prune me keep).discard := by
    intro keep
    exact leads_discard ((leads_prune keep).mono (fun _ h => h) tended_whole (fun _ h => h))
  cases keep with
  | some keep => exact hprune keep
  | none =>
      apply leads_bind (leads_tended (respects_retentionKeep tidy_refl))
      intro keep
      exact hprune _

theorem leads_downloadKey (caller : Caller) : Leads Whole Whole Whole (downloadKey me caller) := by
  have hread : Respects Tidy (fun _ => True) (readIdentity me) :=
    respects_bind tidy_attempt (fun _ _ => respects_ask tidy_refl)
  have hmark : Respects Tidy (fun _ => True) (markKeyDownloaded me) := by
    apply respects_bind (respects_readState tidy_refl (fun w seen => tidy_setCurrent seen w))
    intro _ _
    apply respects_bind (respects_ask tidy_refl)
    intro now _
    exact respects_writeState tidy_refl (fun w seen => tidy_setCurrent seen w)
      (fun w state => tidy_save state _ w)
  apply leads_bind (hread.leads whole_tidy)
  intro found
  cases found with
  | none => exact tidy_respond.leads whole_tidy
  | some identity =>
      apply leads_bind (hmark.leads whole_tidy)
      intro _
      apply leads_bind (tidy_recordEvent.leads whole_tidy)
      intro _
      exact tidy_respond.leads whole_tidy

/-- The request removes no archive that has a sidecar. -/
def SparesPairs (me : ℕ) (filename : String) (w : World) : Prop :=
  safeFilename filename → filename ∈ w.disk → w.fault me .deleteFile = none →
    filename ++ ".sha256" ∉ w.disk

/-- What the API takes is the name of an archive, or one that ends in a line break. -/
theorem archival_or_apart {filename : String} (hsafe : safeFilename filename) :
    Archival filename ∨ Apart filename := by
  by_cases hbreak : filename.toList.getLast? = some '\n'
  · exact .inr (apart_of_getLast hbreak (by decide) (by decide))
  · left
    unfold safeFilename at hsafe
    simp only [hbreak, if_false, Bool.and_eq_true] at hsafe
    have hsuffix := List.isSuffixOf_iff_suffix.mp hsafe.1.1.1.1.1.1.1.1.2
    obtain ⟨lead, hlead⟩ := hsuffix.trans ((List.drop_suffix _ _).trans (List.drop_suffix _ _))
    rw [Archival, ← hlead, List.getLast?_append]
    rfl

theorem whole_delete {filename : String} {w : World} (hsafe : safeFilename filename)
    (hw : Whole w) (hspares : filename ++ ".sha256" ∉ w.disk) :
    Whole (w.setDisk (AList.erase filename)) := by
  cases archival_or_apart hsafe with
  | inr hapart => exact (tidy_erase hapart).belong hw
  | inl harchive =>
      apply (hw.erase_archive harchive).of_absent
      exact fun hmem => hspares (AList.mem_erase.mp hmem).2

theorem leads_deleteFile (caller : Caller) (filename : String) :
    Leads (fun w => SparesPairs me filename w ∧ Whole w) Whole Whole
      (deleteFile me caller filename) := by
  rw [deleteFile]
  split_ifs with hsafe
  · have hdelete : Leads (fun w => SparesPairs me filename w ∧ Whole w) Whole Whole
        (withFile me .deleteFile filename (fun _ => World.setDisk (AList.erase filename))) := by
      intro w hw
      rw [run_withFile]
      cases hfault : w.fault me .deleteFile with
      | some f => exact hw.2
      | none =>
          cases hentry : w.disk.lookup filename with
          | none => exact hw.2
          | some entry =>
              have hmem : filename ∈ w.disk := AList.lookup_isSome.mp (by rw [hentry]; rfl)
              exact whole_delete hsafe hw.2 (hw.1 hsafe hmem hfault)
    apply leads_ask_bind
    intro found
    apply Leads.mono _ (fun w hw => hw.1) (fun _ h => h) (fun _ h => h)
    cases found with
    | false =>
        exact (tidy_respond.leads whole_tidy).mono (fun _ h => h.2) (fun _ h => h)
          (fun _ h => h)
    | true =>
        apply leads_bind hdelete
        intro _
        apply leads_bind (tidy_recordEvent.leads whole_tidy)
        intro _
        exact tidy_respond.leads whole_tidy
  · exact (tidy_respond.leads whole_tidy).mono (fun _ h => h.2) (fun _ h => h) (fun _ h => h)

end Requests

/-! ## Sequences of requests -/

/-- What the request runs into leaves each sidecar with its archive. -/
def Careful (me : ℕ) (w : World) : Request → Prop
  | .triggerRun _ => Pairs me (archiveName w.clock w.version) w
  | .backupsRun _ => Pairs me (archiveName w.clock w.version) w
  | .cmdRun _ => Pairs me (archiveName w.clock w.version) w
  | .cmdPrune _ => Removable me w
  | .deleteFile _ filename => SparesPairs me filename w
  | .downloadKey _ => True

/-- One request is served alone, or anything but the files changes. -/
inductive Turn (admits : ℕ → World → Request → Prop) : World → World → Prop
  | request {w : World} (me : ℕ) (request : Request)
      (hfresh : ∀ file ∈ w.disk.entries, file.2.run ≠ me) (hadmits : admits me w request) :
      Turn admits w ((request.program me).run w).2
  | meanwhile {w w' : World} (hdisk : w'.disk = w.disk) : Turn admits w w'

/-- One request leaves every sidecar with its archive. -/
theorem whole_request {me : ℕ} {w : World} {request : Request} (hcareful : Careful me w request)
    (hw : Whole w) : Whole ((request.program me).run w).2 := by
  cases request with
  | triggerRun caller => exact endsIn_same.mp (leads_triggerRun caller w ⟨hcareful, hw⟩)
  | backupsRun caller => exact endsIn_same.mp (leads_backupsRun caller w ⟨hcareful, hw⟩)
  | cmdRun actor => exact endsIn_same.mp (leads_cmdRun actor w ⟨hcareful, hw⟩)
  | cmdPrune keep => exact endsIn_same.mp (leads_cmdPrune keep w ⟨hcareful, hw⟩)
  | deleteFile caller filename =>
      exact endsIn_same.mp (leads_deleteFile caller filename w ⟨hcareful, hw⟩)
  | downloadKey caller => exact endsIn_same.mp (leads_downloadKey caller w hw)

/-- From an empty directory on, while every request is careful, each sidecar has the digest and
the name of an archive that is there. -/
theorem sidecars_belong {w₀ w : World} (hempty : w₀.disk = ∅)
    (hturns : Relation.ReflTransGen (Turn Careful) w₀ w) :
    ∀ name ∈ w.disk, IsSidecar name → Attested w.disk name := by
  have hwhole : Whole w := by
    induction hturns with
    | refl =>
        intro name hmem
        rw [hempty] at hmem
        exact absurd hmem (AList.notMem_empty name)
    | tail _ hturn ih =>
        cases hturn with
        | request me request hfresh hcareful => exact whole_request hcareful ih
        | meanwhile hdisk =>
            rw [Whole, hdisk]
            exact ih
  exact fun name hmem hsidecar => hwhole name hmem hsidecar (Option.some_ne_none name)

/-! ## A deletion -/

/-- The directory after one run in it. -/
def afterFirstRun : World := (((Request.cmdRun "root").program 0).run newDir).2

def firstArchive : String := archiveName newDir.clock newDir.version

/-- An administrator has deleted the archive. -/
def afterDeletion : World :=
  (((Request.deleteFile ⟨"ann", none⟩ firstArchive).program 1).run afterFirstRun).2

theorem first_sidecar_belongs :
    Attested afterFirstRun.disk (firstArchive ++ ".sha256") := by
  have hpairs : Pairs 0 (archiveName newDir.clock newDir.version) newDir :=
    ⟨fun name hfails => absurd rfl hfails, rfl, .inl rfl⟩
  have hturn : Turn Careful newDir afterFirstRun :=
    .request 0 (.cmdRun "root") (by decide) hpairs
  have hwritten : firstArchive ++ ".sha256" ∈ afterFirstRun.disk := by decide +kernel
  exact sidecars_belong rfl (.single hturn) _ hwritten (isSidecar_append firstArchive)

/-- The sidecar of the deleted archive stays. -/
theorem deletion_leaves_sidecar :
    Relation.ReflTransGen (Turn fun _ _ _ => True) newDir afterDeletion ∧
      firstArchive ++ ".sha256" ∈ afterDeletion.disk ∧
      ¬ Attested afterDeletion.disk (firstArchive ++ ".sha256") := by
  have hrun : Turn (fun _ _ _ => True) newDir afterFirstRun :=
    .request 0 (.cmdRun "root") (by decide) trivial
  have hdelete : Turn (fun _ _ _ => True) afterFirstRun afterDeletion :=
    .request 1 (.deleteFile ⟨"ann", none⟩ firstArchive) (by decide +kernel) trivial
  refine ⟨(Relation.ReflTransGen.single hrun).tail hdelete, by decide +kernel, ?_⟩
  intro hattested
  obtain ⟨archive, run, hname, -, hmade, -⟩ := hattested
  rw [String.append_left_inj] at hname
  have hgone : runOf afterDeletion.disk firstArchive = none := by decide +kernel
  rw [← hname, hgone] at hmade
  cases hmade

end FastTAK.Backup
