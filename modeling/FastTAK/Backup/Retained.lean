import FastTAK.Backup.Runner

/-!
# Whether a reported archive is there

Retention ranks archives by the time in their names, whatever order they were made in.  The
archive of a run outlives the retention pass of the run exactly when fewer archives than are
kept rank above it.
-/

namespace FastTAK.Backup

open FastTAK.Calendar FastTAK.Effect

/-! ## What the rest of the world does -/

/-- The directory and the settings stay as they are; anything else may change. -/
structure Beside (w w' : World) : Prop where
  disk : w'.disk = w.disk
  retentionKeep : w'.retentionKeep = w.retentionKeep
  version : w'.version = w.version

instance : IsPreorder World Beside where
  refl _ := ⟨rfl, rfl, rfl⟩
  trans _ _ _ h h' :=
    ⟨h'.disk.trans h.disk, h'.retentionKeep.trans h.retentionKeep, h'.version.trans h.version⟩

/-- The name ends like that of an archive. -/
def Archival (name : String) : Prop := name.toList.getLast? = some 'e'

/-- A step that makes and removes no archive. -/
structure Leaves (w w' : World) : Prop where
  files : ∀ name, Archival name → (name ∈ w'.disk ↔ name ∈ w.disk)
  retentionKeep : w'.retentionKeep = w.retentionKeep
  version : w'.version = w.version

instance : IsPreorder World Leaves where
  refl _ := ⟨fun _ _ => Iff.rfl, rfl, rfl⟩
  trans _ _ _ h h' :=
    ⟨fun name hname => (h'.files name hname).trans (h.files name hname),
      h'.retentionKeep.trans h.retentionKeep, h'.version.trans h.version⟩

theorem Beside.leaves {w w' : World} (h : Beside w w') : Leaves w w' :=
  ⟨fun name _ => by rw [h.disk], h.retentionKeep, h.version⟩

theorem leaves_refl (w : World) : Leaves w w := refl_of Leaves w

theorem leaves_of_disk {w : World} {disk : Disk}
    (hdisk : ∀ name, Archival name → (name ∈ disk ↔ name ∈ w.disk)) :
    Leaves w (w.setDisk (fun _ => disk)) := ⟨hdisk, rfl, rfl⟩

theorem leaves_erase {w : World} {name : String} (hname : ¬ Archival name) :
    Leaves w (w.setDisk (AList.erase name)) := by
  apply leaves_of_disk
  intro other hother
  rw [AList.mem_erase]
  apply and_iff_right
  rintro rfl
  exact hname hother

theorem leaves_insert {w : World} {name : String} (hname : ¬ Archival name) (entry : Entry) :
    Leaves w (w.setDisk (AList.insert name entry)) := by
  apply leaves_of_disk
  intro other hother
  rw [AList.mem_insert]
  apply or_iff_right
  rintro rfl
  exact hname hother

theorem not_archival_partialName (name : String) : ¬ Archival (name ++ ".partial") := by
  rw [Archival, getLast_partialName]
  decide

theorem not_archival_sidecar (name : String) : ¬ Archival (name ++ ".sha256") := by
  rw [Archival, getLast_sidecar]
  decide

theorem leaves_mapFiles (f : Entry → Entry) (w : World) :
    Leaves w (w.setDisk (mapFiles f)) := by
  apply leaves_of_disk
  intro name _
  rw [AList.mem_keys, keys_mapFiles, AList.mem_keys]

theorem leaves_addEvent (i : ℕ) (e : Event) (w : World) : Leaves w (w.addEvent i e) := by
  unfold World.addEvent
  split_ifs
  · exact leaves_refl w
  · exact ⟨fun _ _ => Iff.rfl, rfl, rfl⟩

theorem leaves_letGo (use : Use) (i : ℕ) (w : World) : Leaves w (w.letGo use i) := by
  unfold World.letGo
  split_ifs
  · exact ⟨fun _ _ => Iff.rfl, rfl, rfl⟩
  · exact leaves_refl w

/-! ## The phases of a run that leave the archives alone -/

/-- A request that keeps the archives, and what comes after it. -/
theorem meets_leaves_bind {α β : Type} {P : α → Prop} {p : Task α} {next : α → Task β}
    {post : Except Exn β → World → Prop} {keeps : World → Prop}
    (hp : Prog.Respects Leaves P p)
    (hkeeps : ∀ w w', keeps w → Leaves w w' → keeps w') {w : World} (hw : keeps w)
    (hnext : ∀ a w', P a → keeps w' →
      Prog.Meets Beside (fun _ _ => True) post (next a) w')
    (herror : ∀ e w', post (.error e) w') :
    Prog.Meets Beside (fun _ _ => True) post (p >>= next) w :=
  hp.meets_bind (fun w w' h hrely => hkeeps w w' h hrely.leaves)
    (fun w w' h hstep => ⟨trivial, hkeeps w w' h hstep⟩) hw hnext (fun e w' _ => herror e w')

section Phases

variable {me : ℕ} {job : Job}

theorem leaves_attempt {step : Step} : Prog.Respects Leaves (fun _ => True)
    (attempt me step id) := respects_attempt leaves_refl leaves_refl

theorem leaves_writeLastRun {r : LastRun} :
    Prog.Respects Leaves (fun _ => True) (writeLastRun me r) :=
  respects_writeLastRun leaves_refl (fun _ _ => ⟨fun _ _ => Iff.rfl, rfl, rfl⟩)
    (fun _ _ => ⟨fun _ _ => Iff.rfl, rfl, rfl⟩)

theorem leaves_stream {out : String} (hout : ¬ Archival out) :
    Prog.Respects Leaves (fun _ => True) (streamEncryptedArchive me out) :=
  respects_stream leaves_refl (fun _ => leaves_insert hout _) (fun w _ => leaves_mapFiles _ w)

theorem leaves_complete :
    Prog.Respects Leaves (fun made => made.filename = job.filename) job.complete :=
  respects_complete leaves_refl
    (fun _ entry => leaves_insert (not_archival_sidecar job.filename) entry)
    (fun _ _ => ⟨fun _ _ => Iff.rfl, rfl, rfl⟩) (fun _ _ _ => ⟨fun _ _ => Iff.rfl, rfl, rfl⟩)
    (fun w e => leaves_addEvent job.me e w)

theorem leaves_fail {exc : Exn} : Prog.Respects Leaves (fun _ => False) (job.fail exc) :=
  respects_fail leaves_refl (fun _ => leaves_erase (not_archival_partialName job.filename))
    (fun _ _ => ⟨fun _ _ => Iff.rfl, rfl, rfl⟩) (fun _ _ _ => ⟨fun _ _ => Iff.rfl, rfl, rfl⟩)
    (fun w e => leaves_addEvent job.me e w)

theorem leaves_reapPartials : Prog.Respects Leaves (fun _ => True) (reapPartials me) := by
  apply respects_reapPartials leaves_refl
  intro w name hpartialName
  apply leaves_erase
  rw [Archival, getLast_of_fitsPartial hpartialName]
  decide

theorem leaves_unlock : Prog.Respects Leaves (fun _ => True)
    (Prog.tryFinally (release me .run) (closeLock me .run)) :=
  Prog.respects_tryFinally (respects_release leaves_refl (leaves_letGo .run me))
    (respects_closeLock (leaves_letGo .run me))

end Phases

/-! ## The retention pass -/

section Pass

variable {me : ℕ} {filename : String} {w : World}

theorem beside_files {w w' : World} (h : Beside w w') :
    filename ∈ w'.disk ↔ filename ∈ w.disk := by rw [h.disk]

/-- A round of the loop removes its archive and no other. -/
theorem meets_pruneOne (hfilename : Archival filename) (name : String) :
    Prog.Meets Beside (fun _ _ => True) (fun result w' => ∀ r, result = .ok r →
      (filename ∈ w'.disk ↔ filename ∈ w.disk ∧ filename ≠ name)) (pruneOne me name) w := by
  have hunlink : Prog.Meets Beside (fun _ _ => True) (fun result w' => ∀ r, result = .ok r →
      (filename ∈ w'.disk ↔ filename ∈ w.disk ∧ filename ≠ name))
      (ifFile me (.unlinkBackup name) name (World.setDisk (AList.erase name))) w := by
    apply meets_ifFile
    · intro result t t' ht hbeside r hr
      rw [beside_files hbeside]
      exact ht r hr
    · intro w' f _ _
      exact ⟨trivial, fun r hr => by cases hr⟩
    · intro w' hbeside habsent
      refine ⟨trivial, fun r _ => ?_⟩
      rw [beside_files hbeside] at habsent ⊢
      refine ⟨fun hmem => ⟨hmem, ?_⟩, And.left⟩
      rintro rfl
      exact habsent hmem
    · intro w' hbeside _
      refine ⟨trivial, fun r _ => ?_⟩
      rw [World.setDisk, AList.mem_erase, beside_files hbeside]
      exact and_comm
  have hsidecar : Prog.Respects Leaves (fun _ => True)
      (ifFile me (.unlinkSidecar name) (name ++ ".sha256")
        (World.setDisk (AList.erase (name ++ ".sha256")))) :=
    respects_ifFile leaves_refl (fun _ => leaves_erase (not_archival_sidecar name))
  apply Prog.meets_bind
  apply hunlink.mono
  intro result w' hw'
  cases result with
  | error e => exact fun r hr => by cases hr
  | ok deleted =>
      apply meets_leaves_bind hsidecar
        (fun t t' ht hleaves => (hleaves.files filename hfilename).trans ht) (hw' deleted rfl)
      · intro _ w'' _ hw'' t hbeside r _
        rw [beside_files hbeside]
        exact hw''
      · exact fun e w'' r hr => by cases hr

/-- The loop removes the archives it is given and no others. -/
theorem meets_pruneLoop (hfilename : Archival filename) (names : List String) :
    Prog.Meets Beside (fun _ _ => True) (fun result w' => ∀ r, result = .ok r →
      (filename ∈ w'.disk ↔ filename ∈ w.disk ∧ filename ∉ names))
      (Prog.mapList (pruneOne me) names) w := by
  induction names generalizing w with
  | nil =>
      intro w' hbeside r _
      rw [beside_files hbeside]
      simp
  | cons name names ih =>
      apply Prog.meets_bind
      apply (meets_pruneOne hfilename name).mono
      intro result w' hw'
      cases result with
      | error e => exact fun r hr => by cases hr
      | ok r₁ =>
          apply Prog.meets_bind
          apply ih.mono
          intro rest w'' hw''
          cases rest with
          | error e => exact fun r hr => by cases hr
          | ok rs =>
              intro t hbeside r _
              rw [beside_files hbeside, hw'' rs rfl, hw' r₁ rfl, List.mem_cons, not_or]
              exact and_assoc

end Pass

/-! ## A run -/

/-- The archive is there, and the other archives are those of `w₀`. -/
structure Made (w₀ : World) (filename : String) (w : World) : Prop where
  made : filename ∈ w.disk
  files : ∀ name, Archival name → name ≠ filename → (name ∈ w.disk ↔ name ∈ w₀.disk)
  retentionKeep : w.retentionKeep = w₀.retentionKeep

theorem Made.leaves {w₀ w w' : World} {filename : String} (hfilename : Archival filename)
    (hmade : Made w₀ filename w) (h : Leaves w w') : Made w₀ filename w' where
  made := (h.files filename hfilename).mpr hmade.made
  files name hname hne := (h.files name hname).trans (hmade.files name hname hne)
  retentionKeep := h.retentionKeep.trans hmade.retentionKeep

/-- What the retention pass decides about the archive, it decides by the archives that were
there before. -/
theorem Made.outranked_iff {w₀ w : World} {filename : String} (hmade : Made w₀ filename w)
    (keep : ℕ) :
    Outranked keep w.disk.keys filename ↔ Outranked keep w₀.disk.keys filename := by
  unfold Outranked
  apply exists_congr
  intro s
  apply and_congr_right
  intro hs
  rw [rankingAbove_congr w.disk.keys_nodup w₀.disk.keys_nodup]
  intro name hname hother
  apply hmade.files name (getLast_of_stampOf hname)
  rintro rfl
  exact hother hs

/-- Whether the archive is there in the end. -/
def Decided (w₀ : World) (keep : ℕ+) (filename : String) (w : World) : Prop :=
  filename ∈ w.disk ↔ ¬ Outranked keep w₀.disk.keys filename

theorem Decided.leaves {w₀ w w' : World} {keep : ℕ+} {filename : String}
    (hfilename : Archival filename) (h : Decided w₀ keep filename w) (hleaves : Leaves w w') :
    Decided w₀ keep filename w' := (hleaves.files filename hfilename).trans h

section Run

variable {w₀ : World} {keep : ℕ+} {job : Job}

/-- The retention pass after the archive was made. -/
theorem meets_prune {me : ℕ} {filename : String} (hfilename : Archival filename) {w : World}
    (hmade : Made w₀ filename w) :
    Prog.Meets Beside (fun _ _ => True) (fun result w' => ∀ r, result = .ok r →
      Decided w₀ keep filename w') (prune me ((keep : ℕ) : ℤ)) w := by
  apply meets_leaves_bind leaves_reapPartials (fun _ _ h => h.leaves hfilename) hmade
  · intro _ w₁ _ hmade₁
    apply meets_ask_bind
    intro w₂ hbeside
    have hmade₂ := hmade₁.leaves hfilename hbeside.leaves
    refine ⟨trivial, ?_⟩
    apply Prog.meets_bind
    apply (meets_pruneLoop hfilename _).mono
    intro result w₃ hw₃
    cases result with
    | error e => exact fun r hr => by cases hr
    | ok results =>
        intro w₄ hbeside₄ r _
        rw [Decided, beside_files hbeside₄, hw₃ results rfl, and_iff_right hmade₂.made,
          mem_toDelete_iff _ w₂.disk.keys_nodup hmade₂.made, hmade₂.outranked_iff]
  · exact fun e w' r hr => by cases hr

theorem meets_retain (hfilename : Archival job.filename) (hkeep : w₀.retentionKeep = .ok keep)
    {w : World} (hmade : Made w₀ job.filename w) :
    Prog.Meets Beside (fun _ _ => True) (fun result w' => ∀ r, result = .ok r →
      Decided w₀ keep job.filename w') job.retain w := by
  apply Prog.meets_bind
  apply Prog.meets_atomic
  intro w₁ hbeside
  have hmade₁ := hmade.leaves hfilename hbeside.leaves
  rw [hmade₁.retentionKeep, hkeep]
  refine ⟨trivial, fun w₂ hbeside' => ?_⟩
  apply Prog.meets_bind
  apply (meets_prune hfilename (hmade₁.leaves hfilename hbeside'.leaves)).mono
  intro result w₃ hw₃
  cases result with
  | error e => exact fun r hr => by cases hr
  | ok pruned =>
      have hevents : Prog.Respects Leaves (fun _ => True)
          (Prog.forList (fun name => recordEvent job.me
            (job.event "backup.pruned" name [("reason", .text "retention")])) pruned) :=
        Prog.respects_forList pruned
          (fun name _ => respects_recordEvent (leaves_addEvent job.me _))
      apply (hevents.meets_of (fun w w' h hrely => h.leaves hfilename hrely.leaves)
        (fun w w' h hstep => ⟨trivial, h.leaves hfilename hstep⟩) (hw₃ pruned rfl)).mono
      intro result w' hw' r _
      exact hw'.2

/-- What a run says about its archive when it returns. -/
def Reported (w₀ : World) (keep : ℕ+) (filename : String) (result : Except Exn BackupResult)
    (w : World) : Prop :=
  ∀ made, result = .ok made → made.filename = filename ∧ Decided w₀ keep filename w

theorem Reported.beside {filename : String} {result : Except Exn BackupResult} {w w' : World}
    (hfilename : Archival filename) (h : Reported w₀ keep filename result w)
    (hbeside : Beside w w') : Reported w₀ keep filename result w' :=
  fun made hmade => ⟨(h made hmade).1, (h made hmade).2.leaves hfilename hbeside.leaves⟩

theorem made_replaceFile {source filename : String} {w : World} (hw : Leaves w₀ w)
    (entry : Entry) (hsource : ¬ Archival source) :
    Made w₀ filename (w.setDisk (fun disk => (disk.erase source).insert filename entry)) where
  made := AList.mem_insert _ |>.mpr (Or.inl rfl)
  files name hname hne := by
    have hother : name ≠ source := by
      rintro rfl
      exact hsource hname
    rw [World.setDisk, AList.mem_insert, or_iff_right hne, AList.mem_erase,
      and_iff_right hother]
    exact hw.files name hname
  retentionKeep := hw.retentionKeep

theorem meets_body (hfilename : Archival job.filename) (hkeep : w₀.retentionKeep = .ok keep)
    {w : World} (hw : Leaves w₀ w) :
    Prog.Meets Beside (fun _ _ => True) (Reported w₀ keep job.filename) job.body w := by
  have hwide : ∀ t t', Leaves w₀ t → Leaves t t' → Leaves w₀ t' :=
    fun t t' h h' => trans_of Leaves h h'
  have herror : ∀ (e : Exn) (t : World), Reported w₀ keep job.filename (.error e) t :=
    fun e t made hmade => by cases hmade
  apply meets_leaves_bind
    (respects_prepare leaves_refl (fun _ _ => ⟨fun _ _ => Iff.rfl, rfl, rfl⟩)) hwide hw
  · intro _ w₁ _ hw₁
    apply meets_leaves_bind (leaves_stream (not_archival_partialName job.filename)) hwide hw₁
    · intro _ w₂ _ hw₂
      apply Prog.meets_bind
      have hreplace : Prog.Meets Beside (fun _ _ => True) (fun result w' =>
          ∀ r, result = .ok r → Made w₀ job.filename w')
          (replaceFile job.me job.partialName job.filename) w₂ := by
        apply meets_withFile
        · intro result t t' ht hbeside r hr
          exact (ht r hr).leaves hfilename hbeside.leaves
        · exact fun w' e _ => ⟨trivial, fun r hr => by cases hr⟩
        · intro w' entry hbeside _
          exact ⟨trivial, fun r _ => made_replaceFile (hwide _ _ hw₂ hbeside.leaves)
            entry (not_archival_partialName job.filename)⟩
      apply hreplace.mono
      intro result w₃ hw₃
      cases result with
      | error e => exact herror e w₃
      | ok r =>
          apply meets_leaves_bind leaves_complete (fun _ _ h => h.leaves hfilename) (hw₃ r rfl)
          · intro made w₄ hname hw₄
            apply Prog.meets_bind
            apply (meets_retain hfilename hkeep hw₄).mono
            intro result w₅ hw₅
            cases result with
            | error e => exact herror e w₅
            | ok r =>
                intro w₆ hbeside made' hmade'
                cases hmade'
                exact ⟨hname, (hw₅ r rfl).leaves hfilename hbeside.leaves⟩
          · exact herror
    · exact herror
  · exact herror

/-- What cleans up without touching the archives does not change what is reported. -/
theorem meets_cleanup {filename : String} {p : Task BackupResult} {cleanup : Task Unit}
    (hfilename : Archival filename) {w : World}
    (hp : Prog.Meets Beside (fun _ _ => True) (Reported w₀ keep filename) p w)
    (hcleanup : Prog.Respects Leaves (fun _ => True) cleanup) :
    Prog.Meets Beside (fun _ _ => True) (Reported w₀ keep filename)
      (p.tryFinally cleanup) w := by
  apply Prog.meets_tryFinally (fun result t t' ht hbeside => ht.beside hfilename hbeside)
  apply hp.mono
  intro result t ht
  have hkeeps : ∀ u u', Reported w₀ keep filename result u → Leaves u u' →
      Reported w₀ keep filename result u' := fun u u' hu hleaves made hmade =>
    ⟨(hu made hmade).1, (hu made hmade).2.leaves hfilename hleaves⟩
  apply (hcleanup.meets_of (fun u u' hu hbeside => hkeeps u u' hu hbeside.leaves)
    (fun u u' hu hleaves => ⟨trivial, hkeeps u u' hu hleaves⟩) ht).mono
  intro ended u hu
  cases ended with
  | ok _ => exact hu.2
  | error e => exact fun made hmade => by cases hmade

theorem meets_locked (hfilename : Archival job.filename)
    (hkeep : w₀.retentionKeep = .ok keep) {w : World} (hw : Leaves w₀ w) :
    Prog.Meets Beside (fun _ _ => True) (Reported w₀ keep job.filename) job.locked w := by
  have hwide : ∀ t t', Leaves w₀ t → Leaves t t' → Leaves w₀ t' :=
    fun t t' h h' => trans_of Leaves h h'
  have herror : ∀ (e : Exn) (t : World), Reported w₀ keep job.filename (.error e) t :=
    fun e t made hmade => by cases hmade
  apply meets_leaves_bind leaves_writeLastRun hwide hw
  · intro _ w₁ _ hw₁
    apply meets_leaves_bind (respects_ask leaves_refl) hwide hw₁
    · intro version w₂ _ hw₂
      apply meets_leaves_bind (respects_recordEvent (leaves_addEvent job.me _)) hwide hw₂
      · intro _ w₃ _ hw₃
        apply meets_cleanup hfilename _
          (respects_removeStaging leaves_refl (fun _ _ => ⟨fun _ _ => Iff.rfl, rfl, rfl⟩))
        apply Prog.meets_tryExcept
        apply (meets_body hfilename hkeep hw₃).mono
        intro result w₄ hw₄
        cases result with
        | ok made => exact hw₄
        | error e =>
            have hkept : ∀ t t', Leaves w₄ t → Leaves t t' → True ∧ Leaves w₄ t' :=
              fun t t' h h' => ⟨trivial, trans_of Leaves h h'⟩
            apply (leaves_fail.meets_of (fun t t' h hrely => (hkept t t' h hrely.leaves).2)
              hkept (leaves_refl w₄)).mono
            intro result w₅ hw₅ made hmade
            exact (hw₅.1 made hmade).elim
      · exact herror
    · exact herror
  · exact herror

theorem leaves_acquire {me : ℕ} {use : Use} :
    Prog.Respects Leaves (fun _ => True) (acquire me use) :=
  respects_acquire leaves_refl (fun _ _ => ⟨fun _ _ => Iff.rfl, rfl, rfl⟩)
    (fun _ _ _ => ⟨fun _ _ => Iff.rfl, rfl, rfl⟩)

theorem meets_exclusiveLock (hfilename : Archival job.filename)
    (hkeep : w₀.retentionKeep = .ok keep) {w : World} (hw : Leaves w₀ w) :
    Prog.Meets Beside (fun _ _ => True) (Reported w₀ keep job.filename)
      (exclusiveLock job.me job.locked) w := by
  have hwide : ∀ t t', Leaves w₀ t → Leaves t t' → Leaves w₀ t' :=
    fun t t' h h' => trans_of Leaves h h'
  have herror : ∀ (e : Exn) (t : World), Reported w₀ keep job.filename (.error e) t :=
    fun e t made hmade => by cases hmade
  apply meets_leaves_bind leaves_attempt hwide hw
  · intro _ w₁ _ hw₁
    apply meets_leaves_bind leaves_attempt hwide hw₁
    · intro _ w₂ _ hw₂
      apply meets_cleanup hfilename _ leaves_unlock
      apply meets_leaves_bind leaves_acquire hwide hw₂
      · exact fun _ w₃ _ hw₃ => meets_locked hfilename hkeep hw₃
      · exact herror
    · exact herror
  · exact herror

/-- A reported archive is there exactly when fewer archives than are kept ranked above it
in the directory as it was. -/
def PresentUnlessOutranked (w₀ : World) (keep : ℕ+) (result : Except Exn BackupResult)
    (w : World) : Prop :=
  ∀ made, result = .ok made → ∃ startedAt, made.filename = archiveName startedAt w₀.version ∧
    (made.filename ∈ w.disk ↔
      ¬ Outranked keep w₀.disk.keys (archiveName startedAt w₀.version))

theorem present_unless_outranked (me : ℕ) (actor : String) (ip : Option String)
    (hkeep : w₀.retentionKeep = .ok keep) :
    Prog.Meets Beside (fun _ _ => True) (PresentUnlessOutranked w₀ keep)
      (run me actor ip) w₀ := by
  have hwide : ∀ t t', Leaves w₀ t → Leaves t t' → Leaves w₀ t' :=
    fun t t' h h' => trans_of Leaves h h'
  have herror : ∀ (e : Exn) (t : World), PresentUnlessOutranked w₀ keep (.error e) t :=
    fun e t made hmade => by cases hmade
  have hstaging : ∀ staging : World → List ℕ, Prog.Respects Leaves (fun _ => True)
      (attempt me .mkdtemp (fun w => { w with staging := staging w })) := fun staging =>
    respects_attempt leaves_refl (fun _ => ⟨fun _ _ => Iff.rfl, rfl, rfl⟩)
  apply meets_leaves_bind leaves_attempt hwide (leaves_refl w₀)
  · intro _ w₁ _ hw₁
    apply meets_leaves_bind (respects_ask leaves_refl) hwide hw₁
    · intro startedAt w₂ _ hw₂
      apply meets_ask_bind
      intro w₃ hbeside
      have hw₃ : Leaves w₀ w₃ := hwide _ _ hw₂ hbeside.leaves
      rw [hw₃.version]
      refine ⟨trivial, ?_⟩
      have hname : Archival
          (Job.filename ⟨me, actor, ip, startedAt, archiveName startedAt w₀.version⟩) :=
        getLast_archiveName startedAt w₀.version
      apply meets_leaves_bind (hstaging _) hwide hw₃
      · intro _ w₄ _ hw₄
        apply (meets_exclusiveLock hname hkeep hw₄).mono
        intro result w₅ hw₅ made hmade
        refine ⟨startedAt, (hw₅ made hmade).1, ?_⟩
        rw [(hw₅ made hmade).1]
        exact (hw₅ made hmade).2
      · exact herror
    · exact herror
  · exact herror

theorem present_unless_outranked_newDir :
    Prog.Meets Beside (fun _ _ => True) (PresentUnlessOutranked newDir 14)
      (run 1 "root" none) newDir :=
  present_unless_outranked 1 "root" none rfl

end Run

/-! ## An archive from the future -/

/-- One archive is kept, and there is one with a stamp of the next year. -/
def futureDir : World :=
  { newDir with
    disk := AList.singleton "fasttak-backup-20270101T000000Z-dev.age"
      ⟨.output .clean, [], 0, 1000, 1767225600, none⟩
    retentionKeep := .ok 1 }

/-- The run returns, and the archive it made is gone. -/
theorem reported_archive_pruned :
    ((run 1 "root" none).run futureDir).1 =
        .ok ⟨"fasttak-backup-20260501T120000Z-dev.age", 1000⟩ ∧
      "fasttak-backup-20260501T120000Z-dev.age" ∉
        ((run 1 "root" none).run futureDir).2.disk := by
  decide +kernel

end FastTAK.Backup
