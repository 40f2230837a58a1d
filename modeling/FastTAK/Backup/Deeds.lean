import FastTAK.Backup.Refusals

/-!
# What each request of a backup process does

Every request of every backup process is one of a few deeds, with what the process knows of
the lock, the state file and its own archive at that moment.  A process knows it as long as
the others keep to their deeds and it is not killed.
-/

namespace FastTAK.Backup

open FastTAK.Calendar FastTAK.Effect

/-! ## Deeds -/

/-- The reply says that a backup is running. -/
def Reply.saysRunning : Reply → Bool
  | .conflict _ => true
  | .page _ alreadyRunning => alreadyRunning
  | .exited code => code = 2
  | _ => false

/-- All that a pipeline put out, whose processes all succeeded. -/
def Entry.Complete (entry : Entry) : Prop :=
  entry.content = .output .clean ∧ entry.writers = []

instance (entry : Entry) : Decidable entry.Complete :=
  inferInstanceAs (Decidable (_ ∧ _))

/-- The process holds the lock for its run. -/
def Holds (me : ℕ) (w : World) : Prop := w.lock = some ⟨.run, me⟩

instance (me : ℕ) (w : World) : Decidable (Holds me w) :=
  inferInstanceAs (Decidable (_ = _))

/-- The process was refused the lock. -/
def Refused (me : ℕ) (w : World) : Prop := ∃ holder, (me, holder) ∈ w.record.refusals

/-- Nothing keeps the process from recording how its run ends. -/
def CanRecord (me : ℕ) (w : World) : Prop :=
  (∀ kind, w.fault me (.readState kind) = none ∧ w.fault me (.writeState kind) = none) ∧
    w.fault me .unlinkPartial = none

/-- The last record of the run says how it ended. -/
def Concluded (me : ℕ) (w : World) : Prop :=
  CanRecord me w → ∃ r, w.record.recordOf me = some r ∧ r.status ≠ .running

inductive Deed (me : ℕ) (w : World) : World → Prop
  | idle : Deed me w w
  | stage (staging : List ℕ) : Deed me w { w with staging := staging }
  | learn (identity : Option String) : Deed me w { w with identity := identity }
  | audit (e : Event) : Deed me w (w.addEvent me e)
  | answer (reply : Reply) (hreply : reply.saysRunning → Refused me w) :
      Deed me w (w.addReply me reply)
  | look (seen : Option (Writing × StateFile)) : Deed me w (w.setCurrent me seen)
  | saveRun (r : LastRun) (seen : StateFile) (hheld : Holds me w)
      (hseen : w.current me = some (.lastRun r.status, seen)) :
      Deed me w (w.save me (setLastRun r seen) (Record.setRecordOf me r))
  | saveRefused (r : LastRun) (seen : StateFile) (hrefused : Refused me w)
      (hseen : w.current me = some (.refused, seen)) :
      Deed me w (w.save me (setLastRun r seen) (Record.addRefusedRun me))
  | saveDownload (now : DateTime) (seen : StateFile)
      (hseen : w.current me = some (.download, seen)) :
      Deed me w (w.save me { seen with keyDownloadedAt := some now } Record.setDownloaded)
  | enter (use : Use) (hfree : w.lock = none) : Deed me w (w.enter use me)
  | refuse (holder : Holder) (hheld : w.lock = some holder) : Deed me w (w.refuse me holder)
  | letGo (use : Use) (hdone : use = .run → Holds me w → Concluded me w) :
      Deed me w (w.letGo use me)
  | erase (name : String) : Deed me w (w.setDisk (AList.erase name))
  | openOutput (base : String) (hheld : Holds me w) :
      Deed me w (openOutput me (base ++ ".partial") w)
  | endPipeline (exits : Option Exits) : Deed me w (endPipeline me exits w)
  | replace (source target : String) (entry : Entry) (hheld : Holds me w)
      (hsource : w.disk.lookup source = some entry)
      (hentry : entry.content = .mixed ∨ entry.Complete) :
      Deed me w (w.setDisk (fun disk => (disk.erase source).insert target entry))
  | sidecar (name : String) (entry : Entry) (hheld : Holds me w)
      (hname : stampOf name = none) (hentry : entry.content = .other ∧ entry.writers = []) :
      Deed me w (w.setDisk (AList.insert name entry))

/-! ## What a process relies on -/

/-- The lock of the process, its record, its refusals and its failures stay. -/
structure Knows (me : ℕ) (w w' : World) : Prop where
  lock : ∀ use, w'.lock = some ⟨use, me⟩ ↔ w.lock = some ⟨use, me⟩
  recordOf : w'.record.recordOf me = w.record.recordOf me
  refusals : ∀ holder, (me, holder) ∈ w.record.refusals → (me, holder) ∈ w'.record.refusals
  fault : w'.fault = w.fault

/-- The others also leave to the process its variables and, while it holds the lock, the
files that it alone writes, which they may remove. -/
structure Rely (me : ℕ) (w w' : World) : Prop extends Knows me w w' where
  current : w'.current me = w.current me
  files : Holds me w → ∀ name entry', w'.disk.lookup name = some entry' →
    ∃ entry, w.disk.lookup name = some entry ∧
      (entry.content = .mixed → entry'.content = .mixed) ∧
      ((∀ k ∈ entry.writers, k = me) → entry' = entry)

section Knows

variable {me : ℕ} {w w' : World}

theorem Knows.holds (h : Knows me w w') : Holds me w' ↔ Holds me w := h.lock .run

theorem Knows.canRecord (h : Knows me w w') : CanRecord me w' ↔ CanRecord me w := by
  rw [CanRecord, CanRecord, h.fault]

theorem Knows.concluded (h : Knows me w w') (hw : Concluded me w) : Concluded me w' := by
  rw [Concluded, h.canRecord, h.recordOf]
  exact hw

theorem Knows.refused (h : Knows me w w') (hw : Refused me w) : Refused me w' := by
  obtain ⟨holder, hmem⟩ := hw
  exact ⟨holder, h.refusals holder hmem⟩

theorem knows_same (hlock : w'.lock = w.lock) (hrecord : w'.record = w.record)
    (hfault : w'.fault = w.fault) : Knows me w w' where
  lock use := by rw [hlock]
  recordOf := by rw [hrecord]
  refusals holder hmem := by rwa [hrecord]
  fault := hfault

end Knows

instance (me : ℕ) : IsPreorder World (Knows me) where
  refl _ := knows_same rfl rfl rfl
  trans _ _ _ h h' :=
    { lock := fun use => (h'.lock use).trans (h.lock use)
      recordOf := h'.recordOf.trans h.recordOf
      refusals := fun holder hmem => h'.refusals holder (h.refusals holder hmem)
      fault := h'.fault.trans h.fault }

instance (me : ℕ) : IsPreorder World (Rely me) where
  refl w :=
    { toKnows := refl_of (Knows me) w
      current := rfl
      files := fun _ name entry' h => ⟨entry', h, id, fun _ => rfl⟩ }
  trans w w' w'' h h' :=
    { toKnows := trans_of (Knows me) h.toKnows h'.toKnows
      current := h'.current.trans h.current
      files := by
        intro hheld name entry'' hentry''
        obtain ⟨entry', hentry', hmixed', hown'⟩ :=
          h'.files (h.holds.mpr hheld) name entry'' hentry''
        obtain ⟨entry, hentry, hmixed, hown⟩ := h.files hheld name entry' hentry'
        refine ⟨entry, hentry, fun hm => hmixed' (hmixed hm), fun hwriters => ?_⟩
        have hsame := hown hwriters
        subst hsame
        exact hown' hwriters }

/-- A process that meets its guarantee. -/
abbrev Keeps {α : Type} (me : ℕ) (post : Except Exn α → World → Prop) (p : Task α)
    (w : World) : Prop :=
  Prog.Meets (Rely me) (Deed me) post p w

/-! ## Requests that change nothing the process knows -/

/-- A deed after which the process knows what it knew. -/
def Private (me : ℕ) (w w' : World) : Prop := Deed me w w' ∧ Knows me w w'

section Private

variable {me : ℕ} {job : Job}

theorem private_idle (w : World) : Private me w w := ⟨.idle, refl_of (Knows me) w⟩

theorem private_audit (w : World) (e : Event) : Private me w (w.addEvent me e) := by
  refine ⟨.audit e, ?_⟩
  unfold World.addEvent
  split_ifs
  · exact refl_of (Knows me) w
  · exact knows_same rfl rfl rfl

theorem private_erase (w : World) (name : String) :
    Private me w (w.setDisk (AList.erase name)) := ⟨.erase name, knows_same rfl rfl rfl⟩

/-- A request after which the process knows what it knew, and what comes after it. -/
theorem keeps_private_bind {α β : Type} {P : α → Prop} {p : Task α} {next : α → Task β}
    {post : Except Exn β → World → Prop} {known : World → Prop}
    (hp : Prog.Respects (Private me) P p)
    (hknown : ∀ w w', known w → Knows me w w' → known w') {w : World} (hw : known w)
    (hnext : ∀ a w', P a → known w' → Keeps me post (next a) w')
    (herror : ∀ e w', known w' → post (.error e) w') : Keeps me post (p >>= next) w :=
  hp.meets_bind (fun w w' h hrely => hknown w w' h hrely.toKnows)
    (fun w w' h hstep => ⟨hstep.1, hknown w w' h hstep.2⟩) hw hnext herror

/-- What the process knows it knows after such a request. -/
theorem keeps_private {α : Type} {P : α → Prop} {p : Task α} {known : World → Prop}
    (hp : Prog.Respects (Private me) P p)
    (hknown : ∀ w w', known w → Knows me w w' → known w') {w : World} (hw : known w) :
    Keeps me (fun _ w' => known w') p w :=
  (hp.meets_of (fun w w' h hrely => hknown w w' h hrely.toKnows)
    (fun w w' h hstep => ⟨hstep.1, hknown w w' h hstep.2⟩) hw).mono (fun _ _ h => h.2)

/-- An audit row, which never fails the process, and what comes after it. -/
theorem keeps_audit_bind {β : Type} {e : Event} {next : Unit → Task β}
    {post : Except Exn β → World → Prop} {known : World → Prop}
    (hknown : ∀ w w', known w → Knows me w w' → known w') {w : World} (hw : known w)
    (hnext : ∀ w', known w' → Keeps me post (next ()) w') :
    Keeps me post (recordEvent me e >>= next) w := by
  intro w' hrely
  obtain ⟨hdeed, hknows⟩ := (private_audit w' e : Private me w' _)
  exact ⟨hdeed, hnext _ (hknown w' _ (hknown w w' hw hrely.toKnows) hknows)⟩

theorem private_attempt {step : Step} :
    Prog.Respects (Private me) (fun _ => True) (attempt me step id) :=
  respects_attempt private_idle private_idle

theorem private_prepare : Prog.Respects (Private job.me) (fun _ => True) job.prepare :=
  respects_prepare private_idle (fun _ identity => ⟨.learn identity, knows_same rfl rfl rfl⟩)

theorem private_retain : Prog.Respects (Private job.me) (fun _ => True) job.retain := by
  apply Prog.respects_bind (respects_retentionKeep private_idle)
  intro keep _
  apply Prog.respects_bind (respects_prune private_idle private_erase)
  intro pruned _
  exact Prog.respects_forList pruned
    (fun name _ => respects_recordEvent (fun w => private_audit w _))

theorem private_removeStaging :
    Prog.Respects (Private me) (fun _ => True) (removeStaging me) :=
  respects_removeStaging private_idle
    (fun _ staging => ⟨.stage staging, knows_same rfl rfl rfl⟩)

end Private

end FastTAK.Backup
