import FastTAK.Backup.Deeds

/-!
# Every request is a deed

Step by step through a run and through the requests that start one: what a process knows
when it makes each request, as long as the others keep to their deeds.
-/

namespace FastTAK.Backup

open FastTAK.Calendar FastTAK.Effect

/-! ## The state file -/

section State

variable {me : ℕ}

/-- After its read a process knows what it read.  A read fails only where the system fails
it. -/
theorem keeps_readState_bind {β : Type} {kind : Writing} {next : Unit → Task β}
    {post : Except Exn β → World → Prop} {known : World → Prop}
    (hknown : ∀ w w', known w → Knows me w w' → known w') {w : World} (hw : known w)
    (hnext : ∀ seen w', known w' → w'.current me = some (kind, seen) →
      Keeps me post (next ()) w')
    (herror : ∀ e w', known w' → ¬ CanRecord me w' → post (.error e) w') :
    Keeps me post (readState me kind >>= next) w := by
  have hread : Keeps me (fun result w' =>
      match result with
      | .ok _ => known w' ∧ ∃ seen, w'.current me = some (kind, seen)
      | .error _ => known w' ∧ ¬ CanRecord me w') (readState me kind) w := by
    apply meets_attempt
    · intro result t t' ht hrely
      cases result with
      | ok _ =>
          refine ⟨hknown t t' ht.1 hrely.toKnows, ?_⟩
          rw [hrely.current]
          exact ht.2
      | error e =>
          exact ⟨hknown t t' ht.1 hrely.toKnows, fun hcan => ht.2 (hrely.canRecord.mp hcan)⟩
    · intro w' f hrely hfault
      refine ⟨.idle, hknown w w' hw hrely.toKnows, fun hcan => ?_⟩
      rw [(hcan.1 kind).1] at hfault
      cases hfault
    · intro w' hrely _
      exact ⟨.look _, hknown w' _ (hknown w w' hw hrely.toKnows) (knows_same rfl rfl rfl),
        _, Function.update_self me _ _⟩
  apply Prog.meets_bind
  apply hread.mono
  intro result w' hw'
  cases result with
  | ok _ =>
      obtain ⟨hw', seen, hseen⟩ := hw'
      exact hnext seen w' hw' hseen
  | error e => exact herror e w' hw'.1 hw'.2

/-- A write fails only where the system fails it. -/
theorem keeps_writeState {kind : Writing} {change : StateFile → StateFile}
    {note : Record → Record} {known after : World → Prop} {seen : StateFile}
    (hknown : ∀ w w', known w → Knows me w w' → known w')
    (hafter : ∀ w w', after w → Knows me w w' → after w')
    (hsave : ∀ w, known w → w.current me = some (kind, seen) →
      Deed me w (w.save me (change seen) note) ∧ after (w.save me (change seen) note))
    {w : World} (hw : known w) (hseen : w.current me = some (kind, seen)) :
    Keeps me (fun result w' =>
      match result with
      | .ok _ => after w'
      | .error _ => known w' ∧ ¬ CanRecord me w') (writeState me kind change note) w := by
  apply Prog.meets_atomic
  intro w₁ hrely₁
  have hw₁ := hknown w w₁ hw hrely₁.toKnows
  have hseen₁ := hrely₁.current.trans hseen
  rw [hseen₁]
  cases hwrite : w₁.fault me (.writeState kind) with
  | some f =>
      let kept := w₁.setCurrent me none
      have hkept : known kept := hknown w₁ kept hw₁ (knows_same rfl rfl rfl)
      refine ⟨.look none, fun w₂ (hrely₂ : Rely me kept w₂) => ?_⟩
      refine ⟨hknown kept w₂ hkept hrely₂.toKnows, fun hcan => ?_⟩
      have hnone : w₁.fault me (.writeState kind) = none :=
        ((hrely₂.canRecord.mp hcan).1 kind).2
      rw [hwrite] at hnone
      cases hnone
  | none =>
      obtain ⟨hdeed, hdone⟩ := hsave w₁ hw₁ hseen₁
      exact ⟨hdeed, fun w₂ hrely₂ => hafter _ w₂ hdone hrely₂.toKnows⟩

theorem keeps_readWrite {kind : Writing} {change : StateFile → StateFile}
    {note : Record → Record} {known after : World → Prop}
    (hknown : ∀ w w', known w → Knows me w w' → known w')
    (hafter : ∀ w w', after w → Knows me w w' → after w')
    (hsave : ∀ w seen, known w → w.current me = some (kind, seen) →
      Deed me w (w.save me (change seen) note) ∧ after (w.save me (change seen) note))
    {w : World} (hw : known w) :
    Keeps me (fun result w' =>
      match result with
      | .ok _ => after w'
      | .error _ => known w' ∧ ¬ CanRecord me w')
      (readState me kind >>= fun _ => writeState me kind change note) w := by
  apply keeps_readState_bind hknown hw
  · intro seen w' hw' hseen
    exact keeps_writeState hknown hafter (fun t ht hseen => hsave t seen ht hseen) hw' hseen
  · exact fun e w' hw' hcannot => ⟨hw', hcannot⟩

theorem holds_stable (w w' : World) (h : Holds me w) (hknows : Knows me w w') : Holds me w' :=
  hknows.holds.mpr h

theorem outside_stable (w w' : World) (h : ¬ Holds me w) (hknows : Knows me w w') :
    ¬ Holds me w' := fun hw' => h (hknows.holds.mp hw')

/-- A run that holds the lock records how far it is. -/
theorem keeps_writeLastRun {r : LastRun} {w : World} (hw : Holds me w) :
    Keeps me (fun result w' =>
      match result with
      | .ok _ => Holds me w' ∧ w'.record.recordOf me = some r
      | .error _ => Holds me w' ∧ ¬ CanRecord me w') (writeLastRun me r) w := by
  have hafter : ∀ t t', Holds me t ∧ t.record.recordOf me = some r → Knows me t t' →
      Holds me t' ∧ t'.record.recordOf me = some r := fun t t' h hknows =>
    ⟨hknows.holds.mpr h.1, hknows.recordOf.trans h.2⟩
  apply keeps_readWrite holds_stable hafter _ hw
  intro t seen hheld hseen
  exact ⟨.saveRun r seen hheld hseen, hheld, Function.update_self me _ _⟩

/-- A request whose run was refused says so. -/
theorem keeps_writeRefused {r : LastRun} {w : World} (hw : ¬ Holds me w ∧ Refused me w) :
    Keeps me (fun _ w' => ¬ Holds me w' ∧ Refused me w') (writeRefused me r) w := by
  have hstable : ∀ t t', ¬ Holds me t ∧ Refused me t → Knows me t t' →
      ¬ Holds me t' ∧ Refused me t' := fun t t' h hknows =>
    ⟨outside_stable t t' h.1 hknows, hknows.refused h.2⟩
  have hboth : Keeps me (fun result w' =>
      match result with
      | .ok _ => ¬ Holds me w' ∧ Refused me w'
      | .error _ => (¬ Holds me w' ∧ Refused me w') ∧ ¬ CanRecord me w')
      (writeRefused me r) w := by
    apply keeps_readWrite hstable hstable _ hw
    intro t seen ht hseen
    exact ⟨.saveRefused r seen ht.2 hseen, ht⟩
  apply hboth.mono
  intro result w' hw'
  cases result with
  | ok _ => exact hw'
  | error e => exact hw'.1

end State

/-! ## The archive -/

section Archive

variable {me : ℕ} {out : String}

/-- The file has the one writer, or two pipelines wrote it. -/
def Opened (me : ℕ) (out : String) (w : World) : Prop :=
  ∀ entry, w.disk.lookup out = some entry →
    entry.content = .mixed ∨ entry.content = .unfinished ∧ entry.writers = [me]

/-- The file has all that the pipeline put out, or two pipelines wrote it. -/
def Closed (exits : Exits) (out : String) (w : World) : Prop :=
  ∀ entry, w.disk.lookup out = some entry →
    entry.content = .mixed ∨ entry.content = .output exits ∧ entry.writers = []

theorem opened_stable {w w' : World} (hheld : Holds me w) (h : Opened me out w)
    (hrely : Rely me w w') : Opened me out w' := by
  intro entry' hentry'
  obtain ⟨entry, hentry, hmixed, hown⟩ := hrely.files hheld out entry' hentry'
  cases h entry hentry with
  | inl hcontent => exact Or.inl (hmixed hcontent)
  | inr hcontent =>
      have hsame := hown (by rw [hcontent.2]; simp)
      subst hsame
      exact Or.inr hcontent

theorem closed_stable {exits : Exits} {w w' : World} (hheld : Holds me w)
    (h : Closed exits out w) (hrely : Rely me w w') : Closed exits out w' := by
  intro entry' hentry'
  obtain ⟨entry, hentry, hmixed, hown⟩ := hrely.files hheld out entry' hentry'
  cases h entry hentry with
  | inl hcontent => exact Or.inl (hmixed hcontent)
  | inr hcontent =>
      have hsame := hown (by rw [hcontent.2]; simp)
      subst hsame
      exact Or.inr hcontent

theorem opened_openOutput (w : World) : Opened me out (openOutput me out w) := by
  intro entry hentry
  rw [openOutput, World.setDisk, AList.lookup_insert] at hentry
  cases hentry
  dsimp only
  split_ifs with hnone
  · rw [hnone]
    exact Or.inr ⟨rfl, rfl⟩
  · exact Or.inl rfl

/-- When the pipeline ends, its file is complete with the statuses of its processes. -/
theorem closed_endPipeline {exits : Exits} {w : World} (h : Opened me out w) :
    Closed exits out (endPipeline me (some exits) w) := by
  intro entry' hentry'
  rw [endPipeline, World.setDisk, lookup_mapFiles] at hentry'
  obtain ⟨entry, hentry, rfl⟩ := Option.map_eq_some_iff.mp hentry'
  unfold closeOutput
  cases h entry hentry with
  | inl hmixed =>
      apply Or.inl
      split_ifs
      · rfl
      · exact hmixed
  | inr hopen =>
      apply Or.inr
      rw [if_pos (by rw [hopen.2]; simp)]
      refine ⟨if_neg (by rw [hopen.1]; simp), ?_⟩
      simp [hopen.2]

/-- The end of `_stream_encrypted_archive`. -/
theorem keeps_statuses {exits : Exits} {w : World} (hw : Holds me w)
    (hclosed : Closed exits out w) :
    Keeps me (fun result w' => Holds me w' ∧ ∀ r, result = .ok r → Closed .clean out w')
      (if exits.age ≠ 0 then Prog.raise (.other "RuntimeError" "age failed")
        else if exits.tar ≠ 0 then Prog.raise (.other "RuntimeError" "tar (staging) failed")
        else if exits.gzip ≠ 0 then Prog.raise (.other "RuntimeError" "gzip failed")
        else pure ()) w := by
  split_ifs with hage htar hgzip
  · exact fun w' hrely => ⟨hrely.holds.mpr hw, fun r hr => by cases hr⟩
  · exact fun w' hrely => ⟨hrely.holds.mpr hw, fun r hr => by cases hr⟩
  · exact fun w' hrely => ⟨hrely.holds.mpr hw, fun r hr => by cases hr⟩
  · have hclean : exits = .clean := by
      rw [not_not] at hage htar hgzip
      cases exits
      simp_all [Exits.clean]
    subst hclean
    exact fun w' hrely =>
      ⟨hrely.holds.mpr hw, fun r _ => closed_stable hw hclosed hrely⟩

/-- The archive is written under the lock, and is complete if nothing failed. -/
theorem keeps_stream {base : String} (hout : out = base ++ ".partial") {w : World}
    (hw : Holds me w) :
    Keeps me (fun result w' =>
      Holds me w' ∧ ∀ r, result = .ok r → Closed .clean out w')
      (streamEncryptedArchive me out) w := by
  have herror : ∀ (e : Exn) (t : World), Holds me t →
      (Holds me t ∧ ∀ r : Unit, Except.error e = .ok r → Closed .clean out t) :=
    fun e t ht => ⟨ht, fun r hr => by cases hr⟩
  apply keeps_private_bind private_attempt holds_stable hw
  · intro _ w₁ _ hw₁
    apply keeps_private_bind private_attempt holds_stable hw₁
    · intro _ w₂ _ hw₂
      apply Prog.meets_bind
      have hopen : Keeps me (fun result w' => Holds me w' ∧ ∀ r, result = .ok r →
          Opened me out w') (attempt me .openArchive (openOutput me out)) w₂ := by
        apply meets_attempt
        · exact fun result t t' ht hrely =>
            ⟨hrely.holds.mpr ht.1, fun r hr => opened_stable ht.1 (ht.2 r hr) hrely⟩
        · intro w' f hrely _
          exact ⟨.idle, hrely.holds.mpr hw₂, fun r hr => by cases hr⟩
        · intro w' hrely _
          have hheld := hrely.holds.mpr hw₂
          subst hout
          exact ⟨.openOutput base hheld, hheld, fun r _ => opened_openOutput w'⟩
      apply hopen.mono
      intro result w₃ hw₃
      cases result with
      | error e => exact herror e w₃ hw₃.1
      | ok r =>
          apply Prog.meets_bind
          apply Prog.meets_atomic
          intro w₄ hrely₄
          have hheld₄ := hrely₄.holds.mpr hw₃.1
          have hopened₄ := opened_stable hw₃.1 (hw₃.2 r rfl) hrely₄
          cases hfault : w₄.fault me .runAge with
          | some f =>
              exact ⟨.endPipeline none, fun w₅ hrely₅ =>
                herror _ w₅ (hrely₅.holds.mpr hheld₄)⟩
          | none =>
              let ended := endPipeline me (some (w₄.exits me)) w₄
              have hended : Holds me ended := hheld₄
              have hclosed : Closed (w₄.exits me) out ended := closed_endPipeline hopened₄
              refine ⟨.endPipeline _, fun w₅ (hrely₅ : Rely me ended w₅) => ?_⟩
              have hw₅ := hrely₅.holds.mpr hended
              have hclosed₅ := closed_stable hended hclosed hrely₅
              exact keeps_statuses hw₅ hclosed₅
    · exact herror
  · exact herror

end Archive

/-! ## A run -/

section Run

variable {me : ℕ} {job : Job}

/-- The process holds the lock, and the last record of its run says how it ended. -/
def Told (me : ℕ) (w : World) : Prop := Holds me w ∧ Concluded me w

theorem told_stable (w w' : World) (h : Told me w) (hknows : Knows me w w') : Told me w' :=
  ⟨hknows.holds.mpr h.1, hknows.concluded h.2⟩

theorem concluded_of_cannot {w : World} (h : ¬ CanRecord me w) : Concluded me w :=
  fun hcan => absurd hcan h

theorem keeps_complete {w : World} (hw : Holds job.me w) :
    Keeps job.me (fun result w' => Holds job.me w' ∧ ∀ r, result = .ok r → Told job.me w')
      job.complete w := by
  have herror : ∀ (e : Exn) (t : World), Holds job.me t →
      (Holds job.me t ∧ ∀ r : BackupResult, Except.error e = .ok r → Told job.me t) :=
    fun e t ht => ⟨ht, fun r hr => by cases hr⟩
  have hsidecar : Keeps job.me (fun _ w' => Holds job.me w')
      (writeSidecar job.me job.filename) w := by
    apply Prog.meets_atomic
    intro w' hrely
    have hheld := hrely.holds.mpr hw
    have hends : Deed job.me w' ((writeSidecar job.me job.filename).run w').2 ∧
        Holds job.me ((writeSidecar job.me job.filename).run w').2 := by
      cases writeSidecar_effect job.me job.filename w' with
      | inl hidle =>
          rw [hidle]
          exact ⟨.idle, hheld⟩
      | inr hwritten =>
          obtain ⟨attests, hset⟩ := hwritten
          rw [hset]
          exact ⟨.sidecar _ _ hheld (stampOf_sidecar job.filename) ⟨rfl, rfl⟩, hheld⟩
    exact ⟨hends.1, fun t hmoved => hmoved.holds.mpr hends.2⟩
  have hstat : Prog.Respects (Private job.me) (fun _ => True)
      (statSize job.me job.filename) :=
    Prog.respects_bind (respects_withFile private_idle (fun w _ _ => private_idle w))
      (fun _ _ => respects_ask private_idle)
  apply Prog.meets_bind
  apply hsidecar.mono
  intro result w₁ hw₁
  cases result with
  | error e => exact herror e w₁ hw₁
  | ok _ =>
      apply keeps_private_bind hstat holds_stable hw₁
      · intro size w₂ _ hw₂
        apply keeps_private_bind (respects_ask private_idle) holds_stable hw₂
        · intro finishedAt w₃ _ hw₃
          apply Prog.meets_bind
          apply (keeps_writeLastRun hw₃).mono
          intro result w₄ hw₄
          cases result with
          | error e => exact herror e w₄ hw₄.1
          | ok _ =>
              have htold : Told job.me w₄ := ⟨hw₄.1, fun _ => ⟨_, hw₄.2, by simp [Job.lastRun]⟩⟩
              apply keeps_private_bind (respects_recordEvent (fun w => private_audit w _))
                told_stable htold
              · intro _ w₅ _ hw₅ w₆ hrely
                exact ⟨hrely.holds.mpr hw₅.1, fun r _ => told_stable _ _ hw₅ hrely.toKnows⟩
              · exact fun e t ht => herror e t ht.1
        · exact herror
      · exact herror

theorem keeps_body {w : World} (hw : Holds job.me w) :
    Keeps job.me (fun result w' => Holds job.me w' ∧ ∀ r, result = .ok r → Told job.me w')
      job.body w := by
  have herror : ∀ (e : Exn) (t : World), Holds job.me t →
      (Holds job.me t ∧ ∀ r : BackupResult, Except.error e = .ok r → Told job.me t) :=
    fun e t ht => ⟨ht, fun r hr => by cases hr⟩
  apply keeps_private_bind private_prepare holds_stable hw
  · intro _ w₁ _ hw₁
    apply Prog.meets_bind
    apply (keeps_stream rfl hw₁).mono
    intro result w₂ hw₂
    cases result with
    | error e => exact herror e w₂ hw₂.1
    | ok r₂ =>
        have hreplace : Keeps job.me (fun _ w' => Holds job.me w')
            (replaceFile job.me job.partialName job.filename) w₂ := by
          apply meets_withFile (fun _ t t' ht hrely => hrely.holds.mpr ht)
          · exact fun w' e hrely => ⟨.idle, hrely.holds.mpr hw₂.1⟩
          · intro w' entry hrely hentry
            have hheld := hrely.holds.mpr hw₂.1
            have hclosed := closed_stable hw₂.1 (hw₂.2 r₂ rfl) hrely
            exact ⟨.replace _ _ entry hheld hentry (hclosed entry hentry), hheld⟩
        apply Prog.meets_bind
        apply hreplace.mono
        intro result w₃ hw₃
        cases result with
        | error e => exact herror e w₃ hw₃
        | ok _ =>
            apply Prog.meets_bind
            apply (keeps_complete hw₃).mono
            intro result w₄ hw₄
            cases result with
            | error e => exact herror e w₄ hw₄.1
            | ok made =>
                apply keeps_private_bind private_retain told_stable (hw₄.2 made rfl)
                · intro _ w₅ _ hw₅ w₆ hrely
                  exact ⟨hrely.holds.mpr hw₅.1, fun r _ => told_stable _ _ hw₅ hrely.toKnows⟩
                · exact fun e t ht => herror e t ht.1
  · exact herror

/-- What a run does when it failed, which it records. -/
theorem keeps_fail {exc : Exn} {w : World} (hw : Holds job.me w) :
    Keeps job.me (fun _ w' => Told job.me w') (job.fail exc) w := by
  have htold : ∀ t, Holds job.me t → ¬ CanRecord job.me t → Told job.me t :=
    fun t ht hcannot => ⟨ht, concluded_of_cannot hcannot⟩
  have hcannot_stable : ∀ t t', Holds job.me t ∧ ¬ CanRecord job.me t →
      Knows job.me t t' → Holds job.me t' ∧ ¬ CanRecord job.me t' := fun t t' ht hknows =>
    ⟨hknows.holds.mpr ht.1, fun hcan => ht.2 (hknows.canRecord.mp hcan)⟩
  have hcleanup : Keeps job.me (fun result w' =>
      match result with
      | .ok _ => Holds job.me w'
      | .error _ => Holds job.me w' ∧ ¬ CanRecord job.me w')
      (ifFile job.me .unlinkPartial job.partialName
        (World.setDisk (AList.erase job.partialName))) w := by
    apply meets_ifFile
    · intro result t t' ht hrely
      cases result with
      | ok _ => exact hrely.holds.mpr ht
      | error e => exact hcannot_stable t t' ht hrely.toKnows
    · intro w' f hrely hfault
      refine ⟨.idle, hrely.holds.mpr hw, fun hcan => ?_⟩
      rw [hcan.2] at hfault
      cases hfault
    · exact fun w' hrely _ => ⟨.idle, hrely.holds.mpr hw⟩
    · exact fun w' hrely _ => ⟨.erase _, hrely.holds.mpr hw⟩
  apply Prog.meets_bind
  apply Prog.meets_bind
  apply hcleanup.mono
  intro result w₁ hw₁
  cases result with
  | error e => exact htold w₁ hw₁.1 hw₁.2
  | ok _ =>
      intro w₂ hrely₂
      apply meets_ask_bind
      intro w₃ hrely₃
      refine ⟨.idle, ?_⟩
      have hw₃ : Holds job.me w₃ := hrely₃.holds.mpr (hrely₂.holds.mpr hw₁)
      apply Prog.meets_bind
      apply (keeps_writeLastRun hw₃).mono
      intro result w₄ hw₄
      cases result with
      | error e => exact htold w₄ hw₄.1 hw₄.2
      | ok _ =>
          have htold₄ : Told job.me w₄ := ⟨hw₄.1, fun _ => ⟨_, hw₄.2, by simp [Job.lastRun]⟩⟩
          apply keeps_private_bind (respects_recordEvent (fun w => private_audit w _))
            told_stable htold₄
          · exact fun _ w₅ _ hw₅ w₆ hrely => told_stable w₅ w₆ hw₅ hrely.toKnows
          · exact fun e t ht => ht

theorem keeps_locked {w : World} (hw : Holds job.me w) :
    Keeps job.me (fun _ w' => Told job.me w') job.locked w := by
  apply Prog.meets_bind
  apply (keeps_writeLastRun hw).mono
  intro result w₁ hw₁
  cases result with
  | error e => exact ⟨hw₁.1, concluded_of_cannot hw₁.2⟩
  | ok _ =>
      apply meets_ask_bind
      intro w₂ hrely₂
      refine ⟨.idle, ?_⟩
      apply keeps_audit_bind holds_stable (hrely₂.holds.mpr hw₁.1)
      intro w₃ hw₃
      apply Prog.meets_tryFinally (fun _ t t' ht hrely => told_stable t t' ht hrely.toKnows)
      apply Prog.meets_tryExcept
      apply (keeps_body hw₃).mono
      have hclean : ∀ t, Told job.me t → ∀ result : Except Exn BackupResult,
          Keeps job.me (fun ended t' =>
            match ended with
            | .ok _ => Told job.me t'
            | .error _ => Told job.me t') (removeStaging job.me) t := by
        intro t ht result
        apply (keeps_private private_removeStaging told_stable ht).mono
        intro ended t' ht'
        cases ended with
        | ok _ => exact ht'
        | error e => exact ht'
      intro result w₄ hw₄
      cases result with
      | ok made => exact hclean w₄ (hw₄.2 made rfl) (.ok made)
      | error e =>
          apply (keeps_fail hw₄.1).mono
          intro result w₅ hw₅
          exact hclean w₅ hw₅ result

/-! ## The lock -/

/-- What the process knows when it is done with the lock: had it the lock for a run, its
record says how the run ended; and only a refusal says that a run is going. -/
structure Done {α : Type} (me : ℕ) (result : Except Exn α) (w : World) : Prop where
  concluded : Holds me w → Concluded me w
  refused : result = .error .alreadyRunning → Refused me w

theorem Done.knows {α : Type} {result : Except Exn α} {w w' : World} (h : Done me result w)
    (hknows : Knows me w w') : Done me result w' where
  concluded hheld := hknows.concluded (h.concluded (hknows.holds.mp hheld))
  refused hresult := hknows.refused (h.refused hresult)

/-- What the process knows after the lock: it does not hold it. -/
structure After {α : Type} (me : ℕ) (result : Except Exn α) (w : World) : Prop where
  outside : ¬ Holds me w
  refused : result = .error .alreadyRunning → Refused me w

theorem After.knows {α : Type} {result : Except Exn α} {w w' : World} (h : After me result w)
    (hknows : Knows me w w') : After me result w' where
  outside := outside_stable w w' h.outside hknows
  refused hresult := hknows.refused (h.refused hresult)

theorem not_holds_letGo (w : World) : ¬ Holds me (w.letGo .run me) := by
  unfold World.letGo Holds
  split_ifs with hheld
  · simp
  · exact hheld

theorem refused_letGo {use : Use} {w : World} (h : Refused me w) :
    Refused me (w.letGo use me) := by
  unfold World.letGo
  split_ifs
  · exact h
  · exact h

theorem keeps_acquire {use : Use} {w : World} (hw : ¬ Holds me w) :
    Keeps me (fun result w' =>
      match result with
      | .ok _ => Holds me w' ↔ use = .run
      | .error e => After me (.error e : Except Exn Unit) w') (acquire me use) w := by
  apply Prog.meets_atomic
  intro w₁ hrely₁
  have hw₁ := outside_stable w w₁ hw hrely₁.toKnows
  cases w₁.fault me (.flock use) with
  | some f =>
      exact ⟨.idle, fun w₂ hrely₂ =>
        ⟨outside_stable w₁ w₂ hw₁ hrely₂.toKnows, fun hresult => by cases hresult⟩⟩
  | none =>
      cases hlock : w₁.lock with
      | none =>
          let entered := w₁.enter use me
          have hentered : Holds me entered ↔ use = .run := by
            cases use <;> simp [Holds, entered, World.enter]
          exact ⟨.enter use hlock, fun w₂ (hrely₂ : Rely me entered w₂) =>
            hrely₂.holds.trans hentered⟩
      | some holder =>
          let refused := w₁.refuse me holder
          have hrefused : After me (.error .alreadyRunning : Except Exn Unit) refused :=
            ⟨hw₁, fun _ => ⟨holder, List.mem_cons_self⟩⟩
          exact ⟨.refuse holder hlock, fun w₂ hrely₂ => hrefused.knows hrely₂.toKnows⟩

/-- The lock is let go at the latest when its descriptor is closed. -/
theorem keeps_unlock {α : Type} {result : Except Exn α} {w : World} (hw : Done me result w) :
    Keeps me (fun _ w' => After me result w')
      (Prog.tryFinally (release me .run) (closeLock me .run)) w := by
  have hletGo : ∀ t, Done me result t → Deed me t (t.letGo .run me) ∧
      After me result (t.letGo .run me) := fun t ht =>
    ⟨.letGo .run (fun _ hheld => ht.concluded hheld),
      ⟨not_holds_letGo t, fun hresult => refused_letGo (ht.refused hresult)⟩⟩
  have hrelease : Keeps me (fun _ w' => Done me result w') (release me .run) w := by
    apply meets_attempt (fun _ t t' ht hrely => ht.knows hrely.toKnows)
    · exact fun w' f hrely _ => ⟨.idle, hw.knows hrely.toKnows⟩
    · intro w' hrely _
      obtain ⟨hdeed, hafter⟩ := hletGo w' (hw.knows hrely.toKnows)
      exact ⟨hdeed, fun hheld => absurd hheld hafter.outside, hafter.refused⟩
  apply Prog.meets_tryFinally (fun _ t t' ht hrely => ht.knows hrely.toKnows)
  apply hrelease.mono
  intro ended w₁ hw₁
  apply Prog.meets_atomic
  intro w₂ hrely₂
  obtain ⟨hdeed, hafter⟩ := hletGo w₂ (hw₁.knows hrely₂.toKnows)
  cases w₂.fault me (.closeLock .run) with
  | some f => exact ⟨hdeed, fun w₃ hrely₃ => hafter.knows hrely₃.toKnows⟩
  | none => exact ⟨hdeed, fun w₃ hrely₃ => hafter.knows hrely₃.toKnows⟩

theorem after_error {α : Type} {e : Exn} {w : World} (he : NotRunning e) (hw : ¬ Holds me w) :
    After me (.error e : Except Exn α) w :=
  ⟨hw, fun hresult => absurd (Except.error.inj hresult) he⟩

/-- A request outside of the lock that does not concern it, and what comes after it. -/
theorem keeps_outside_bind {α β : Type} {P : α → Prop} {p : Task α} {next : α → Task β}
    (hp : Prog.Respects (Private me) P p) (hraises : Prog.Raises NotRunning p) {w : World}
    (hw : ¬ Holds me w)
    (hnext : ∀ a w', ¬ Holds me w' → Keeps me (fun result w'' => After me result w'') (next a) w') :
    Keeps me (fun result w' => After me result w') (p >>= next) w := by
  apply Prog.meets_bind
  apply (hraises.meets (keeps_private hp outside_stable hw)).mono
  intro result w' hw'
  cases result with
  | ok a => exact hnext a w' hw'.1
  | error e => exact after_error (hw'.2 e rfl) hw'.1

/-- What runs under the lock keeps the lock for the process and concludes its record. -/
theorem keeps_exclusiveLock {α : Type} {body : Task α}
    (hbody : ∀ w, Holds me w → Keeps me (fun _ w' => Told me w') body w)
    (hraises : Prog.Raises NotRunning body) {w : World} (hw : ¬ Holds me w) :
    Keeps me (fun result w' => After me result w') (exclusiveLock me body) w := by
  apply keeps_outside_bind private_attempt raises_attempt hw
  intro _ w₁ hw₁
  apply keeps_outside_bind private_attempt raises_attempt hw₁
  intro _ w₂ hw₂
  have hlocked : Keeps me (fun result w' => Done me result w')
      (acquire me .run >>= fun _ => body) w₂ := by
    apply Prog.meets_bind
    apply (keeps_acquire hw₂).mono
    intro result w₃ hw₃
    cases result with
    | error e =>
        refine ⟨fun hheld => absurd hheld hw₃.outside, fun hresult => ?_⟩
        cases hresult
        exact hw₃.refused rfl
    | ok _ =>
        apply (hraises.meets (hbody w₃ (hw₃.mpr rfl))).mono
        intro result w₄ hw₄
        exact ⟨fun _ => hw₄.1.2, fun hresult => absurd rfl (hw₄.2 _ hresult)⟩
  apply Prog.meets_tryFinally (fun _ t t' ht hrely => ht.knows hrely.toKnows)
  apply hlocked.mono
  intro result w₃ hw₃
  apply (raises_unlock.meets (keeps_unlock hw₃)).mono
  intro ended w₄ hw₄
  cases ended with
  | ok _ => exact hw₄.1
  | error e => exact after_error (hw₄.2 e rfl) hw₄.1.outside

theorem keeps_job (job : Job) {w : World} (hw : ¬ Holds job.me w) :
    Keeps job.me (fun result w' => After job.me result w')
      (exclusiveLock job.me job.locked) w :=
  keeps_exclusiveLock (fun _ hheld => keeps_locked hheld) raises_locked hw

theorem keeps_run (actor : String) (ip : Option String) {w : World} (hw : ¬ Holds me w) :
    Keeps me (fun result w' => After me result w') (run me actor ip) w := by
  have hstage : Prog.Respects (Private me) (fun _ => True)
      (attempt me .mkdtemp (fun w => { w with staging := me :: w.staging })) :=
    respects_attempt private_idle (fun _ => ⟨.stage _, knows_same rfl rfl rfl⟩)
  apply keeps_outside_bind private_attempt raises_attempt hw
  intro _ w₁ hw₁
  apply keeps_outside_bind (respects_ask private_idle) raises_ask hw₁
  intro startedAt w₂ hw₂
  apply keeps_outside_bind (respects_ask private_idle) raises_ask hw₂
  intro version w₃ hw₃
  apply keeps_outside_bind hstage raises_attempt hw₃
  intro _ w₄ hw₄
  exact keeps_job ⟨me, actor, ip, startedAt, archiveName startedAt version⟩ hw₄

/-- The probe of a request takes the lock without holding it for a run. -/
theorem keeps_preflight {w : World} (hw : ¬ Holds me w) :
    Keeps me (fun result w' => After me result w') (runBackupPreflight me) w := by
  have hletGo : ∀ t, ¬ Holds me t → ¬ Holds me (t.letGo .probe me) := by
    intro t ht
    unfold World.letGo
    split_ifs
    · simp [Holds]
    · exact ht
  apply keeps_outside_bind private_attempt raises_attempt hw
  intro _ w₁ hw₁
  apply keeps_outside_bind private_attempt raises_attempt hw₁
  intro _ w₂ hw₂
  have hprobe : Keeps me (fun result w' => After me result w')
      (acquire me .probe >>= fun _ => release me .probe) w₂ := by
    apply Prog.meets_bind
    apply (keeps_acquire hw₂).mono
    intro result w₃ hw₃
    cases result with
    | error e => exact ⟨hw₃.outside, hw₃.refused⟩
    | ok _ =>
        have hfree : ¬ Holds me w₃ := fun hheld => by cases hw₃.mp hheld
        apply (raises_attempt.meets ?_).mono
        · intro result w₄ hw₄
          exact ⟨hw₄.1, fun hresult => absurd rfl (hw₄.2 _ hresult)⟩
        · apply meets_attempt (fun _ t t' ht hrely => outside_stable t t' ht hrely.toKnows)
          · exact fun w' f hrely _ => ⟨.idle, outside_stable w₃ w' hfree hrely.toKnows⟩
          · exact fun w' hrely _ => ⟨.letGo .probe (fun h => by cases h),
              hletGo w' (outside_stable w₃ w' hfree hrely.toKnows)⟩
  apply Prog.meets_tryFinally (fun _ t t' ht hrely => ht.knows hrely.toKnows)
  apply hprobe.mono
  intro result w₃ hw₃
  have hclose : Keeps me (fun _ w' => After me result w') (closeLock me .probe) w₃ := by
    apply Prog.meets_atomic
    intro w₄ hrely₄
    have hw₄ := hw₃.knows hrely₄.toKnows
    have hgone : After me result (w₄.letGo .probe me) :=
      ⟨hletGo w₄ hw₄.outside, fun hresult => refused_letGo (hw₄.refused hresult)⟩
    cases w₄.fault me (.closeLock .probe) with
    | some f =>
        exact ⟨.letGo .probe (fun h => by cases h), fun w₅ hrely₅ => hgone.knows hrely₅.toKnows⟩
    | none =>
        exact ⟨.letGo .probe (fun h => by cases h), fun w₅ hrely₅ => hgone.knows hrely₅.toKnows⟩
  apply (raises_closeLock.meets hclose).mono
  intro ended w₄ hw₄
  cases ended with
  | ok _ => exact hw₄.1
  | error e => exact after_error (hw₄.2 e rfl) hw₄.1.outside

end Run

/-! ## The requests -/

section Requests

variable {me : ℕ} {caller : Caller}

/-- No request fails what it relies on, whatever it ends with. -/
abbrev KeepsFaith {α : Type} (me : ℕ) (p : Task α) (w : World) : Prop :=
  Keeps me (fun _ _ => True) p w

theorem keepsFaith_private {α : Type} {P : α → Prop} {p : Task α} {w : World}
    (hp : Prog.Respects (Private me) P p) : KeepsFaith me p w :=
  keeps_private hp (fun _ _ _ _ => trivial) trivial

theorem private_respond {reply : Reply} (hreply : reply.saysRunning = false) :
    Prog.Respects (Private me) (fun _ => True) (respond me reply) := by
  apply respects_respond
  intro w
  refine ⟨.answer reply ?_, knows_same rfl rfl rfl⟩
  rw [hreply]
  exact fun h => by cases h

theorem private_audits {e : Event} :
    Prog.Respects (Private me) (fun _ => True) (recordEvent me e) :=
  respects_recordEvent (fun w => private_audit w e)

/-- An answer, and what comes after it.  Who says that a backup is running was refused. -/
theorem keeps_respond_bind {β : Type} {reply : Reply} {next : Unit → Task β}
    {post : Except Exn β → World → Prop} {known : World → Prop}
    (hknown : ∀ w w', known w → Knows me w w' → known w')
    (hreply : ∀ w, known w → reply.saysRunning → Refused me w) {w : World} (hw : known w)
    (hnext : ∀ w', known w' → Keeps me post (next ()) w') :
    Keeps me post (respond me reply >>= next) w := by
  intro w' hrely
  have hw' := hknown w w' hw hrely.toKnows
  exact ⟨.answer reply (hreply w' hw'), hnext _ (hknown w' _ hw' (knows_same rfl rfl rfl))⟩

theorem keepsFaith_respond {reply : Reply} {w : World}
    (hreply : reply.saysRunning → Refused me w) : KeepsFaith me (respond me reply) w :=
  fun _ hrely => ⟨.answer reply (fun h => hrely.refused (hreply h)), fun _ _ => trivial⟩

theorem keeps_runInThread {w : World} (hw : ¬ Holds me w) :
    KeepsFaith me (runInThread me caller) w := by
  apply Prog.meets_tryExcept
  apply Prog.meets_bind
  apply (keeps_run caller.actor caller.ip hw).mono
  intro result w₁ hw₁
  cases result with
  | ok made => exact fun _ _ => trivial
  | error e =>
      cases e with
      | other name text => exact fun _ _ => trivial
      | alreadyRunning =>
          apply meets_ask_bind
          intro w₂ hrely₂
          refine ⟨.idle, ?_⟩
          have hw₂ := hw₁.knows hrely₂.toKnows
          apply Prog.meets_bind
          apply (keeps_writeRefused ⟨hw₂.outside, hw₂.refused rfl⟩).mono
          intro result w₃ _
          cases result with
          | error e => trivial
          | ok _ =>
              exact keepsFaith_private
                (Prog.respects_bind private_audits (fun _ _ => private_audits))

/-- What a request knows after its preflight: it may run, or it was refused. -/
def Probed (me : ℕ) (mayRun : Bool) (w : World) : Prop :=
  ¬ Holds me w ∧ (mayRun = false → Refused me w)

theorem probed_stable {mayRun : Bool} (w w' : World) (h : Probed me mayRun w)
    (hknows : Knows me w w') : Probed me mayRun w' :=
  ⟨outside_stable w w' h.1 hknows, fun hrefused => hknows.refused (h.2 hrefused)⟩

theorem keeps_probe {next : Task Bool} {w : World} (hw : ¬ Holds me w)
    (hnext : ∀ w', Probed me false w' →
      Keeps me (fun result w'' => ∀ b, result = .ok b → Probed me b w'') next w') :
    Keeps me (fun result w' => ∀ b, result = .ok b → Probed me b w')
      ((do
        runBackupPreflight me
        return true : Task Bool).tryExcept fun
          | .alreadyRunning => next
          | exc => Prog.raise exc) w := by
  apply Prog.meets_tryExcept
  apply Prog.meets_bind
  apply (keeps_preflight hw).mono
  intro result w₁ hw₁
  cases result with
  | ok _ =>
      intro w₂ hrely₂ b hb
      cases hb
      exact ⟨outside_stable w₁ w₂ hw₁.outside hrely₂.toKnows, fun h => by cases h⟩
  | error e =>
      cases e with
      | other name text => exact fun w₂ _ b hb => by cases hb
      | alreadyRunning => exact hnext w₁ ⟨hw₁.outside, fun _ => hw₁.refused rfl⟩

theorem keeps_triggerRun {w : World} (hw : ¬ Holds me w) :
    KeepsFaith me (triggerRun me caller) w := by
  have hconflict : ∀ t, Probed me false t →
      Keeps me (fun result t' => ∀ b, result = .ok b → Probed me b t')
        (do
          respond me (.conflict Exn.alreadyRunning.text)
          return false) t := by
    intro t ht
    apply keeps_respond_bind probed_stable (fun _ h _ => h.2 rfl) ht
    intro t' ht' t'' hrely b hb
    cases hb
    exact probed_stable t' t'' ht' hrely.toKnows
  apply Prog.meets_bind
  apply (keeps_probe hw hconflict).mono
  intro result w₁ hw₁
  cases result with
  | error e => trivial
  | ok b =>
      cases b with
      | false => exact fun _ _ => trivial
      | true =>
          apply keeps_respond_bind outside_stable (fun _ _ h => by cases h) (hw₁ true rfl).1
          exact fun w₂ hw₂ => keeps_runInThread hw₂

theorem private_readPage : Prog.Respects (Private me) (fun _ => True) (readPage me) := by
  apply Prog.respects_atomic
  intro w
  refine ⟨?_, fun _ _ => trivial⟩
  cases w.fault me .readPage with
  | some f => exact private_idle w
  | none => exact private_idle w

theorem keeps_backupsRun {w : World} (hw : ¬ Holds me w) :
    KeepsFaith me (backupsRun me caller) w := by
  have hrefused : ∀ t, Probed me false t →
      Keeps me (fun result t' => ∀ b, result = .ok b → Probed me b t') (pure false) t := by
    intro t ht t' hrely b hb
    cases hb
    exact probed_stable t t' ht hrely.toKnows
  apply Prog.meets_bind
  apply (keeps_probe hw hrefused).mono
  intro result w₁ hw₁
  cases result with
  | error e => trivial
  | ok willKick =>
      apply keeps_private_bind private_readPage probed_stable (hw₁ willKick rfl)
      · intro page w₂ _ hw₂
        apply keeps_respond_bind probed_stable _ hw₂
        · intro w₃ hw₃
          cases willKick with
          | false => exact fun _ _ => trivial
          | true =>
              apply Prog.meets_tryExcept
              apply Prog.meets_bind
              apply (keeps_run caller.actor caller.ip hw₃.1).mono
              intro result w₄ _
              cases result with
              | ok made => exact fun _ _ => trivial
              | error e => exact fun _ _ => trivial
        · intro t ht hreply
          apply ht.2
          simpa [Reply.saysRunning] using hreply
      · exact fun _ _ _ => trivial

theorem keeps_cmdRun {actor : String} {w : World} (hw : ¬ Holds me w) :
    KeepsFaith me (cmdRun me actor) w := by
  apply Prog.meets_tryExcept
  apply Prog.meets_bind
  apply Prog.meets_bind
  apply (keeps_run actor none hw).mono
  intro result w₁ hw₁
  cases result with
  | ok made =>
      intro w₂ hrely₂ w₃ hrely₃
      exact ⟨.answer _ (fun h => by cases h), fun _ _ => trivial⟩
  | error e =>
      cases e with
      | other name text => exact keepsFaith_respond (fun h => by cases h)
      | alreadyRunning => exact keepsFaith_respond (fun _ => hw₁.refused rfl)

theorem private_deleteFile {filename : String} :
    Prog.Respects (Private me) (fun _ => True) (deleteFile me caller filename) := by
  unfold deleteFile
  split_ifs
  · apply Prog.respects_bind (respects_ask private_idle)
    intro found _
    split_ifs
    · apply Prog.respects_bind
        (respects_withFile private_idle (fun w _ _ => private_erase w filename))
      intro _ _
      exact Prog.respects_bind private_audits (fun _ _ => private_respond rfl)
    · exact private_respond rfl
  · exact private_respond rfl

theorem keeps_markKeyDownloaded {w : World} :
    KeepsFaith me (markKeyDownloaded me) w := by
  have hanything : ∀ t t', True → Knows me t t' → True := fun _ _ _ _ => trivial
  apply keeps_readState_bind hanything trivial
  · intro seen w₁ _ hseen₁
    apply meets_ask_bind
    intro w₂ hrely₂
    refine ⟨.idle, ?_⟩
    apply (keeps_writeState hanything hanything _ trivial
      (hrely₂.current.trans hseen₁)).mono (fun _ _ _ => trivial)
    exact fun t _ hseen => ⟨.saveDownload _ seen hseen, trivial⟩
  · exact fun _ _ _ _ => trivial

theorem keeps_downloadKey {w : World} : KeepsFaith me (downloadKey me caller) w := by
  have hread : Prog.Respects (Private me) (fun _ => True) (readIdentity me) :=
    Prog.respects_bind private_attempt (fun _ _ => respects_ask private_idle)
  have hanything : ∀ t t', True → Knows me t t' → True := fun _ _ _ _ => trivial
  apply keeps_private_bind hread hanything trivial
  · intro identity w₁ _ _
    cases identity with
    | none => exact keepsFaith_private (private_respond rfl)
    | some identity =>
        apply Prog.meets_bind
        apply keeps_markKeyDownloaded.mono
        intro result w₂ _
        cases result with
        | error e => trivial
        | ok _ =>
            exact keepsFaith_private
              (Prog.respects_bind private_audits (fun _ _ => private_respond rfl))
  · exact fun _ _ _ => trivial

/-- Every request of every process is a deed. -/
theorem keeps_request (request : Request) {w : World} (hw : ¬ Holds me w) :
    KeepsFaith me (request.program me) w := by
  have hprune : ∀ keep, Prog.Respects (Private me) (fun _ => True)
      (Prog.discard (prune me keep)) := fun keep =>
    Prog.respects_discard (respects_prune private_idle private_erase)
  cases request with
  | triggerRun caller => exact keeps_triggerRun hw
  | backupsRun caller => exact keeps_backupsRun hw
  | cmdRun actor => exact keeps_cmdRun hw
  | deleteFile caller filename => exact keepsFaith_private private_deleteFile
  | downloadKey caller => exact keeps_downloadKey
  | cmdPrune keep =>
      cases keep with
      | some keep => exact keepsFaith_private (hprune keep)
      | none =>
          exact keepsFaith_private (Prog.respects_bind (respects_retentionKeep private_idle)
            (fun keep _ => hprune _))

end Requests

end FastTAK.Backup
