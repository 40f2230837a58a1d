import FastTAK.Backup.Returns

/-!
# What retention leaves in a directory

The pass over the partial files and the pass over the archives remove what they look for and
nothing else, also where a request of theirs fails.  Together they keep exactly the newest
archives.
-/

namespace FastTAK.Backup

open FastTAK.Calendar FastTAK.Effect FastTAK.Text Prog

/-! ## Removals -/

/-- No file changes, and only such files are removed. -/
structure Spares (gone : String → Prop) (w w' : World) : Prop where
  files : ∀ name, w'.disk.lookup name = w.disk.lookup name ∨ gone name ∧ name ∉ w'.disk
  rest : w' = { w with disk := w'.disk }

/-- All such files are removed, and no other file changes. -/
structure Removes (gone : String → Prop) (w w' : World) : Prop extends Spares gone w w' where
  absent : ∀ name, gone name → name ∉ w'.disk

section Removals

variable {gone gone' : String → Prop} {w w' w'' : World} {name : String}

theorem spares_refl (w : World) : Spares gone w w :=
  ⟨fun _ => .inl rfl, rfl⟩

theorem Spares.mono (h : Spares gone w w') (hgone : ∀ name, gone name → gone' name) :
    Spares gone' w w' :=
  ⟨fun name => (h.files name).imp_right (And.imp_left (hgone name)), h.rest⟩

theorem Spares.trans (h : Spares gone w w') (h' : Spares gone w' w'') : Spares gone w w'' where
  files name := by
    cases h'.files name with
    | inr habsent => exact .inr habsent
    | inl hsame =>
        rw [hsame]
        apply (h.files name).imp_right
        intro habsent
        refine ⟨habsent.1, ?_⟩
        rw [← AList.lookup_eq_none, hsame, AList.lookup_eq_none]
        exact habsent.2
  rest := by rw [h'.rest, h.rest]

instance : IsPreorder World (Spares gone) where
  refl := spares_refl
  trans _ _ _ h h' := h.trans h'

/-- What is there is as it was. -/
theorem Spares.lookup_of_mem (h : Spares gone w w') (hmem : name ∈ w'.disk) :
    w'.disk.lookup name = w.disk.lookup name :=
  (h.files name).resolve_right (fun habsent => habsent.2 hmem)

theorem Spares.lookup_of_not (h : Spares gone w w') (hname : ¬ gone name) :
    w'.disk.lookup name = w.disk.lookup name :=
  (h.files name).resolve_right (fun habsent => hname habsent.1)

theorem Spares.mem_of_mem (h : Spares gone w w') (hmem : name ∈ w'.disk) : name ∈ w.disk := by
  rw [← AList.lookup_isSome, ← h.lookup_of_mem hmem, AList.lookup_isSome]
  exact hmem

theorem Spares.mem_iff_of_not (h : Spares gone w w') (hname : ¬ gone name) :
    name ∈ w'.disk ↔ name ∈ w.disk := by
  rw [← AList.lookup_isSome, h.lookup_of_not hname, AList.lookup_isSome]

theorem spares_erase (hname : gone name) (w : World) :
    Spares gone w (w.setDisk (AList.erase name)) := by
  refine ⟨fun other => ?_, rfl⟩
  by_cases hother : other = name
  · subst hother
    exact .inr ⟨hname, fun hmem => (AList.mem_erase.mp hmem).1 rfl⟩
  · exact .inl (AList.lookup_erase_ne hother)

theorem removes_erase (name : String) (w : World) :
    Removes (· = name) w (w.setDisk (AList.erase name)) where
  toSpares := by
    apply spares_erase
    rfl
  absent := by
    intro other hother hmem
    exact (AList.mem_erase.mp hmem).1 hother

/-- Nothing is to be removed. -/
theorem removes_refl (hgone : ∀ name, gone name → name ∉ w.disk) : Removes gone w w where
  toSpares := spares_refl w
  absent := hgone

theorem Removes.congr (h : Removes gone w w') (hgone : ∀ name, gone name ↔ gone' name) :
    Removes gone' w w' where
  toSpares := h.toSpares.mono (fun name => (hgone name).mp)
  absent name hname := h.absent name ((hgone name).mpr hname)

theorem Removes.trans (h : Removes gone w w') (h' : Removes gone' w' w'') :
    Removes (fun name => gone name ∨ gone' name) w w'' where
  toSpares := (h.toSpares.mono fun _ => .inl).trans (h'.toSpares.mono fun _ => .inr)
  absent := by
    intro name hname hmem
    cases hname with
    | inl hname => exact h.absent name hname (h'.mem_of_mem hmem)
    | inr hname => exact h'.absent name hname hmem

end Removals

/-! ## Requests -/

section Requests

variable {me : ℕ} {step : Step} {w : World} {name : String}

theorem spares_ifFile {gone : String → Prop} (hname : gone name) :
    Respects (Spares gone) (fun _ => True)
      (ifFile me step name (World.setDisk (AList.erase name))) :=
  respects_ifFile spares_refl (spares_erase hname)

/-- A deletion says whether the file was there. -/
theorem removes_ifFile {found : Bool} {w' : World}
    (hrun : (ifFile me step name (World.setDisk (AList.erase name))).run w = (.ok found, w')) :
    (found = true ↔ name ∈ w.disk) ∧ Removes (· = name) w w' := by
  rw [run_ifFile] at hrun
  cases hfault : w.fault me step with
  | some f =>
      rw [hfault] at hrun
      cases hrun
  | none =>
      rw [hfault] at hrun
      dsimp only at hrun
      split_ifs at hrun with habsent
      · cases hrun
        rw [AList.lookup_eq_none] at habsent
        refine ⟨iff_of_false Bool.false_ne_true habsent, removes_refl ?_⟩
        rintro other rfl
        exact habsent
      · cases hrun
        rw [AList.lookup_eq_none, not_not] at habsent
        exact ⟨iff_of_true rfl habsent, removes_erase name w⟩

theorem ends_erase (gone : String → Prop) {result : Except Exn Unit} {w' : World}
    (hname : gone name)
    (hrun : (ifFile me step name (World.setDisk (AList.erase name))).discard.run w =
      (result, w')) : Spares gone w w' ∧ (result = .ok () → name ∉ w'.disk) := by
  use (respects_discard (spares_ifFile hname)).keeps_of_run hrun
  rintro rfl
  obtain ⟨found, w₁, hfile, hpure⟩ := run_bind_eq_ok hrun
  cases hpure
  exact (removes_ifFile hfile).2.absent name rfl

end Requests

/-! ## The partial files -/

/-- The file was changed last before the time that partial files may take. -/
def Stale (now maxAge : ℤ) (w : World) (name : String) : Prop :=
  ∃ entry ∈ w.disk.lookup name, now - entry.mtime > maxAge

section Partials

variable {me : ℕ} {now maxAge : ℤ} {w : World}

theorem run_statPartial (me : ℕ) (w : World) (name : String) :
    (statPartial me name).run w =
      match w.fault me (.statPartial name) with
      | some f => (.error (.other f.name f.text), w)
      | none => (.ok ((w.disk.lookup name).map Entry.mtime), w) := rfl

/-- One round removes a stale file, if it returns. -/
theorem reapOne_ends (me : ℕ) (now maxAge : ℤ) (w : World) (name : String) :
    Alone (fun _ _ => True) (fun result w' =>
        Spares (fun other => other = name ∧ Stale now maxAge w name) w w' ∧
          (result = .ok () → Stale now maxAge w name → name ∉ w'.disk))
      (reapOne me now maxAge name) w := by
  apply alone_of_run
  cases hfault : w.fault me (.statPartial name) with
  | some f =>
      have hstat := run_statPartial me w name
      rw [hfault] at hstat
      rw [reapOne, run_bind_of_error hstat]
      exact ⟨spares_refl w, fun h => by cases h⟩
  | none =>
      have hstat := run_statPartial me w name
      rw [hfault] at hstat
      rw [reapOne, run_bind_of_ok hstat]
      cases hentry : w.disk.lookup name with
      | none => exact ⟨spares_refl w, fun _ _ => AList.lookup_eq_none.mp hentry⟩
      | some entry =>
          have hstale : Stale now maxAge w name ↔ now - entry.mtime > maxAge := by
            simp [Stale, hentry]
          simp only [Option.map_some]
          split_ifs with hage
          · obtain ⟨hspares, hgone⟩ := ends_erase
              (fun other => other = name ∧ Stale now maxAge w name)
              ⟨rfl, hstale.mpr hage⟩ rfl
            exact ⟨hspares, fun hok _ => hgone hok⟩
          · exact ⟨spares_refl w, fun _ h => absurd (hstale.mp h) hage⟩

/-- A partial file that a run left behind. -/
def Orphan (w : World) (name : String) : Prop :=
  fitsStar "fasttak-backup-" ".partial" name ∧ Stale w.clock.seconds w.partialReapAge w name

theorem run_reapPartials :
    (reapPartials me).run w =
      (forList (reapOne me w.clock.seconds w.partialReapAge) (partialFiles w.disk)).run w := rfl

/-- Only stale partial files go, and all of them if the pass returns. -/
theorem reapPartials_ends {result : Except Exn Unit} {w' : World}
    (hrun : (reapPartials me).run w = (result, w')) :
    Spares (Orphan w) w w' ∧ (result = .ok () → Removes (Orphan w) w w') := by
  have hround : ∀ name ∈ partialFiles w.disk, ∀ v, Spares (Orphan w) w v →
      Alone (fun _ _ => True) (fun result v' => Spares (Orphan w) v v' ∧
        (result = .ok () → Orphan w name → name ∉ v'.disk))
        (reapOne me w.clock.seconds w.partialReapAge name) v := by
    intro name hname v hv
    apply (reapOne_ends me _ _ v name).mono (fun _ _ h => h)
    intro result v' hends
    constructor
    · apply hends.1.mono
      intro other hother
      obtain ⟨rfl, entry, hentry, hage⟩ := hother
      have hmem : other ∈ v.disk := AList.lookup_isSome.mp (Option.isSome_of_mem hentry)
      rw [hv.lookup_of_mem hmem] at hentry
      exact ⟨(List.mem_filter.mp hname).2, entry, hentry, hage⟩
    · intro hok horphan
      by_cases hmem : name ∈ v.disk
      · apply hends.2 hok
        rw [Stale, hv.lookup_of_mem hmem]
        exact horphan.2
      · exact fun hmem' => hmem (hends.1.mem_of_mem hmem')
  have hkeeps : ∀ name v v', Spares (Orphan w) v v' → (Orphan w name → name ∉ v.disk) →
      Orphan w name → name ∉ v'.disk :=
    fun name v v' hspares habsent horphan hmem => habsent horphan (hspares.mem_of_mem hmem)
  have hends := (alone_forList_each hround hkeeps (spares_refl w)).ends
  rw [← run_reapPartials, hrun] at hends
  use hends.1
  intro hok
  refine ⟨hends.1, fun name horphan => ?_⟩
  by_cases hmem : name ∈ w.disk
  · exact hends.2 hok name (List.mem_filter.mpr ⟨hmem, horphan.1⟩) horphan
  · exact fun hmem' => hmem (hends.1.mem_of_mem hmem')

end Partials

/-! ## The archives -/

/-- An archive of the list, or the sidecar of one. -/
def Paired (archives : List String) (name : String) : Prop :=
  name ∈ archives ∨ ∃ archive ∈ archives, name = archive ++ ".sha256"

section Archives

variable {me : ℕ} {w w' : World}

theorem spares_pruneOne {archives : List String} {name : String} (hname : name ∈ archives) :
    Respects (Spares (Paired archives)) (fun _ => True) (pruneOne me name) := by
  apply respects_bind (spares_ifFile (.inl hname))
  intro deleted _
  apply respects_bind (spares_ifFile (.inr ⟨name, hname, rfl⟩))
  intro _ _
  exact respects_pure trivial

/-- One round removes the archive and its sidecar. -/
theorem removes_pruneOne {name : String} {answer : String × Bool}
    (hrun : (pruneOne me name).run w = (.ok answer, w')) :
    answer = (name, decide (name ∈ w.disk)) ∧ Removes (Paired [name]) w w' := by
  obtain ⟨deleted, w₁, hbackup, hrest⟩ := run_bind_eq_ok hrun
  obtain ⟨found, w₂, hsidecar, hreturn⟩ := run_bind_eq_ok hrest
  cases hreturn
  obtain ⟨hdeleted, hfirst⟩ := removes_ifFile hbackup
  have hsecond := (removes_ifFile hsidecar).2
  constructor
  · rw [Prod.mk.injEq, and_iff_right rfl, Bool.eq_iff_iff, hdeleted, decide_eq_true_iff]
  · apply (hfirst.trans hsecond).congr
    intro other
    simp [Paired]

/-- The loop removes the archives and their sidecars, and says of each that it did. -/
theorem removes_pruneLoop {archives : List String} {answers : List (String × Bool)}
    (hnodup : archives.Nodup) (hplain : ∀ name ∈ archives, stampOf name ≠ none)
    (hthere : ∀ name ∈ archives, name ∈ w.disk)
    (hrun : (mapList (pruneOne me) archives).run w = (.ok answers, w')) :
    answers = archives.map (fun name => (name, true)) ∧ Removes (Paired archives) w w' := by
  induction archives generalizing w answers with
  | nil =>
      cases hrun
      use rfl
      apply removes_refl
      intro name hname
      simp [Paired] at hname
  | cons name archives ih =>
      obtain ⟨hname, hrest⟩ := List.nodup_cons.mp hnodup
      obtain ⟨answer, w₁, hfirst, hloop⟩ := run_bind_eq_ok hrun
      obtain ⟨others, w₂, hothers, hreturn⟩ := run_bind_eq_ok hloop
      cases hreturn
      obtain ⟨hanswer, hremoves⟩ := removes_pruneOne hfirst
      have hstays : ∀ other ∈ archives, other ∈ w₁.disk := by
        intro other hother
        rw [hremoves.mem_iff_of_not]
        · exact hthere other (List.mem_cons_of_mem _ hother)
        · intro hpaired
          cases hpaired with
          | inl hsame => exact hname (List.mem_singleton.mp hsame ▸ hother)
          | inr hsidecar =>
              obtain ⟨archive, -, rfl⟩ := hsidecar
              exact hplain _ (List.mem_cons_of_mem _ hother) (stampOf_sidecar archive)
      obtain ⟨rfl, hremoves'⟩ := ih hrest
        (fun other hother => hplain other (List.mem_cons_of_mem _ hother)) hstays hothers
      constructor
      · rw [hanswer, decide_eq_true (hthere name List.mem_cons_self), List.map_cons]
      · apply (hremoves.trans hremoves').congr
        intro other
        simp [Paired, or_and_right, exists_or, or_assoc, or_left_comm]

end Archives

theorem sublist_stamped (names : List String) :
    ((names.filterMap stamped).map (fun s => (ofLex s).2)).Sublist names := by
  induction names with
  | nil => exact List.Sublist.refl []
  | cons name names ih =>
      cases hstamped : stamped name with
      | none =>
          rw [List.filterMap_cons_none hstamped]
          exact ih.cons name
      | some s =>
          rw [List.filterMap_cons_some hstamped, List.map_cons, (stamped_eq_some hstamped).2]
          exact ih.cons_cons name

theorem nodup_toDelete (keep : ℕ) {names : List String} (hnames : names.Nodup) :
    (toDelete keep names).Nodup := by
  have hall : ((stampedBackups names).map (fun s => (ofLex s).2)).Nodup :=
    ((Newest.perm_newestFirst _).map _).nodup_iff.mpr ((sublist_stamped names).nodup hnames)
  rw [toDelete, sliceFrom, if_pos (Int.natCast_nonneg keep)]
  exact ((List.drop_sublist _ _).map _).nodup hall

/-! ## The whole pass -/

/-- An archive that at least `keep` others in the directory outrank. -/
def Surplus (keep : ℕ) (w : World) (name : String) : Prop :=
  name ∈ w.disk ∧ Outranked keep w.disk.keys name

/-- What retention is to remove: surplus archives, their sidecars and orphans. -/
def Discarded (keep : ℕ) (w : World) (name : String) : Prop :=
  Orphan w name ∨ Surplus keep w name ∨
    ∃ archive, Surplus keep w archive ∧ name = archive ++ ".sha256"

theorem not_orphan_of_stampOf {w : World} {name : String} (hname : stampOf name ≠ none) :
    ¬ Orphan w name := by
  intro horphan
  apply hname
  exact stampOf_of_getLast (getLast_of_fitsPartial horphan.1) (by decide)

section Whole

variable {me keep : ℕ} {w w' : World}

/-- The pass over the partial files does not change which archives are surplus. -/
theorem mem_toDelete_surplus (h : Spares (Orphan w) w w') (name : String) :
    name ∈ toDelete keep w'.disk.keys ↔ Surplus keep w name := by
  have hsame : ∀ other, stampOf other ≠ none →
      (other ∈ w'.disk.keys ↔ other ∈ w.disk.keys) :=
    fun other hother => h.mem_iff_of_not (not_orphan_of_stampOf hother)
  rw [mem_toDelete_congr keep w'.disk.keys_nodup w.disk.keys_nodup hsame, Surplus]
  constructor
  · intro hdeleted
    have hmem := (stamped_of_mem_toDelete hdeleted).1
    exact ⟨hmem, (mem_toDelete_iff keep w.disk.keys_nodup hmem).mp hdeleted⟩
  · intro hsurplus
    exact (mem_toDelete_iff keep w.disk.keys_nodup hsurplus.1).mpr hsurplus.2

theorem paired_toDelete (h : Spares (Orphan w) w w') (name : String) :
    Orphan w name ∨ Paired (toDelete keep w'.disk.keys) name ↔ Discarded keep w name := by
  simp only [Paired, Discarded, mem_toDelete_surplus h]

/-- Retention spares what it is not to remove, however it ends. -/
theorem spares_prune : Spares (Discarded keep w) w ((prune me keep).run w).2 := by
  cases hreap : (reapPartials me).run w with
  | mk result w₁ =>
      have hspares := (reapPartials_ends hreap).1
      have hfirst : Spares (Discarded keep w) w w₁ := hspares.mono (fun _ => .inl)
      cases result with
      | error e =>
          rw [prune, run_bind_of_error hreap]
          exact hfirst
      | ok _ =>
          rw [prune, run_bind_of_ok hreap]
          have hloop : Respects (Spares (Paired (toDelete keep w₁.disk.keys)))
              (fun _ => True) (mapList (pruneOne me) (toDelete keep w₁.disk.keys) >>=
                fun results => pure ((results.filter Prod.snd).map Prod.fst)) :=
            respects_bind (respects_mapList _ (fun name hname => spares_pruneOne hname))
              (fun _ _ => respects_pure trivial)
          apply hfirst.trans
          apply (hloop.keeps w₁).mono
          intro name hname
          exact (paired_toDelete hspares name).mp (.inr hname)

/-- If it returns, it has removed all of it, and names the archives. -/
theorem removes_prune {deleted : List String}
    (hrun : (prune me keep).run w = (.ok deleted, w')) :
    deleted.Nodup ∧ (∀ name, name ∈ deleted ↔ Surplus keep w name) ∧
      Removes (Discarded keep w) w w' := by
  obtain ⟨_, w₁, hreap, hrest⟩ := run_bind_eq_ok hrun
  obtain ⟨answers, w₂, hloop, hreturn⟩ := run_bind_eq_ok (p := mapList (pruneOne me)
    (toDelete keep w₁.disk.keys)) hrest
  cases hreturn
  obtain ⟨hspares, hremoves⟩ := reapPartials_ends hreap
  obtain ⟨rfl, hremoves'⟩ := removes_pruneLoop (nodup_toDelete keep w₁.disk.keys_nodup)
    (fun name hname => (stamped_of_mem_toDelete hname).2)
    (fun name hname => (stamped_of_mem_toDelete hname).1) hloop
  have hdeleted : (((toDelete keep w₁.disk.keys).map (fun name => (name, true))).filter
      Prod.snd).map Prod.fst = toDelete keep w₁.disk.keys := by
    simp [List.filter_map, Function.comp_def]
  rw [hdeleted]
  refine ⟨nodup_toDelete keep w₁.disk.keys_nodup, mem_toDelete_surplus hspares, ?_⟩
  exact ((hremoves rfl).trans hremoves').congr (paired_toDelete hspares)

theorem returns_prune_of_faults (hfaults : ∀ step, w.fault me step = none) :
    Returns (prune me keep) w := by
  have hsame : ∀ w', Touches (fun name => fitsStar "fasttak-backup-" ".partial" name) w w' →
      ∀ name, name ∈ toDelete keep w'.disk.keys ↔ name ∈ toDelete keep w.disk.keys := by
    intro w' htouches
    apply mem_toDelete_congr keep w'.disk.keys_nodup w.disk.keys_nodup
    intro name hname
    have hlast : ¬ fitsStar "fasttak-backup-" ".partial" name :=
      fun hfits => hname (stampOf_of_getLast (getLast_of_fitsPartial hfits) (by decide))
    rw [← AList.mem_keys, ← AList.mem_keys, ← AList.lookup_isSome, htouches.files name hlast,
      AList.lookup_isSome]
  apply (returns_prune hsame).mpr
  exact ⟨fun name _ => ⟨hfaults _, fun _ _ _ => hfaults _⟩,
    fun name _ => ⟨hfaults _, hfaults _⟩⟩

/-- A file without a time in its name is not removed for its name ending in `.age`. -/
theorem not_discarded_of_glob {name : String} (hglob : fitsStar "fasttak-backup-" ".age" name)
    (hname : stampOf name = none) : ¬ Discarded keep w name := by
  obtain ⟨middle, rfl⟩ := (fitsStar_iff _ _ _).mp hglob
  have hlast : ("fasttak-backup-" ++ middle ++ ".age").toList.getLast? = some 'e' :=
    getLast_append rfl
  intro hdiscarded
  rcases hdiscarded with horphan | hsurplus | hsidecar
  · rw [getLast_of_fitsPartial horphan.1] at hlast
    exact absurd hlast (by decide)
  · obtain ⟨s, hs, -⟩ := hsurplus.2
    rw [stamped_eq_none.mpr hname] at hs
    cases hs
  · obtain ⟨archive, -, hsame⟩ := hsidecar
    rw [hsame, getLast_sidecar] at hlast
    exact absurd hlast (by decide)

end Whole

/-- Retention keeps exactly the newest archives, whatever is in the directory.  A file that
looks like an archive and has no time in its name stays. -/
theorem keeps_exactly_newest (me keep : ℕ) (w : World) :
    ((∀ step, w.fault me step = none) → Returns (prune me keep) w) ∧
      (∀ deleted w', (prune me keep).run w = (.ok deleted, w') → deleted.Nodup ∧
        (∀ name, name ∈ deleted ↔ Surplus keep w name) ∧ Removes (Discarded keep w) w w') ∧
      Spares (Discarded keep w) w ((prune me keep).run w).2 ∧
      ∀ name, fitsStar "fasttak-backup-" ".age" name → stampOf name = none →
        ((prune me keep).run w).2.disk.lookup name = w.disk.lookup name := by
  refine ⟨returns_prune_of_faults, fun deleted w' hrun => removes_prune hrun, spares_prune, ?_⟩
  intro name hglob hname
  exact spares_prune.lookup_of_not (not_discarded_of_glob hglob hname)

end FastTAK.Backup
