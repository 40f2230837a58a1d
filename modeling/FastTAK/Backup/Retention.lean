import FastTAK.Backup.World

/-!
# The retention pass

`prune` removes stale partial files, then every archive that is not among the newest by the
time in its name.
-/

namespace FastTAK.Backup

open FastTAK.Calendar FastTAK.Effect FastTAK.Text

/-- `xs[k:]`. -/
def sliceFrom {α : Type} (k : ℤ) (xs : List α) : List α :=
  if 0 ≤ k then xs.drop k.toNat else xs.drop (xs.length + k).toNat

/-- The partial files of a directory. -/
def partialFiles (disk : Disk) : List String :=
  disk.keys.filter (fitsStar "fasttak-backup-" ".partial")

/-- `p.stat().st_mtime`, for a file that may be gone. -/
def statPartial (me : ℕ) (name : String) : Task (Option ℤ) :=
  Prog.atomic fun w =>
    match w.fault me (.statPartial name) with
    | some f => (.error (.other f.name f.text), w)
    | none => (.ok ((w.disk.lookup name).map Entry.mtime), w)

/-- One round of the loop of `_reap_partials`. -/
def reapOne (me : ℕ) (now maxAge : ℤ) (name : String) : Task Unit :=
  statPartial me name >>= fun
    | none => pure ()
    | some mtime =>
        if now - mtime > maxAge then
          Prog.discard (ifFile me (.reapPartial name) name (World.setDisk (AList.erase name)))
        else pure ()

/-- `_reap_partials`. -/
def reapPartials (me : ℕ) : Task Unit := do
  let maxAge ← ask World.partialReapAge
  let now ← ask World.clock
  let names ← ask (fun w => partialFiles w.disk)
  Prog.forList (reapOne me now.seconds maxAge) names

/-- The archives that retention deletes. -/
def toDelete (keep : ℤ) (names : List String) : List String :=
  (sliceFrom keep (stampedBackups names)).map (fun s => (ofLex s).2)

/-- One round of the loop of `prune`: was the archive there. -/
def pruneOne (me : ℕ) (name : String) : Task (String × Bool) := do
  let deleted ← ifFile me (.unlinkBackup name) name (World.setDisk (AList.erase name))
  let _ ← ifFile me (.unlinkSidecar name) (name ++ ".sha256")
    (World.setDisk (AList.erase (name ++ ".sha256")))
  return (name, deleted)

/-- `prune`, with the names of the deleted archives. -/
def prune (me : ℕ) (keep : ℤ) : Task (List String) := do
  reapPartials me
  let names ← ask (fun w => w.disk.keys)
  let results ← Prog.mapList (pruneOne me) (toDelete keep names)
  return (results.filter Prod.snd).map Prod.fst

/-! ## Rules -/

section Rules

variable {guar : World → World → Prop} {me : ℕ}

theorem respects_reapOne {now maxAge : ℤ} {name : String} (hsame : ∀ w, guar w w)
    (herase : ∀ w, guar w (w.setDisk (AList.erase name))) :
    Prog.Respects guar (fun _ => True) (reapOne me now maxAge name) := by
  have hstat : Prog.Respects guar (fun _ => True) (statPartial me name) := by
    apply Prog.respects_atomic
    intro w
    refine ⟨?_, fun _ _ => trivial⟩
    cases w.fault me (.statPartial name) with
    | some f => exact hsame w
    | none => exact hsame w
  apply Prog.respects_bind hstat
  intro mtime _
  cases mtime with
  | none => exact Prog.respects_pure trivial
  | some mtime =>
      dsimp only
      split_ifs
      · exact Prog.respects_discard (respects_ifFile hsame herase)
      · exact Prog.respects_pure trivial

theorem respects_reapPartials (hsame : ∀ w, guar w w)
    (herase : ∀ w name, fitsStar "fasttak-backup-" ".partial" name →
      guar w (w.setDisk (AList.erase name))) :
    Prog.Respects guar (fun _ => True) (reapPartials me) := by
  have hnames : Prog.Respects guar
      (fun names => ∀ name ∈ names, fitsStar "fasttak-backup-" ".partial" name)
      (ask (fun w => partialFiles w.disk)) := by
    apply Prog.respects_atomic
    intro w
    refine ⟨hsame w, ?_⟩
    intro names hnames name hname
    cases hnames
    exact (List.mem_filter.mp hname).2
  apply Prog.respects_bind (respects_ask hsame)
  intro maxAge _
  apply Prog.respects_bind (respects_ask hsame)
  intro now _
  apply Prog.respects_bind hnames
  intro names hpartialName
  apply Prog.respects_forList
  intro name hname
  exact respects_reapOne hsame (fun w => herase w name (hpartialName name hname))

theorem respects_pruneOne {name : String} (hsame : ∀ w, guar w w)
    (herase : ∀ w other, guar w (w.setDisk (AList.erase other))) :
    Prog.Respects guar (fun _ => True) (pruneOne me name) := by
  apply Prog.respects_bind (respects_ifFile hsame (fun w => herase w name))
  intro deleted _
  apply Prog.respects_bind (respects_ifFile hsame (fun w => herase w _))
  intro _ _
  exact Prog.respects_pure trivial

theorem respects_prune {keep : ℤ} (hsame : ∀ w, guar w w)
    (herase : ∀ w name, guar w (w.setDisk (AList.erase name))) :
    Prog.Respects guar (fun _ => True) (prune me keep) := by
  apply Prog.respects_bind (respects_reapPartials hsame (fun w name _ => herase w name))
  intro _ _
  apply Prog.respects_bind (respects_ask hsame)
  intro names _
  apply Prog.respects_bind
    (Prog.respects_mapList _ (fun name _ => respects_pruneOne hsame herase))
  intro results _
  exact Prog.respects_pure trivial

end Rules

/-! ## Which archives are deleted -/

/-- How many of the names rank above an archive in the order of backups. -/
def rankingAbove (s : Stamped) (names : List String) : ℕ :=
  names.countP (fun name => (stamped name).any (fun other => decide (s < other)))

/-- At least `keep` archives rank above the archive of this name. -/
def Outranked (keep : ℕ) (names : List String) (name : String) : Prop :=
  ∃ s ∈ stamped name, keep ≤ rankingAbove s names

instance (keep : ℕ) (names : List String) (name : String) :
    Decidable (Outranked keep names name) := by
  unfold Outranked
  infer_instance

theorem countP_filterMap_stamped (s : Stamped) (names : List String) :
    (names.filterMap stamped).countP (fun other => s < other) = rankingAbove s names := by
  rw [List.countP_filterMap, rankingAbove]
  congr
  funext name
  cases stamped name <;> rfl

theorem mem_toDelete_iff (keep : ℕ) {names : List String} (hnames : names.Nodup)
    {name : String} (hmem : name ∈ names) :
    name ∈ toDelete keep names ↔ Outranked keep names name := by
  have hslice : sliceFrom (keep : ℤ) (stampedBackups names) =
      Newest.surplus keep (names.filterMap stamped) := by
    rw [sliceFrom, if_pos (Int.natCast_nonneg keep), Int.toNat_natCast]
    rfl
  have hrank : ∀ s, stamped name = some s →
      (s ∈ Newest.surplus keep (names.filterMap stamped) ↔ keep ≤ rankingAbove s names) := by
    intro s hs
    have hlisted : s ∈ names.filterMap stamped := List.mem_filterMap.mpr ⟨name, hmem, hs⟩
    rw [Newest.mem_surplus_iff (nodup_stamped hnames) hlisted, countP_filterMap_stamped]
  rw [toDelete, hslice, List.mem_map]
  constructor
  · intro hdeleted
    obtain ⟨s, hs, rfl⟩ := hdeleted
    obtain ⟨other, -, hother⟩ := List.mem_filterMap.mp (Newest.mem_of_mem_surplus hs)
    obtain rfl := (stamped_eq_some hother).2
    exact ⟨s, hother, (hrank s hother).mp hs⟩
  · intro houtranked
    obtain ⟨s, hs, hkeep⟩ := houtranked
    exact ⟨s, (hrank s hs).mpr hkeep, (stamped_eq_some hs).2⟩

theorem stamped_eq_none {name : String} : stamped name = none ↔ stampOf name = none :=
  Option.map_eq_none_iff

/-- Only archives that are listed are deleted. -/
theorem stamped_of_mem_toDelete {keep : ℕ} {names : List String} {name : String}
    (hdeleted : name ∈ toDelete keep names) : name ∈ names ∧ stampOf name ≠ none := by
  obtain ⟨s, hs, rfl⟩ := List.mem_map.mp hdeleted
  have hlisted : s ∈ names.filterMap stamped := by
    rw [sliceFrom, if_pos (Int.natCast_nonneg keep), Int.toNat_natCast] at hs
    exact Newest.mem_of_mem_surplus hs
  obtain ⟨other, hother, hstamp⟩ := List.mem_filterMap.mp hlisted
  obtain rfl := (stamped_eq_some hstamp).2
  refine ⟨hother, ?_⟩
  rw [Ne, ← stamped_eq_none, hstamp]
  exact Option.some_ne_none s

/-- The ranks depend only on the archives that are listed. -/
theorem rankingAbove_congr {s : Stamped} {names names' : List String} (hnames : names.Nodup)
    (hnames' : names'.Nodup)
    (hsame : ∀ name, stampOf name ≠ none → stamped name ≠ some s →
      (name ∈ names ↔ name ∈ names')) :
    rankingAbove s names = rankingAbove s names' := by
  rw [rankingAbove, rankingAbove, List.countP_eq_length_filter, List.countP_eq_length_filter]
  apply List.Perm.length_eq
  rw [List.perm_ext_iff_of_nodup (hnames.filter _) (hnames'.filter _)]
  intro name
  rw [List.mem_filter, List.mem_filter]
  apply and_congr_left
  intro habove
  obtain ⟨other, hother, hless⟩ := Option.any_eq_true _ _ |>.mp habove
  apply hsame
  · rw [Ne, ← stamped_eq_none, hother]
    exact Option.some_ne_none other
  · rw [hother]
    intro hsome
    obtain rfl := Option.some.inj hsome
    exact lt_irrefl _ (of_decide_eq_true hless)

/-- What is deleted depends only on the archives that are listed. -/
theorem mem_toDelete_congr (keep : ℕ) {names names' : List String} (hnames : names.Nodup)
    (hnames' : names'.Nodup)
    (hsame : ∀ name, stampOf name ≠ none → (name ∈ names ↔ name ∈ names')) (name : String) :
    name ∈ toDelete keep names ↔ name ∈ toDelete keep names' := by
  by_cases hlisted : name ∈ names ∧ stampOf name ≠ none
  · obtain ⟨hmem, hname⟩ := hlisted
    rw [mem_toDelete_iff keep hnames hmem,
      mem_toDelete_iff keep hnames' ((hsame name hname).mp hmem)]
    unfold Outranked
    simp only [rankingAbove_congr hnames hnames' (fun other hother _ => hsame other hother)]
  · apply iff_of_false
    · exact fun hdeleted => hlisted (stamped_of_mem_toDelete hdeleted)
    · intro hdeleted
      obtain ⟨hmem, hname⟩ := stamped_of_mem_toDelete hdeleted
      exact hlisted ⟨(hsame name hname).mpr hmem, hname⟩

end FastTAK.Backup
