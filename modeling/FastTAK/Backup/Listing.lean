import FastTAK.Backup.Retention
import Mathlib.Data.Rat.Floor

/-!
# Where the archives are listed

The API lists archives by the time in their names, like retention; the dashboard lists what
the glob matches, by modification time.  The two show the same exactly when the modification
times are those in the names.
-/

namespace FastTAK.Backup

open FastTAK.Calendar FastTAK.Text

/-! ## The directory -/

/-- The names in the order in which the directory lists them, and what `stat` says. -/
structure Directory where
  names : List String
  nodup : names.Nodup
  size : String → ℕ
  mtime : String → ℚ

/-- `d.glob("fasttak-backup-*.age")`. -/
def Directory.glob (d : Directory) : List String :=
  d.names.filter (fitsStar "fasttak-backup-" ".age")

def unixEpoch : DateTime := ⟨⟨1970, 1, 1, 0, 0, 0⟩, by decide⟩

def timestamp (t : DateTime) : ℚ := (t.seconds : ℚ) - unixEpoch.seconds

/-- `int(x)`. -/
def truncate (x : ℚ) : ℤ := if 0 ≤ x then ⌊x⌋ else ⌈x⌉

/-! ## The views -/

/-- An archive as it is shown. -/
structure Shown where
  filename : String
  sizeBytes : ℕ
  ageSeconds : ℤ
deriving DecidableEq

/-- The archives in the answer of `list_backups`. -/
def listBackups (now : ℚ) (d : Directory) : List Shown :=
  (stampedBackups d.names).map fun s =>
    ⟨(ofLex s).2, d.size (ofLex s).2, truncate (now - timestamp (ofLex s).1)⟩

/-- `_backup_view_models`. -/
def backupViewModels (now : ℚ) (d : Directory) (paths : List String) : List Shown :=
  paths.map fun p => ⟨p, d.size p, truncate (now - d.mtime p)⟩

/-- `sorted(…, key=lambda p: p.stat().st_mtime, reverse=True)`, which leaves paths with the
same key in their order. -/
def latestFirst (d : Directory) (paths : List String) : List String :=
  paths.insertionSort (fun p q => d.mtime q ≤ d.mtime p)

/-- The archives on `backups_page`. -/
def backupsPage (now : ℚ) (d : Directory) : List Shown :=
  backupViewModels now d (latestFirst d d.glob)

/-- The archives in `backups_list_partial`. -/
def backupsListPartial (now : ℚ) (d : Directory) : List Shown :=
  backupViewModels now d (latestFirst d d.glob)

/-! ## One order -/

/-- Every view shows the same archives in the same order with the same ages, the newest
first, and retention deletes the end of the list. -/
structure OneOrder (d : Directory) : Prop where
  page : ∀ now, backupsPage now d = listBackups now d
  listPartial : ∀ now, backupsListPartial now d = listBackups now d
  newestFirst : ∀ now, ((listBackups now d).map Shown.filename).Pairwise fun p q =>
    ∃ s ∈ stampOf p, ∃ t ∈ stampOf q, t ≤ s
  pruned : ∀ now, ∀ keep : ℕ+,
    toDelete (keep : ℕ) d.names <:+ (listBackups now d).map Shown.filename

/-- The modification times of what the glob matches are the times in the names, and names
with the same time are listed the greatest first. -/
structure StampedByMtime (d : Directory) : Prop where
  stamp : ∀ p ∈ d.glob, ∃ t ∈ stampOf p, d.mtime p = timestamp t
  ties : d.glob.Pairwise fun p q => d.mtime p = d.mtime q → q < p

/-! ## The names -/

theorem map_filename_listBackups (now : ℚ) (d : Directory) :
    (listBackups now d).map Shown.filename =
      (stampedBackups d.names).map (fun s => (ofLex s).2) := by
  rw [listBackups, List.map_map]
  rfl

theorem map_filename_backupsPage (now : ℚ) (d : Directory) :
    (backupsPage now d).map Shown.filename = latestFirst d d.glob := by
  rw [backupsPage, backupViewModels, List.map_map]
  exact List.map_id _

theorem fits_of_stampOf {p : String} (h : stampOf p ≠ none) :
    fitsStar "fasttak-backup-" ".age" p := by
  by_contra hfits
  apply h
  unfold stampOf
  apply if_neg
  intro hall
  apply hfits
  obtain ⟨hlead, -, hage, -⟩ := hall
  rw [fitsStar, decide_eq_true_eq]
  exact ⟨hlead, hage.trans (List.drop_suffix _ _)⟩

/-- What has a stamp, the glob matches. -/
theorem filterMap_stamped_glob (d : Directory) :
    d.glob.filterMap stamped = d.names.filterMap stamped := by
  rw [Directory.glob, List.filterMap_filter]
  apply List.filterMap_congr
  intro p _
  split_ifs with hfits
  · rfl
  · by_contra hstamped
    apply hfits
    apply fits_of_stampOf
    rw [Ne, ← stamped_eq_none]
    exact fun hnone => hstamped hnone.symm

theorem mem_stampedBackups {d : Directory} {s : Stamped} (hs : s ∈ stampedBackups d.names) :
    stampOf (ofLex s).2 = some (ofLex s).1 := by
  rw [stampedBackups, Newest.mem_newestFirst] at hs
  obtain ⟨p, -, hstamped⟩ := List.mem_filterMap.mp hs
  obtain ⟨hstamp, rfl⟩ := stamped_eq_some hstamped
  exact hstamp

/-! ## What holds of every directory -/

theorem falling_stampedBackups (d : Directory) :
    (stampedBackups d.names).Pairwise (fun s t => t < s) :=
  Newest.falling_newestFirst (nodup_stamped d.nodup)

theorem newestFirst_listBackups (now : ℚ) (d : Directory) :
    ((listBackups now d).map Shown.filename).Pairwise fun p q =>
      ∃ s ∈ stampOf p, ∃ t ∈ stampOf q, t ≤ s := by
  rw [map_filename_listBackups, List.pairwise_map]
  apply (falling_stampedBackups d).imp_of_mem
  intro s t hs ht hlt
  have hle : (ofLex t).1 ≤ (ofLex s).1 := Prod.Lex.monotone_fst t s hlt.le
  exact ⟨_, mem_stampedBackups hs, _, mem_stampedBackups ht, hle⟩

/-- Retention deletes the end of what the API lists. -/
theorem toDelete_suffix_listBackups (now : ℚ) (d : Directory) (keep : ℕ) :
    toDelete keep d.names <:+ (listBackups now d).map Shown.filename := by
  rw [map_filename_listBackups, toDelete, sliceFrom, if_pos (Int.natCast_nonneg keep),
    Int.toNat_natCast, List.map_drop]
  exact List.drop_suffix _ _

/-! ## When the views agree -/

section Agree

variable {d : Directory}

theorem timestamp_le_iff {s t : DateTime} : timestamp s ≤ timestamp t ↔ s ≤ t := by
  rw [timestamp, timestamp, sub_le_sub_iff_right, Nat.cast_le, ← not_lt, ← not_lt,
    DateTime.seconds_lt_iff]

theorem timestamp_lt_iff {s t : DateTime} : timestamp s < timestamp t ↔ s < t :=
  lt_iff_lt_of_le_iff_le timestamp_le_iff

theorem timestamp_injective : Function.Injective timestamp := by
  intro s t h
  exact le_antisymm (timestamp_le_iff.mp h.le) (timestamp_le_iff.mp h.ge)

/-- Names by modification time, the greatest first among those with the same time. -/
def LaterOrGreater (d : Directory) (p q : String) : Prop :=
  d.mtime q < d.mtime p ∨ d.mtime q = d.mtime p ∧ q ≤ p

instance : DecidableRel (LaterOrGreater d) := fun p q =>
  inferInstanceAs (Decidable (d.mtime q < d.mtime p ∨ d.mtime q = d.mtime p ∧ q ≤ p))

theorem latestFirst_glob (h : StampedByMtime d) :
    latestFirst d d.glob = d.glob.insertionSort (LaterOrGreater d) := by
  apply Newest.insertionSort_congr
  apply h.ties.imp
  intro p q hties
  constructor
  · intro hle
    rcases hle.lt_or_eq with hlt | heq
    · exact Or.inl hlt
    · exact Or.inr ⟨heq, (hties heq.symm).le⟩
  · intro hlater
    rcases hlater with hlt | ⟨heq, -⟩
    · exact hlt.le
    · exact heq.le

/-- The order of stamped archives is that of their modification times and names. -/
theorem le_iff_laterOrGreater (h : StampedByMtime d) {s t : Stamped}
    (hs : s ∈ d.glob.filterMap stamped) (ht : t ∈ d.glob.filterMap stamped) :
    t ≤ s ↔ LaterOrGreater d (ofLex s).2 (ofLex t).2 := by
  have hmtime : ∀ s ∈ d.glob.filterMap stamped, d.mtime (ofLex s).2 = timestamp (ofLex s).1 := by
    intro s hs
    obtain ⟨p, hp, hstamped⟩ := List.mem_filterMap.mp hs
    obtain ⟨hstamp, hname⟩ := stamped_eq_some hstamped
    obtain ⟨takenAt, htakenAt, hmtime⟩ := h.stamp p hp
    rw [hstamp] at htakenAt
    cases htakenAt
    rw [hname, hmtime]
  rw [LaterOrGreater, hmtime s hs, hmtime t ht, Prod.Lex.le_iff, timestamp_injective.eq_iff,
    timestamp_lt_iff]

theorem map_snd_stamped (h : StampedByMtime d) :
    (d.glob.filterMap stamped).map (fun s => (ofLex s).2) = d.glob := by
  have hall : ∀ ps : List String, (∀ p ∈ ps, ∃ t ∈ stampOf p, d.mtime p = timestamp t) →
      (ps.filterMap stamped).map (fun s => (ofLex s).2) = ps := by
    intro ps hps
    induction ps with
    | nil => rfl
    | cons p ps ih =>
        obtain ⟨t, ht, -⟩ := hps p List.mem_cons_self
        have hstamped : stamped p = some (toLex (t, p)) := by
          rw [stamped, Option.mem_def.mp ht]
          rfl
        rw [List.filterMap_cons_some hstamped, List.map_cons,
          ih (fun q hq => hps q (List.mem_cons_of_mem p hq))]
        rfl
  exact hall d.glob h.stamp

/-- The dashboard lists the archives in the order of the API. -/
theorem latestFirst_eq_of_stampedByMtime (h : StampedByMtime d) :
    latestFirst d d.glob = (stampedBackups d.names).map (fun s => (ofLex s).2) := by
  rw [latestFirst_glob h, stampedBackups, ← filterMap_stamped_glob, Newest.newestFirst,
    List.map_insertionSort (r := fun s t : Stamped => t ≤ s) (s := LaterOrGreater d),
    map_snd_stamped h]
  intro s hs t ht
  exact le_iff_laterOrGreater h hs ht

theorem backupsPage_eq_of_stampedByMtime (h : StampedByMtime d) (now : ℚ) :
    backupsPage now d = listBackups now d := by
  rw [backupsPage, backupViewModels, latestFirst_eq_of_stampedByMtime h, List.map_map,
    listBackups]
  apply List.map_congr_left
  intro s hs
  have hstamp := mem_stampedBackups hs
  have hglob : (ofLex s).2 ∈ d.glob := by
    rw [← map_snd_stamped h, filterMap_stamped_glob]
    exact List.mem_map_of_mem (Newest.mem_newestFirst.mp hs)
  obtain ⟨t, ht, hmtime⟩ := h.stamp _ hglob
  rw [hstamp] at ht
  cases ht
  rw [Function.comp_apply, hmtime]

/-! ## When they do not -/

theorem truncate_lt_of_lt {x y : ℚ} (hxy : x < y) : ∃ shift, truncate (x + shift) <
    truncate (y + shift) := by
  refine ⟨1 - y, ?_⟩
  have hone : truncate (y + (1 - y)) = 1 := by
    rw [add_sub_cancel, truncate, if_pos zero_le_one, Int.floor_one]
  have hless : x + (1 - y) < 1 := by linarith
  rw [hone, truncate]
  split_ifs with hpos
  · exact Int.floor_lt.mpr (by exact_mod_cast hless)
  · have hceil : ⌈x + (1 - y)⌉ ≤ 0 := Int.ceil_le.mpr (by push_cast; linarith)
    exact lt_of_le_of_lt hceil zero_lt_one

/-- Ages that are always the same are counted from the same time. -/
theorem eq_of_forall_truncate {x y : ℚ} (h : ∀ now, truncate (now - x) = truncate (now - y)) :
    x = y := by
  by_contra hne
  have hcase : ∀ {x y : ℚ}, x < y → ¬ ∀ now, truncate (now - x) = truncate (now - y) := by
    intro x y hlt hall
    obtain ⟨shift, hshift⟩ := truncate_lt_of_lt (neg_lt_neg hlt)
    have hsame := hall shift
    rw [sub_eq_neg_add, sub_eq_neg_add] at hsame
    exact hshift.ne hsame.symm
  rcases lt_or_gt_of_ne hne with hlt | hgt
  · exact hcase hlt h
  · exact hcase hgt (fun now => (h now).symm)

theorem stampedByMtime_of_page (h : ∀ now, backupsPage now d = listBackups now d) :
    StampedByMtime d := by
  have hnames : latestFirst d d.glob = (stampedBackups d.names).map (fun s => (ofLex s).2) := by
    rw [← map_filename_backupsPage 0, h 0, map_filename_listBackups]
  have hmtime : ∀ s ∈ stampedBackups d.names, d.mtime (ofLex s).2 = timestamp (ofLex s).1 := by
    intro s hs
    apply eq_of_forall_truncate
    intro now
    have hrows := h now
    rw [backupsPage, backupViewModels, hnames, List.map_map, listBackups] at hrows
    exact congrArg Shown.ageSeconds (List.map_inj_left.mp hrows s hs)
  have hstamp : ∀ p ∈ d.glob, ∃ s ∈ stampedBackups d.names, (ofLex s).2 = p := by
    intro p hp
    have hlisted : p ∈ latestFirst d d.glob := (List.mem_insertionSort _).mpr hp
    rw [hnames] at hlisted
    exact List.mem_map.mp hlisted
  constructor
  · intro p hp
    obtain ⟨s, hs, rfl⟩ := hstamp p hp
    exact ⟨_, mem_stampedBackups hs, hmtime s hs⟩
  · rw [List.pairwise_iff_forall_sublist]
    intro p q hpair hsame
    -- the sort keeps the two in their order
    have hsorted : [p, q].Sublist (latestFirst d d.glob) :=
      List.pair_sublist_insertionSort hsame.ge hpair
    rw [hnames] at hsorted
    obtain ⟨pair, hsub, hmap⟩ := List.sublist_map_iff.mp hsorted
    obtain ⟨s, t, rfl, rfl, rfl⟩ : ∃ s t, pair = [s, t] ∧ (ofLex s).2 = p ∧ (ofLex t).2 = q := by
      match pair, hmap with
      | [s, t], hmap =>
          cases hmap
          exact ⟨s, t, rfl, rfl, rfl⟩
    have hfalling := (List.pairwise_iff_forall_sublist.mp (falling_stampedBackups d)) hsub
    rw [hmtime s (hsub.subset List.mem_cons_self),
      hmtime t (hsub.subset (List.mem_cons_of_mem s List.mem_cons_self)),
      timestamp_injective.eq_iff] at hsame
    rw [Prod.Lex.lt_iff, ← hsame] at hfalling
    rcases hfalling with hlt | ⟨-, hlt⟩
    · exact absurd hlt (lt_irrefl _)
    · exact hlt

end Agree

/-- There is one order of backups everywhere exactly when the modification times are those
in the names. -/
theorem oneOrder_iff (d : Directory) : OneOrder d ↔ StampedByMtime d := by
  constructor
  · exact fun h => stampedByMtime_of_page h.page
  · intro h
    have hpage := backupsPage_eq_of_stampedByMtime h
    exact ⟨hpage, hpage, fun now => newestFirst_listBackups now d,
      fun now keep => toDelete_suffix_listBackups now d keep⟩

/-- The archive of May 1st was copied back on May 3rd. -/
def copiedBack : Directory where
  names := ["fasttak-backup-20260501T120000Z-dev.age", "fasttak-backup-20260502T120000Z-dev.age"]
  nodup := by decide
  size := fun _ => 1000
  mtime := fun name =>
    if name = "fasttak-backup-20260501T120000Z-dev.age" then 1777809600 else 1777723200

/-- The dashboard lists the archive that was copied back first, the API lists it last. -/
theorem copied_archive_listed_first :
    (backupsPage 1777896000 copiedBack).map Shown.filename ≠
        (listBackups 1777896000 copiedBack).map Shown.filename ∧
      ¬ OneOrder copiedBack := by
  have hdiffer : (backupsPage 1777896000 copiedBack).map Shown.filename ≠
      (listBackups 1777896000 copiedBack).map Shown.filename := by decide +kernel
  exact ⟨hdiffer, fun h => hdiffer (congrArg (List.map Shown.filename) (h.page 1777896000))⟩

end FastTAK.Backup
