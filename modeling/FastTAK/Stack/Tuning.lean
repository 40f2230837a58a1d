import FastTAK.Base.MarkedBlock
import FastTAK.Env.Secrets

/-!
# Tuning of the database

`tak-database/start.sh` strips its block from `postgresql.conf` and appends a fresh one, on every
start.  An append that a full disk cut short leaves a block without its end.
-/

namespace FastTAK.Tuning

open FastTAK.Env FastTAK.MarkedBlock

/-! ## The block -/

def beginMarker : List Char := "# FASTTAK-TUNING-BEGIN".toList

def endMarker : List Char := "# FASTTAK-TUNING-END".toList

/-- `reject_unsafe_value` lets the value pass. -/
def isSafe (value : List Char) : Bool := '\'' ∉ value ∧ '\n' ∉ value

structure Settings where
  scaleFactor : List Char
  costLimit : List Char
  workMem : List Char
  safe : isSafe scaleFactor ∧ isSafe costLimit ∧ isSafe workMem
deriving DecidableEq

/-- `${VAR:-default}`. -/
def orDefault (value default : List Char) : List Char := if value = [] then default else value

/-- The settings of an environment, unless the script refuses them. -/
def settingsOf (scaleFactor costLimit workMem : List Char) : Option Settings :=
  let scaleFactor := orDefault scaleFactor "0.05".toList
  let costLimit := orDefault costLimit "1000".toList
  let workMem := orDefault workMem "256MB".toList
  if hsafe : isSafe scaleFactor ∧ isSafe costLimit ∧ isSafe workMem then
    some ⟨scaleFactor, costLimit, workMem, hsafe⟩
  else none

/-- `<name> = <value>`. -/
def settingRow (setting : List Char × List Char) : List Char :=
  setting.1 ++ " = ".toList ++ setting.2

def autovacuum (settings : Settings) : List (List Char × List Char) :=
  [("autovacuum_vacuum_scale_factor".toList, settings.scaleFactor),
    ("autovacuum_vacuum_cost_limit".toList, settings.costLimit),
    ("maintenance_work_mem".toList, '\'' :: settings.workMem ++ ['\''])]

def archiving : List Char × List Char := ("archive_mode".toList, "off".toList)

def autovacuumComment : List (List Char) :=
  ["# Appended by tak-database/start.sh — do not edit; rewritten on every start.".toList,
    "# postgresql.conf is last-wins, so these override the vendor values above.".toList,
    "#".toList,
    "# Autovacuum is tuned for TAK Server's high-write CoT workload (DD-020).".toList,
    "# Override via .env; set to PostgreSQL defaults (0.2 / 200 / 64MB) to disable.".toList]

def archivingComment : List (List Char) :=
  ["#".toList,
    "# WAL archiving off (DD-053). The vendor sets archive_mode = on with an".toList,
    "# archive_command copying to /var/lib/postgresql/archivedir, which no TAK".toList,
    "# bundle creates. Postgres will not recycle a WAL segment until its archive".toList,
    "# command succeeds, so every segment is retained and pg_wal grows until the".toList,
    "# disk fills. FastTAK's backups are logical (pg_dump) and consume no".toList,
    "# archives, so archiving is pure cost.".toList]

/-- The rows of the block between its markers. -/
def innerRows (settings : Settings) : List (List Char) :=
  autovacuumComment ++ (autovacuum settings).map settingRow ++ archivingComment ++
    [settingRow archiving]

/-- `tuning_block`. -/
def tuningBlock (settings : Settings) : List (List Char) :=
  beginMarker :: (innerRows settings ++ [endMarker])

/-! ## The script -/

/-- Which commands of a start succeed, and after how many characters an append that fails has
stopped. -/
structure Disk where
  cp : Bool
  awk : Bool
  mv : Bool
  append : Option ℕ

/-- `apply_tuning`.  The file changes when `mv` puts the copy in its place, and by the append. -/
def applyTuning (disk : Disk) (settings : Settings) (file : List Char) : Outcome :=
  if disk.cp && disk.awk && disk.mv then
    printTo disk.append (printed (strip beginMarker endMarker false (records file)))
      (printed (tuningBlock settings))
  else ⟨file, false⟩

/-! ## The server -/

def isSettingChar (c : Char) : Bool := c.isAlphanum || c == '_' || c == '.'

/-- The setting that a row assigns, in lower case; empty for a comment. -/
def settingName (row : List Char) : List Char :=
  ((row.dropWhile isSpace).takeWhile isSettingChar).map Char.toLower

/-- The row that decides on a setting: the last one that assigns it. -/
def effectiveRow (file name : List Char) : Option (List Char) :=
  (records file).reverse.find? fun row => settingName row = name

/-! ## What a start promises -/

structure Tuned (settings : Settings) (file file' : List Char) : Prop where
  content : file' =
    printed (outside beginMarker endMarker [] (records file) ++ tuningBlock settings)
  steady : ∀ disk, (applyTuning disk settings file').ok →
    (applyTuning disk settings file').file = file'
  effective : ∀ setting ∈ autovacuum settings ++ [archiving],
    effectiveRow file' setting.1 = some (settingRow setting)

section Start

variable {settings : Settings} {disk : Disk} {file : List Char}

theorem settingName_settingRow {setting : List Char × List Char}
    (hname : setting.1.all fun c => isSettingChar c && !isSpace c && c.toLower == c)
    (hne : setting.1 ≠ []) : settingName (settingRow setting) = setting.1 := by
  obtain ⟨name, value⟩ := setting
  simp only [List.all_eq_true, Bool.and_eq_true, Bool.not_eq_true', beq_iff_eq] at hname hne
  have hspace : (settingRow (name, value)).dropWhile isSpace = settingRow (name, value) := by
    rw [List.dropWhile_eq_self_iff]
    intro hpos
    cases name with
    | nil => exact absurd rfl hne
    | cons c name => simp [settingRow, (hname c List.mem_cons_self).1.2]
  have htake : (settingRow (name, value)).takeWhile isSettingChar = name := by
    rw [settingRow, List.append_assoc, List.takeWhile_append_of_pos fun c hc => (hname c hc).1.1]
    simp [isSettingChar]
  rw [settingName, hspace, htake, List.map_congr_left fun c hc => (hname c hc).2]
  exact List.map_id' name

/-! ### The rows of the block -/

def comments : List (List Char) := autovacuumComment ++ archivingComment

/-- The row is one line, assigns nothing and is no marker. -/
def isPlain (row : List Char) : Bool :=
  !row.contains '\n' && settingName row == [] && row != beginMarker && row != endMarker

theorem isPlain_iff {row : List Char} :
    isPlain row ↔
      '\n' ∉ row ∧ settingName row = [] ∧ row ≠ beginMarker ∧ row ≠ endMarker := by
  simp [isPlain, and_assoc]

theorem comments_plain : ∀ row ∈ comments,
    '\n' ∉ row ∧ settingName row = [] ∧ row ≠ beginMarker ∧ row ≠ endMarker := by
  have hall : comments.all isPlain := by decide +kernel
  intro row hrow
  exact isPlain_iff.mp (List.all_eq_true.mp hall row hrow)

/-- The names of the settings, whatever the values are. -/
def settingNames : List (List Char) :=
  ["autovacuum_vacuum_scale_factor".toList, "autovacuum_vacuum_cost_limit".toList,
    "maintenance_work_mem".toList, "archive_mode".toList]

theorem map_fst_assignments :
    (autovacuum settings ++ [archiving]).map Prod.fst = settingNames := rfl

theorem assignment_named {setting : List Char × List Char}
    (h : setting ∈ autovacuum settings ++ [archiving]) :
    settingName (settingRow setting) = setting.1 ∧ setting.1 ≠ [] := by
  have hplain : ∀ name ∈ settingNames,
      (name.all fun c => isSettingChar c && !isSpace c && c.toLower == c) ∧ name ≠ [] := by
    decide +kernel
  have hname : setting.1 ∈ settingNames := by
    rw [← map_fst_assignments]
    exact List.mem_map_of_mem h
  exact ⟨settingName_settingRow (hplain _ hname).1 (hplain _ hname).2, (hplain _ hname).2⟩

theorem assignment_unique {setting other : List Char × List Char}
    (h : setting ∈ autovacuum settings ++ [archiving])
    (hother : other ∈ autovacuum settings ++ [archiving]) (hname : other.1 = setting.1) :
    other = setting := by
  have hnodup : ((autovacuum settings ++ [archiving]).map Prod.fst).Nodup := by
    rw [map_fst_assignments]
    decide +kernel
  exact List.inj_on_of_nodup_map hnodup hother h hname

theorem newline_not_mem_assignment : ∀ setting ∈ autovacuum settings ++ [archiving],
    '\n' ∉ settingRow setting := by
  obtain ⟨hscale, hcost, hmem⟩ := settings.safe
  simp only [isSafe, decide_eq_true_eq] at hscale hcost hmem
  intro setting hsetting
  simp only [autovacuum, List.cons_append, List.nil_append, List.mem_cons,
    List.not_mem_nil, or_false] at hsetting
  rcases hsetting with h | h | h | h
  · simp [settingRow, h, hscale]
  · simp [settingRow, h, hcost]
  · simp [settingRow, h, hmem]
  · rw [h]
    decide +kernel

theorem mem_innerRows {row : List Char} (h : row ∈ innerRows settings) :
    row ∈ comments ∨
      ∃ setting ∈ autovacuum settings ++ [archiving], settingRow setting = row := by
  simp only [innerRows, comments, List.mem_append, List.mem_map, List.mem_singleton] at h ⊢
  rcases h with ((h | ⟨setting, hsetting, hrow⟩) | h) | rfl
  · exact Or.inl (Or.inl h)
  · exact Or.inr ⟨setting, Or.inl hsetting, hrow⟩
  · exact Or.inl (Or.inr h)
  · exact Or.inr ⟨archiving, Or.inr rfl, rfl⟩

theorem settingName_marker : settingName beginMarker = [] ∧ settingName endMarker = [] := by
  decide

theorem innerRows_plain : ∀ row ∈ innerRows settings,
    '\n' ∉ row ∧ row ≠ beginMarker ∧ row ≠ endMarker := by
  intro row hrow
  rcases mem_innerRows hrow with hcomment | ⟨setting, hsetting, rfl⟩
  · have hplain := comments_plain row hcomment
    exact ⟨hplain.1, hplain.2.2⟩
  · -- A marker assigns nothing, the row does.
    obtain ⟨hname, hne⟩ := assignment_named hsetting
    refine ⟨newline_not_mem_assignment setting hsetting, ?_, ?_⟩
    · intro hmarker
      exact hne (by rw [← hname, hmarker, settingName_marker.1])
    · intro hmarker
      exact hne (by rw [← hname, hmarker, settingName_marker.2])

/-- A row of the block that assigns something assigns a setting of the block. -/
theorem tuningBlock_assignment {row : List Char} (hrow : row ∈ tuningBlock settings)
    (hname : settingName row ≠ []) :
    ∃ setting ∈ autovacuum settings ++ [archiving], settingRow setting = row := by
  simp only [tuningBlock, List.mem_cons, List.mem_append, List.not_mem_nil, or_false] at hrow
  rcases hrow with rfl | hrow | rfl
  · exact absurd settingName_marker.1 hname
  · exact (mem_innerRows hrow).resolve_left fun h =>
      hname (comments_plain row h).2.1
  · exact absurd settingName_marker.2 hname

theorem assignment_mem_tuningBlock {setting : List Char × List Char}
    (h : setting ∈ autovacuum settings ++ [archiving]) :
    settingRow setting ∈ tuningBlock settings := by
  have hinner : settingRow setting ∈ innerRows settings := by
    rcases List.mem_append.mp h with h | h
    · exact List.mem_append_left _ (List.mem_append_left _
        (List.mem_append_right _ (List.mem_map_of_mem h)))
    · exact List.mem_append_right _ (List.mem_map_of_mem (f := settingRow) h)
  exact List.mem_cons_of_mem _ (List.mem_append_left _ hinner)

theorem newline_not_mem_tuningBlock : ∀ row ∈ tuningBlock settings, '\n' ∉ row := by
  intro row hrow
  simp only [tuningBlock, List.mem_cons, List.mem_append, List.not_mem_nil, or_false] at hrow
  rcases hrow with rfl | hrow | rfl
  · decide
  · exact (innerRows_plain row hrow).1
  · decide

/-! ### One start -/

theorem applyTuning_file (hok : (applyTuning disk settings file).ok) :
    (applyTuning disk settings file).file =
      printed (strip beginMarker endMarker false (records file) ++ tuningBlock settings) := by
  rw [applyTuning] at hok ⊢
  split_ifs at hok ⊢
  cases hstop : disk.append with
  | none => simp [printTo, printed]
  | some n => simp [printTo, hstop] at hok

/-- Rows of the file with the block after them are read back. -/
theorem records_printed_block {rows : List (List Char)} (hrows : rows.Sublist (records file)) :
    records (printed (rows ++ tuningBlock settings)) = rows ++ tuningBlock settings := by
  apply records_printed
  intro row hrow
  rcases List.mem_append.mp hrow with hrow | hrow
  · exact not_mem_of_mem_lines (mem_lines_of_mem_records (hrows.subset hrow))
  · exact newline_not_mem_tuningBlock row hrow

theorem records_applyTuning (hok : (applyTuning disk settings file).ok) :
    records (applyTuning disk settings file).file =
      strip beginMarker endMarker false (records file) ++ tuningBlock settings := by
  rw [applyTuning_file hok, records_printed_block strip_sublist]

theorem markers_ne : beginMarker ≠ endMarker := by decide

/-- A second start finds the file as it would leave it. -/
theorem applyTuning_steady (hok : (applyTuning disk settings file).ok) (disk' : Disk)
    (hok' : (applyTuning disk' settings (applyTuning disk settings file).file).ok) :
    (applyTuning disk' settings (applyTuning disk settings file).file).file =
      (applyTuning disk settings file).file := by
  have hinner : ∀ row ∈ innerRows settings, row ≠ beginMarker ∧ row ≠ endMarker :=
    fun row hrow => (innerRows_plain row hrow).2
  rw [applyTuning_file hok', records_applyTuning hok, applyTuning_file hok]
  rw [show tuningBlock settings = beginMarker :: (innerRows settings ++ [endMarker]) from rfl,
    strip_strip hinner markers_ne]

/-- What the block assigns is not assigned after it. -/
theorem effectiveRow_applyTuning (hok : (applyTuning disk settings file).ok) :
    ∀ setting ∈ autovacuum settings ++ [archiving],
      effectiveRow (applyTuning disk settings file).file setting.1 =
        some (settingRow setting) := by
  intro setting hsetting
  obtain ⟨hname, hne⟩ := assignment_named hsetting
  have hfound : ((tuningBlock settings).reverse.find? fun row =>
      settingName row = setting.1).isSome := by
    rw [List.find?_isSome]
    exact ⟨_, List.mem_reverse.mpr (assignment_mem_tuningBlock hsetting), by simpa using hname⟩
  obtain ⟨row, hrow⟩ := Option.isSome_iff_exists.mp hfound
  have hassigns : settingName row = setting.1 := by simpa using List.find?_some hrow
  have hmem : row ∈ tuningBlock settings := List.mem_reverse.mp (List.mem_of_find?_eq_some hrow)
  obtain ⟨other, hother, rfl⟩ := tuningBlock_assignment hmem (by rw [hassigns]; exact hne)
  have heq : other = setting :=
    assignment_unique hsetting hother (by rw [← hassigns, (assignment_named hother).1])
  rw [effectiveRow, records_applyTuning hok, List.reverse_append, List.find?_append, hrow, heq]
  rfl

/-- **Tuning.**  A start that succeeds leaves the lines outside the blocks and one fresh block, if
and only if no block was left open before a line. -/
theorem applyTuning_tuned_iff (settings : Settings) (disk : Disk) (file : List Char)
    (hok : (applyTuning disk settings file).ok) :
    Tuned settings file (applyTuning disk settings file).file ↔
      Closed beginMarker endMarker [] (records file) := by
  have hstart : isOpen beginMarker endMarker [] = false := by decide
  rw [← strip_eq_outside_iff markers_ne, hstart]
  constructor
  · intro htuned
    have hrows := congrArg records htuned.content
    rw [records_applyTuning hok, records_printed_block outside_sublist] at hrows
    exact List.append_cancel_right hrows
  · intro hstrip
    exact
      { content := by rw [applyTuning_file hok, hstrip]
        steady := fun disk' hok' => applyTuning_steady hok disk' hok'
        effective := effectiveRow_applyTuning hok }

end Start

/-! ## Two files -/

def steadyDisk : Disk := ⟨true, true, true, none⟩

def defaults : Settings := ⟨"0.05".toList, "1000".toList, "256MB".toList, by decide⟩

/-- A block of an earlier start, and no line break at the end. -/
def editedFile : List Char :=
  "archive_mode = on\n# FASTTAK-TUNING-BEGIN\narchive_mode = off\n# FASTTAK-TUNING-END\nport = 1".toList

theorem applyTuning_tuned_edited :
    Tuned defaults editedFile (applyTuning steadyDisk defaults editedFile).file := by
  apply (applyTuning_tuned_iff defaults steadyDisk editedFile (by decide +kernel)).mpr
  exact (strip_eq_outside_iff markers_ne _ _).mp (by decide +kernel)

example : applyTuning ⟨true, true, true, some 23⟩ defaults [] = ⟨beginMarker ++ ['\n'], false⟩ := by
  decide +kernel

/-- A full disk stopped the append, and a line was added by hand. -/
def interruptedFile : List Char := "# FASTTAK-TUNING-BEGIN\nmax_connections = 500\n".toList

theorem applyTuning_interrupted :
    (applyTuning steadyDisk defaults interruptedFile).ok ∧
      ¬ Tuned defaults interruptedFile
        (applyTuning steadyDisk defaults interruptedFile).file := by
  constructor
  · decide +kernel
  · intro htuned
    exact absurd htuned.content (by decide +kernel)

end FastTAK.Tuning
