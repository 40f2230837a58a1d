import FastTAK.Base.Comm
import FastTAK.Base.Text
import FastTAK.Env.Secrets

/-!
# The drift report

`check-env.sh --report` compares the keys of `.env` with those of `.env.example`, commented ones
among them.
-/

namespace FastTAK.Env

open FastTAK.Comm
open scoped FastTAK.Text

/-! ## Keys -/

def isKeyStart (c : Char) : Bool := c.isAlpha || c == '_'

/-- A line from its key on, if it has one. -/
def keyText (line : List Char) : List Char :=
  let body := line.dropWhile isSpace
  let body := if body.head? = some '#' then body.tail.dropWhile isSpace else body
  (afterExport body).getD body

def isAssigned (text : List Char) : Bool :=
  (text.takeWhile isKeyChar).head?.any isKeyStart &&
    (text.dropWhile isKeyChar).head? = some '='

/-- What `grep -o` and `sed` of `env_keys` make of a line. -/
def keyOf (line : List Char) : Option (List Char) :=
  if isAssigned (keyText line) then some ((keyText line).takeWhile isKeyChar) else none

/-- `env_keys`. -/
def envKeys (file : List Char) : List (List Char) := sortUnique ((lines file).filterMap keyOf)

def monitorSetting : List Char := "FASTAK_MON_".toList

/-- `env_keys … | grep -v '^FASTAK_MON_'`. -/
def driftKeys (file : List Char) : List (List Char) :=
  (envKeys file).filter fun key => ¬ monitorSetting <+: key

/-! ## The report -/

/-- What `printf '%s\n'` gives to `comm`. -/
def column (keys : List (List Char)) : List (List Char) := if keys = [] then [[]] else keys

def newKeys (template file : List Char) : List (List Char) :=
  (comm (column (driftKeys template)) (column (driftKeys file))).1.filter (· ≠ [])

def staleKeys (template file : List Char) : List (List Char) :=
  (comm (column (driftKeys template)) (column (driftKeys file))).2.filter (· ≠ [])

def indented (keys : List (List Char)) : List (List Char) := keys.map fun key => ' ' :: ' ' :: key

def counted (keys : List (List Char)) : List Char :=
  " (".toList ++ (toString keys.length).toList ++ [')']

/-- The lines of `check-env.sh --report` for a `.env`, if there is one. -/
def driftReport (path template : List Char) : Option (List Char) → List (List Char)
  | none => ["No .env at ".toList ++ path ++ " — nothing to compare.".toList]
  | some file =>
      let news := newKeys template file
      let stale := staleKeys template file
      if news = [] ∧ stale = [] then
        ["No drift: ".toList ++ path ++ " and .env.example carry the same keys.".toList]
      else
        (if news = [] then []
          else ("New in this release, not in ".toList ++ path ++ counted news ++ [':']) ::
            (indented news ++ ["  See .env.example for what each does.".toList])) ++
        (if stale = [] then []
          else ("In ".toList ++ path ++ ", not used by this release".toList ++ counted stale ++
              " — safe to remove if you didn't add them:".toList) ::
            indented stale)

/-! ## What it reports -/

section Keys

variable {key : Key} {file template line k value : List Char} {keys : List (List Char)}
  {tools : Tools}

theorem mem_envKeys : k ∈ envKeys file ↔ ∃ line ∈ lines file, keyOf line = some k := by
  rw [envKeys, mem_sortUnique, List.mem_filterMap]

theorem keyOf_ne_nil (h : keyOf line = some k) : k ≠ [] := by
  rintro rfl
  rw [keyOf] at h
  split_ifs at h with hassigned
  rw [isAssigned, Option.some.inj h] at hassigned
  cases hassigned

theorem takeWhile_isKeyChar (key : Key) (value : List Char) :
    (key.chars ++ '=' :: value).takeWhile isKeyChar = key.chars := by
  rw [List.takeWhile_append_of_pos key.valid, List.takeWhile_cons_of_neg (by decide),
    List.append_nil]

theorem isAssigned_key (hstart : key.chars.head?.any isKeyStart = true) (value : List Char) :
    isAssigned (key.chars ++ '=' :: value) = true := by
  rw [isAssigned, takeWhile_isKeyChar, hstart, List.dropWhile_append_of_pos key.valid]
  rfl

theorem head_key_ne_hash (key : Key) (value : List Char) :
    (key.chars ++ '=' :: value).head? ≠ some '#' := by
  cases hchars : key.chars with
  | nil => exact absurd hchars key.nonempty
  | cons c rest =>
      intro heq
      have hc := key.valid c (hchars ▸ List.mem_cons_self)
      rw [Option.some.inj heq] at hc
      exact absurd hc (by decide)

theorem keyText_of_assigns (h : assigns key line) :
    ∃ value, keyText line = key.chars ++ '=' :: value := by
  obtain ⟨lead, value, hspaces | ⟨blanks, gap, hblanks, hgap, hne, rfl⟩, rfl⟩ :=
    assigns_iff_lead.mp h
  · have hexport : afterExport (key.chars ++ '=' :: value) = none := afterExport_key
    use value
    rw [keyText, dropWhile_spaces hspaces head_key_not_space, if_neg (head_key_ne_hash key value),
      hexport, Option.getD_none]
  · have hword : ¬ (exportWord ++ (gap ++ (key.chars ++ '=' :: value))).head?.any isSpace :=
      Bool.false_ne_true
    have hletter : (exportWord ++ (gap ++ (key.chars ++ '=' :: value))).head? ≠ some '#' := by
      intro heq
      cases heq
    use value
    rw [keyText, List.append_assoc, List.append_assoc, dropWhile_spaces hblanks hword,
      if_neg hletter, afterExport_gap hgap hne head_key_not_space, Option.getD_some]

/-- A line that `env_get` reads has its key. -/
theorem keyOf_of_assigns (hstart : key.chars.head?.any isKeyStart = true)
    (h : assigns key line) : keyOf line = some key.chars := by
  obtain ⟨value, htext⟩ := keyText_of_assigns h
  rw [keyOf, htext, if_pos (isAssigned_key hstart value), takeWhile_isKeyChar]

theorem mem_driftKeys : k ∈ driftKeys file ↔ k ∈ envKeys file ∧ ¬ monitorSetting <+: k := by
  rw [driftKeys, List.mem_filter, decide_eq_true_iff]

theorem pairwise_driftKeys (file : List Char) : (driftKeys file).Pairwise (· < ·) :=
  (pairwise_sortUnique _).filter _

theorem pairwise_column (h : keys.Pairwise (· < ·)) : (column keys).Pairwise (· < ·) := by
  rw [column]
  split_ifs
  · exact List.pairwise_singleton _ _
  · exact h

theorem mem_column (hk : k ≠ []) : k ∈ column keys ↔ k ∈ keys := by
  rw [column]
  split_ifs with hnone
  · rw [hnone, List.mem_singleton]
    exact iff_of_false hk List.not_mem_nil
  · exact Iff.rfl

theorem ne_nil_of_mem_driftKeys (h : k ∈ driftKeys file) : k ≠ [] := by
  obtain ⟨line, -, hline⟩ := mem_envKeys.mp (mem_driftKeys.mp h).1
  exact keyOf_ne_nil hline

theorem mem_newKeys : k ∈ newKeys template file ↔ k ∈ driftKeys template ∧ k ∉ driftKeys file := by
  rw [newKeys, comm_eq (pairwise_column (pairwise_driftKeys template))
    (pairwise_column (pairwise_driftKeys file)), List.mem_filter, List.mem_filter]
  simp only [decide_eq_true_eq]
  constructor
  · rintro ⟨⟨hmem, hnot⟩, hk⟩
    exact ⟨(mem_column hk).mp hmem, fun h => hnot ((mem_column hk).mpr h)⟩
  · intro h
    have hk := ne_nil_of_mem_driftKeys h.1
    exact ⟨⟨(mem_column hk).mpr h.1, fun hmem => h.2 ((mem_column hk).mp hmem)⟩, hk⟩

theorem mem_staleKeys :
    k ∈ staleKeys template file ↔ k ∈ driftKeys file ∧ k ∉ driftKeys template := by
  rw [staleKeys, comm_eq (pairwise_column (pairwise_driftKeys template))
    (pairwise_column (pairwise_driftKeys file)), List.mem_filter, List.mem_filter]
  simp only [decide_eq_true_eq]
  constructor
  · rintro ⟨⟨hmem, hnot⟩, hk⟩
    exact ⟨(mem_column hk).mp hmem, fun h => hnot ((mem_column hk).mpr h)⟩
  · intro h
    have hk := ne_nil_of_mem_driftKeys h.1
    exact ⟨⟨(mem_column hk).mpr h.1, fun hmem => h.2 ((mem_column hk).mp hmem)⟩, hk⟩

theorem pairwise_newKeys (template file : List Char) :
    (newKeys template file).Pairwise (· < ·) := by
  rw [newKeys, comm_eq (pairwise_column (pairwise_driftKeys template))
    (pairwise_column (pairwise_driftKeys file))]
  exact ((pairwise_column (pairwise_driftKeys template)).filter _).filter _

theorem pairwise_staleKeys (template file : List Char) :
    (staleKeys template file).Pairwise (· < ·) := by
  rw [staleKeys, comm_eq (pairwise_column (pairwise_driftKeys template))
    (pairwise_column (pairwise_driftKeys file))]
  exact ((pairwise_column (pairwise_driftKeys file)).filter _).filter _

theorem keyOf_nil : keyOf [] = none := by decide

theorem mem_envKeys_records : k ∈ envKeys file ↔ ∃ row ∈ records file, keyOf row = some k := by
  rw [mem_envKeys]
  constructor
  · rintro ⟨line, hline, hkey⟩
    have hne : line ≠ [] := by
      rintro rfl
      rw [keyOf_nil] at hkey
      cases hkey
    refine ⟨line, ?_, hkey⟩
    rw [lines_eq_concat] at hline
    rw [records]
    rcases List.mem_append.mp hline with hline | hline
    · exact List.mem_append_left _ hline
    · obtain rfl := List.mem_singleton.mp hline
      rw [if_neg hne]
      exact List.mem_append_right _ hline
  · rintro ⟨row, hrow, hkey⟩
    exact ⟨row, mem_lines_of_mem_records hrow, hkey⟩

/-- A key that is appended is no news any more, and nothing else changes. -/
theorem mem_newKeys_envAppend (hstart : key.chars.head?.any isKeyStart = true)
    (hvalue : '\n' ∉ value) (hok : (envAppend tools file key value).ok = true) :
    k ∈ newKeys template (envAppend tools file key value).file ↔
      k ∈ newKeys template file ∧ k ≠ key.chars := by
  have hrow := keyOf_of_assigns hstart (assigns_row key value)
  have hkeys : k ∈ envKeys (envAppend tools file key value).file ↔
      k ∈ envKeys file ∨ k = key.chars := by
    rw [mem_envKeys_records, mem_envKeys_records, records_envAppend hvalue hok]
    constructor
    · rintro ⟨row, hmem, hkey⟩
      rcases List.mem_append.mp hmem with hmem | hmem
      · exact Or.inl ⟨row, hmem, hkey⟩
      · rw [List.mem_singleton.mp hmem, hrow] at hkey
        exact Or.inr (Option.some.inj hkey).symm
    · rintro (⟨row, hmem, hkey⟩ | rfl)
      · exact ⟨row, List.mem_append_left _ hmem, hkey⟩
      · exact ⟨_, List.mem_append_right _ (List.mem_singleton_self _), hrow⟩
  have hdrift : k ∈ driftKeys (envAppend tools file key value).file ↔
      (k ∈ envKeys file ∨ k = key.chars) ∧ ¬ monitorSetting <+: k := by
    rw [mem_driftKeys, hkeys]
  have hbefore : k ∈ driftKeys file ↔ k ∈ envKeys file ∧ ¬ monitorSetting <+: k := mem_driftKeys
  rw [mem_newKeys, mem_newKeys, hdrift, hbefore, mem_driftKeys]
  tauto

/-- The report has the keys of one file that no line of the other has, commented or not, each once
and apart from the settings of the monitor.  A key that `env_get` finds in `.env` is no news, nor
is one after it has been appended. -/
theorem driftReport_exact (template file : List Char) :
    (newKeys template file).Nodup ∧ (staleKeys template file).Nodup ∧
      (∀ k, k ∈ newKeys template file ↔ (∃ line ∈ lines template, keyOf line = some k) ∧
        (∀ line ∈ lines file, keyOf line ≠ some k) ∧ ¬ monitorSetting <+: k) ∧
      (∀ k, k ∈ staleKeys template file ↔ (∃ line ∈ lines file, keyOf line = some k) ∧
        (∀ line ∈ lines template, keyOf line ≠ some k) ∧ ¬ monitorSetting <+: k) ∧
      ∀ key : Key, key.chars.head?.any isKeyStart = true →
        (envHas file key = true → key.chars ∉ newKeys template file) ∧
        ∀ tools value, '\n' ∉ value → (envAppend tools file key value).ok = true →
          ∀ k, k ∈ newKeys template (envAppend tools file key value).file ↔
            k ∈ newKeys template file ∧ k ≠ key.chars := by
  have hlacks : ∀ {file : List Char} {k}, k ∉ envKeys file ↔
      ∀ line ∈ lines file, keyOf line ≠ some k := by
    intro file k
    rw [mem_envKeys]
    simp only [not_exists, not_and, ne_eq]
  refine ⟨(pairwise_newKeys template file).imp ne_of_lt,
    (pairwise_staleKeys template file).imp ne_of_lt, fun k => ?_, fun k => ?_, fun key hstart => ?_⟩
  · rw [mem_newKeys, mem_driftKeys, mem_driftKeys, ← mem_envKeys, ← hlacks]
    tauto
  · rw [mem_staleKeys, mem_driftKeys, mem_driftKeys, ← mem_envKeys, ← hlacks]
    tauto
  · refine ⟨fun hhas => ?_, fun tools value hvalue hok k => mem_newKeys_envAppend hstart hvalue hok⟩
    obtain ⟨line, hline, hassigns⟩ := List.any_eq_true.mp hhas
    have hkey : key.chars ∈ envKeys file :=
      mem_envKeys.mpr ⟨line, hline, keyOf_of_assigns hstart hassigns⟩
    rw [mem_newKeys, mem_driftKeys, mem_driftKeys]
    tauto

end Keys

end FastTAK.Env
