import FastTAK.Base.JsonErrors

/-!
# What is in the state file

`state.read` is to take any bytes.  It decodes them, parses the text and merges the result into
the defaults; each stage may raise, and only some of what is raised counts as a missing file.
-/

namespace FastTAK.StateContent

open FastTAK.Fields FastTAK.PyJson

/-- How deep containers nest before `json.loads` and `json.dump` raise `RecursionError`. -/
structure Limits where
  scan : ℕ
  dump : ℕ
  two_le_scan : 2 ≤ scan
  two_le_dump : 2 ≤ dump

inductive Exn
  | unicodeDecodeError
  | json (error : JsonError)
  | typeError
deriving DecidableEq

abbrev State := List (Str × Value)

/-- The state file: bytes, or the text of `json.dump`. -/
inductive File
  | bytes (content : List UInt8)
  | dumped (payload : State)

def keyDownloadedAt : Str := str "key_downloaded_at"

def lastRun : Str := str "last_run"

/-- `DEFAULTS`. -/
def defaults : State := [(keyDownloadedAt, .null), (lastRun, .null)]

/-- `json.loads(p.read_text())`, which gives back what `json.dump` was given, but for the order of
the keys.  Line ends in other conventions are space for JSON and no part of its strings. -/
def File.loads (limits : Limits) : File → Except Exn Value
  | .bytes content =>
      match decodeStrict (content.map UInt8.toNat) with
      | none => .error .unicodeDecodeError
      | some text => (loadText limits.scan text).mapError .json
  | .dumped payload =>
      if nesting (.dict payload) ≤ limits.scan then .ok (.dict payload)
      else .error (.json .recursionError)

/-- `{**DEFAULTS, **loaded}`. -/
def merge : Value → Except Exn State
  | .dict fields => .ok (putAll fields defaults)
  | _ => .error .typeError

/-- `except (OSError, json.JSONDecodeError)`. -/
def orDefaults : Except Exn State → Except Exn State
  | .error (.json .jsonDecodeError) => .ok defaults
  | result => result

def read (limits : Limits) : Option File → Except Exn State
  | none => .ok defaults
  | some file => orDefaults (file.loads limits >>= merge)

def write (limits : Limits) (payload : State) : Except Exn File :=
  if nesting (.dict payload) ≤ limits.dump then .ok (.dumped payload)
  else .error (.json .recursionError)

/-- Read the state, set one key and write it. -/
def update (limits : Limits) (key : Str) (value : Value) (file : Option File) :
    Except Exn File := do
  let current ← read limits file
  write limits (put key value current)

def markKeyDownloaded (limits : Limits) (now : String) : Option File → Except Exn File :=
  update limits keyDownloadedAt (.str (str now))

/-- What the callers of `write_last_run` pass. -/
structure LastRun where
  startedAt : String
  finishedAt : Option String
  status : String
  filename : String
  error : Option String

def optional : Option String → Value
  | none => .null
  | some text => .str (str text)

def LastRun.value (run : LastRun) : Value :=
  .dict [(str "started_at", .str (str run.startedAt)),
    (str "finished_at", optional run.finishedAt), (str "status", .str (str run.status)),
    (str "filename", .str (str run.filename)), (str "error", optional run.error)]

def writeLastRun (limits : Limits) (run : LastRun) : Option File → Except Exn File :=
  update limits lastRun run.value

/-! ## Writing over a state -/

section Updates

variable {limits : Limits} {state : State} {key : Str} {value : Value}

theorem nesting_optional (text : Option String) : nesting (optional text) = 0 := by
  cases text <;> simp [optional, nesting]

theorem LastRun.nesting_value (run : LastRun) : nesting run.value = 1 := by
  simp [LastRun.value, nesting, nestingFields, nesting_optional]

theorem nodup_defaults : (keys defaults).Nodup := by
  decide

theorem nestingFields_defaults : nestingFields defaults = 0 := by
  simp [defaults, nestingFields, nesting]

theorem nestingFields_putAll_le {fields : State} {n : ℕ} (hfields : nestingFields fields ≤ n) :
    nestingFields (putAll fields defaults) ≤ n := by
  apply nestingFields_le_iff.mpr
  intro field hfield
  rcases mem_of_mem_putAll hfield with hnew | hdefault
  · exact nestingFields_le_iff.mp hfields field hnew
  · apply nestingFields_le_iff.mp _ field hdefault
    rw [nestingFields_defaults]
    exact Nat.zero_le n

theorem write_eq_ok (hdump : nestingFields state < limits.dump) :
    write limits state = .ok (.dumped state) := by
  rw [write, nesting, if_pos (Nat.add_one_le_iff.mpr hdump)]

theorem nesting_lt_of_write {file : File} (h : write limits state = .ok file) :
    nestingFields state < limits.dump := by
  rw [write, nesting] at h
  by_contra hdeep
  rw [if_neg (fun hle => hdeep (Nat.add_one_le_iff.mp hle))] at h
  cases h

theorem read_dumped (hscan : nestingFields state < limits.scan) :
    read limits (some (.dumped state)) = .ok (putAll state defaults) := by
  rw [read, File.loads, nesting, if_pos (Nat.add_one_le_iff.mpr hscan)]
  rfl

/-- A state that is read and shallow enough is updated, and the new value is read back. -/
theorem update_of_read {file : Option File} (hread : read limits file = .ok state)
    (hnodup : (keys state).Nodup) (hdump : nestingFields state < limits.dump)
    (hscan : nestingFields state < limits.scan) (hvalue : nesting value ≤ 1) :
    ∃ written state', update limits key value file = .ok written ∧
      read limits (some written) = .ok state' ∧ state'.lookup key = some value := by
  have hput : ∀ {n : ℕ}, 2 ≤ n → nestingFields state < n →
      nestingFields (put key value state) < n := by
    intro n hn hstate
    have hle : nestingFields (put key value state) ≤ n - 1 :=
      nestingFields_put_le (by omega) (by omega)
    omega
  refine ⟨.dumped (put key value state), putAll (put key value state) defaults, ?_, ?_, ?_⟩
  · rw [update, hread]
    exact write_eq_ok (hput limits.two_le_dump hdump)
  · exact read_dumped (hput limits.two_le_scan hscan)
  · rw [lookup_putAll (nodup_keys_put hnodup), lookup_put_self]
    rfl

end Updates

/-! ## Every content -/

/-- What is promised of a state file, whatever is in it. -/
structure ReadsAsState (limits : Limits) (content : List UInt8) : Prop where
  reads : ∃ state, read limits (some (.bytes content)) = .ok state ∧
    keyDownloadedAt ∈ keys state ∧ lastRun ∈ keys state
  records : ∀ run : LastRun, ∃ file state,
    writeLastRun limits run (some (.bytes content)) = .ok file ∧
      read limits (some file) = .ok state ∧ state.lookup lastRun = some run.value
  marks : ∀ now : String, ∃ file state,
    markKeyDownloaded limits now (some (.bytes content)) = .ok file ∧
      read limits (some file) = .ok state ∧
      state.lookup keyDownloadedAt = some (.str (str now))

/-- UTF-8 text that is not JSON, or an object whose fields can be written again. -/
def Expected (limits : Limits) (content : List UInt8) : Prop :=
  ∃ text ∈ decodeStrict (content.map UInt8.toNat),
    loadText limits.scan text = .error .jsonDecodeError ∨
      ∃ fields, loadText limits.scan text = .ok (.dict fields) ∧
        nestingFields fields < limits.dump

section Contents

variable {limits : Limits} {content : List UInt8}

theorem mem_keys_putAll_defaults {fields : State} (hnodup : (keys fields).Nodup) {key : Str}
    (hkey : key ∈ keys defaults) : key ∈ keys (putAll fields defaults) := by
  by_contra habsent
  have hlookup := lookup_eq_none_iff.mpr habsent
  rw [lookup_putAll hnodup, Option.or_eq_none_iff] at hlookup
  exact lookup_eq_none_iff.mp hlookup.2 hkey

/-- A state that has both keys and is shallow enough keeps the promise. -/
theorem readsAsState_of_read {state : State}
    (hread : read limits (some (.bytes content)) = .ok state) (hnodup : (keys state).Nodup)
    (hkey : keyDownloadedAt ∈ keys state) (hrun : lastRun ∈ keys state)
    (hdump : nestingFields state < limits.dump) (hscan : nestingFields state < limits.scan) :
    ReadsAsState limits content where
  reads := ⟨state, hread, hkey, hrun⟩
  records run := update_of_read hread hnodup hdump hscan run.nesting_value.le
  marks now := update_of_read hread hnodup hdump hscan (by simp [nesting])

theorem read_text {text : Str} (htext : decodeStrict (content.map UInt8.toNat) = some text) :
    read limits (some (.bytes content)) =
      orDefaults ((loadText limits.scan text).mapError .json >>= merge) := by
  rw [read, File.loads, htext]

theorem readsAsState_of_expected (h : Expected limits content) : ReadsAsState limits content := by
  obtain ⟨text, htext, hload⟩ := h
  have hread : read limits (some (.bytes content)) = _ := read_text htext
  cases hload with
  | inl hinvalid =>
      rw [hinvalid] at hread
      have hflat := nestingFields_defaults
      have hscan := limits.two_le_scan
      have hdump := limits.two_le_dump
      apply readsAsState_of_read hread nodup_defaults (by decide) (by decide)
      · omega
      · omega
  | inr hobject =>
      obtain ⟨fields, hfields, hdump⟩ := hobject
      rw [hfields] at hread
      obtain ⟨hnesting, hdistinct⟩ := sound_of_loadText hfields
      have hnodup := hdistinct fields rfl
      have hle : nestingFields (putAll fields defaults) ≤ nestingFields fields :=
        nestingFields_putAll_le le_rfl
      rw [nesting] at hnesting
      apply readsAsState_of_read hread (nodup_keys_putAll nodup_defaults)
      · exact mem_keys_putAll_defaults hnodup (by decide)
      · exact mem_keys_putAll_defaults hnodup (by decide)
      · omega
      · omega

/-- Only such contents are read. -/
theorem loaded_of_read {state : State} (hread : read limits (some (.bytes content)) = .ok state) :
    ∃ text ∈ decodeStrict (content.map UInt8.toNat),
      loadText limits.scan text = .error .jsonDecodeError ∨
        ∃ fields, loadText limits.scan text = .ok (.dict fields) ∧
          state = putAll fields defaults := by
  cases htext : decodeStrict (content.map UInt8.toNat) with
  | none =>
      rw [read, File.loads, htext] at hread
      cases hread
  | some text =>
      refine ⟨text, rfl, ?_⟩
      rw [read_text htext] at hread
      cases hload : loadText limits.scan text with
      | error e =>
          rw [hload] at hread
          cases e with
          | jsonDecodeError => exact .inl rfl
          | valueError => cases hread
          | recursionError => cases hread
      | ok value =>
          rw [hload] at hread
          cases value with
          | dict fields =>
              cases hread
              exact .inr ⟨fields, rfl, rfl⟩
          | _ => cases hread

/-- A write leaves the fields of the other keys as they were. -/
theorem nesting_lt_of_update {state : State} {key other : Str} {value old : Value} {file : File}
    (hread : read limits (some (.bytes content)) = .ok state)
    (hupdate : update limits key value (some (.bytes content)) = .ok file)
    (hother : other ≠ key) (hold : state.lookup other = some old) :
    nesting old < limits.dump := by
  rw [update, hread] at hupdate
  have hdump : nestingFields (put key value state) < limits.dump := nesting_lt_of_write hupdate
  have hmem : (other, old) ∈ put key value state := by
    apply mem_of_lookup
    rw [lookup_put_of_ne hother, hold]
  exact lt_of_le_of_lt (nestingFields_le_iff.mp le_rfl _ hmem) hdump

theorem expected_of_readsAsState (h : ReadsAsState limits content) : Expected limits content := by
  obtain ⟨state, hread, -, -⟩ := h.reads
  obtain ⟨text, htext, hload⟩ := loaded_of_read hread
  refine ⟨text, htext, hload.imp_right ?_⟩
  intro hobject
  obtain ⟨fields, hfields, rfl⟩ := hobject
  refine ⟨fields, hfields, ?_⟩
  have hnodup := (sound_of_loadText hfields).2 fields rfl
  have hfield : ∀ field ∈ fields, nesting field.2 < limits.dump := by
    intro field hfield
    have hlookup : (putAll fields defaults).lookup field.1 = some field.2 := by
      rw [lookup_putAll hnodup, lookup_of_mem hnodup hfield]
      rfl
    -- Each writer keeps the fields other than its own.
    by_cases hkey : field.1 = lastRun
    · obtain ⟨file, -, hmark, -⟩ := h.marks ""
      apply nesting_lt_of_update hread hmark _ hlookup
      rw [hkey]
      decide
    · obtain ⟨file, -, hwrite, -⟩ := h.records ⟨"", none, "", "", none⟩
      exact nesting_lt_of_update hread hwrite hkey hlookup
  have hle : nestingFields fields ≤ limits.dump - 1 :=
    nestingFields_le_iff.mpr (fun field hmem => Nat.le_sub_one_of_lt (hfield field hmem))
  have hdump := limits.two_le_dump
  omega

end Contents

/-- A content reads as a state, and can be written over, exactly if it is UTF-8 text and either no
JSON or an object that `json.dump` can write. -/
theorem reads_as_state_iff (limits : Limits) (content : List UInt8) :
    ReadsAsState limits content ↔ Expected limits content :=
  ⟨expected_of_readsAsState, readsAsState_of_expected⟩

/-! ## Contents that are not read -/

def usualLimits : Limits := ⟨1500, 900, by decide, by decide⟩

/-- An empty list is JSON, and a byte that starts no character is no text. -/
theorem list_and_stray_byte_raise :
    read usualLimits (some (.bytes [0x5b, 0x5d])) = .error .typeError ∧
      read usualLimits (some (.bytes [0xff])) = .error .unicodeDecodeError ∧
      ¬ ReadsAsState usualLimits [0x5b, 0x5d] := by
  have hlist : read usualLimits (some (.bytes [0x5b, 0x5d])) = .error .typeError := rfl
  refine ⟨hlist, rfl, ?_⟩
  intro h
  obtain ⟨state, hread, -, -⟩ := h.reads
  rw [hlist] at hread
  cases hread

end FastTAK.StateContent
