import Mathlib

/-!
# CSV

Rows of fields as `csv.writer` writes them, and as `csv.reader` reads them: a field is quoted if
it has to be, and a quote in it is doubled.
-/

namespace FastTAK.Csv

/-- What separates fields and what quotes them. -/
structure Dialect where
  delimiter : Char
  quote : Char
  delimiter_ne_quote : delimiter ≠ quote
  delimiter_inline : delimiter ≠ '\r' ∧ delimiter ≠ '\n'
  quote_inline : quote ≠ '\r' ∧ quote ≠ '\n'

/-- The dialect that is the default. -/
def excel : Dialect := ⟨',', '"', by decide, by decide, by decide⟩

/-! ## Writing -/

/-- A character for which a field is quoted. -/
def Dialect.isSpecial (d : Dialect) (c : Char) : Bool :=
  c ∈ [d.delimiter, d.quote, '\n', '\r']

def Dialect.quoted (d : Dialect) (field : List Char) : List Char :=
  d.quote :: ((field.flatMap fun c => if c = d.quote then [c, c] else [c]) ++ [d.quote])

/-- A field, which is quoted where the row would be read as an empty one too. -/
def Dialect.writeField (d : Dialect) (alone : Bool) (field : List Char) : List Char :=
  if field.any d.isSpecial || (alone && field.isEmpty) then d.quoted field else field

/-- The fields after the first one. -/
def Dialect.writeRest (d : Dialect) : List (List Char) → List Char
  | [] => ['\r', '\n']
  | field :: fields => d.delimiter :: (d.writeField false field ++ d.writeRest fields)

/-- `writerow`. -/
def Dialect.writeRow (d : Dialect) : List (List Char) → List Char
  | [] => ['\r', '\n']
  | field :: fields => d.writeField fields.isEmpty field ++ d.writeRest fields

def Dialect.write (d : Dialect) (rows : List (List (List Char))) : List Char :=
  rows.flatMap d.writeRow

/-! ## Reading -/

inductive State
  | startRecord
  | startField
  | inField
  | inQuoted
  | quoteInQuoted
  | afterReturn
deriving DecidableEq

/-- What has been read: the rows, the fields of the row that is open, and the field that is open,
each the latest first. -/
structure Reader where
  state : State
  field : List Char
  fields : List (List Char)
  rows : List (List (List Char))

def Reader.save (r : Reader) (state : State) : Reader :=
  { r with state := state, field := [], fields := r.field.reverse :: r.fields }

def Reader.add (r : Reader) (state : State) (c : Char) : Reader :=
  { r with state := state, field := c :: r.field }

/-- The row is complete. -/
def Reader.emit (r : Reader) (c : Char) : Reader where
  state := if c = '\r' then .afterReturn else .startRecord
  field := []
  fields := []
  rows := r.fields.reverse :: r.rows

def isBreak (c : Char) : Bool := c = '\r' || c = '\n'

/-- A field begins. -/
def Reader.start (d : Dialect) (r : Reader) (c : Char) : Reader :=
  if isBreak c then (r.save .startField).emit c
  else if c = d.quote then { r with state := .inQuoted }
  else if c = d.delimiter then r.save .startField
  else r.add .inField c

/-- A row begins. -/
def Reader.startRow (d : Dialect) (r : Reader) (c : Char) : Reader :=
  if isBreak c then r.emit c else r.start d c

/-- What the reader does with a character. -/
def Reader.step (d : Dialect) (r : Reader) (c : Char) : Reader :=
  match r.state with
  | .startRecord => r.startRow d c
  | .startField => r.start d c
  | .inField =>
      if isBreak c then (r.save .startField).emit c
      else if c = d.delimiter then r.save .startField
      else r.add .inField c
  | .inQuoted =>
      if c = d.quote then { r with state := .quoteInQuoted } else r.add .inQuoted c
  | .quoteInQuoted =>
      if c = d.quote then r.add .inQuoted c
      else if c = d.delimiter then r.save .startField
      else if isBreak c then (r.save .startField).emit c
      else r.add .inField c
  | .afterReturn => if c = '\n' then { r with state := .startRecord } else r.startRow d c

def Reader.run (d : Dialect) (r : Reader) (text : List Char) : Reader :=
  text.foldl (Reader.step d) r

/-- A row that the text ends in is complete. -/
def Reader.finish (r : Reader) : List (List (List Char)) :=
  if r.state = .startRecord ∨ r.state = .afterReturn then r.rows.reverse
  else ((r.save .startField).emit '\n').rows.reverse

/-- `csv.reader`. -/
def Dialect.read (d : Dialect) (text : List Char) : List (List (List Char)) :=
  (Reader.run d ⟨.startRecord, [], [], []⟩ text).finish

/-! ## What is written is read -/

section RoundTrip

variable {d : Dialect} {r : Reader} {c : Char} {field text rest : List Char} {alone : Bool}
  {fields : List (List Char)}

theorem run_append (d : Dialect) (r : Reader) (text rest : List Char) :
    r.run d (text ++ rest) = (r.run d text).run d rest :=
  List.foldl_append

theorem run_cons (d : Dialect) (r : Reader) (c : Char) (rest : List Char) :
    r.run d (c :: rest) = (r.step d c).run d rest := rfl

theorem isSpecial_eq_false_iff : d.isSpecial c = false ↔
    c ≠ d.delimiter ∧ c ≠ d.quote ∧ isBreak c = false := by
  simp only [Dialect.isSpecial, isBreak, decide_eq_false_iff_not, List.mem_cons, List.not_mem_nil,
    or_false, not_or, Bool.or_eq_false_iff, ne_eq]
  tauto

theorem isBreak_delimiter (d : Dialect) : isBreak d.delimiter = false := by
  simp [isBreak, d.delimiter_inline]

theorem isBreak_quote (d : Dialect) : isBreak d.quote = false := by
  simp [isBreak, d.quote_inline]

/-- A character that ends no field goes on with one. -/
theorem step_inField (h : d.isSpecial c = false) (hstate : r.state = .inField) :
    r.step d c = r.add .inField c := by
  obtain ⟨hdelimiter, -, hbreak⟩ := isSpecial_eq_false_iff.mp h
  simp only [Reader.step, hstate, hbreak, if_neg hdelimiter, Bool.false_eq_true, if_false]

theorem run_plain (hplain : ∀ c ∈ text, d.isSpecial c = false) (hstate : r.state = .inField) :
    r.run d text = { r with field := text.reverse ++ r.field } := by
  induction text generalizing r with
  | nil => rfl
  | cons c text ih =>
      obtain ⟨hc, htext⟩ := List.forall_mem_cons.mp hplain
      rw [run_cons, step_inField hc hstate, ih htext rfl]
      simp [Reader.add, hstate]

/-- The text between the quotes. -/
theorem run_doubled (text : List Char) (hstate : r.state = .inQuoted) :
    r.run d (text.flatMap fun c => if c = d.quote then [c, c] else [c]) =
      { r with field := text.reverse ++ r.field } := by
  induction text generalizing r with
  | nil => rfl
  | cons c text ih =>
      have hstep : r.run d (if c = d.quote then [c, c] else [c]) = r.add .inQuoted c := by
        by_cases hc : c = d.quote
        · simp [hc, Reader.step, hstate, Reader.run, Reader.add]
        · simp [hc, Reader.step, hstate, Reader.run, Reader.add]
      rw [List.flatMap_cons, run_append, hstep, ih rfl]
      simp [Reader.add, hstate]

/-- A row or a field begins here. -/
def Reader.Begins (r : Reader) : Prop :=
  r.state = .startRecord ∨ r.state = .startField ∨ r.state = .afterReturn

theorem step_begins (hr : r.Begins) (hc : isBreak c = false) : r.step d c = r.start d c := by
  have hline : c ≠ '\n' := by
    rintro rfl
    exact absurd hc (by decide)
  rcases hr with hstate | hstate | hstate
  · simp [Reader.step, hstate, Reader.startRow, hc]
  · simp [Reader.step, hstate]
  · simp [Reader.step, hstate, Reader.startRow, hc, hline]

/-- The field that is open is complete with the next character. -/
def Reader.Ends (r : Reader) : Prop := r.state = .inField ∨ r.state = .quoteInQuoted

theorem run_quoted (hr : r.Begins) (hfield : r.field = []) (field : List Char) :
    r.run d (d.quoted field) = { r with state := .quoteInQuoted, field := field.reverse } := by
  have hopen : r.step d d.quote = { r with state := .inQuoted } := by
    rw [step_begins hr (isBreak_quote d), Reader.start, isBreak_quote d]
    simp
  rw [Dialect.quoted, run_cons, hopen, run_append, run_doubled field rfl, run_cons]
  simp [Reader.step, Reader.run, hfield]

/-- What is written of a field is read as the field, unless it is nothing. -/
theorem run_writeField (hr : r.Begins) (hfield : r.field = [])
    (hne : d.writeField alone field ≠ []) :
    ∃ state, (Reader.mk state [] [] []).Ends ∧
      r.run d (d.writeField alone field) = { r with state := state, field := field.reverse } := by
  rw [Dialect.writeField] at hne ⊢
  split_ifs at hne ⊢ with hquoted
  · exact ⟨.quoteInQuoted, Or.inr rfl, run_quoted hr hfield field⟩
  · rw [Bool.or_eq_true, not_or, Bool.not_eq_true, List.any_eq_false] at hquoted
    obtain ⟨c, tail, rfl⟩ := List.exists_cons_of_ne_nil hne
    have hplain : ∀ e ∈ c :: tail, d.isSpecial e = false := fun e he => by
      simpa using hquoted.1 e he
    obtain ⟨hc, htail⟩ := List.forall_mem_cons.mp hplain
    obtain ⟨hdelimiter, hquote, hbreak⟩ := isSpecial_eq_false_iff.mp hc
    have hstart : r.step d c = r.add .inField c := by
      rw [step_begins hr hbreak, Reader.start, if_neg (by simp [hbreak]), if_neg hquote,
        if_neg hdelimiter]
    refine ⟨.inField, Or.inl rfl, ?_⟩
    rw [run_cons, hstart, run_plain htail rfl]
    simp [Reader.add, hfield]

/-- The delimiter completes a field. -/
theorem run_delimiter (hr : r.Begins) (hfield : r.field = []) (field rest : List Char) :
    r.run d (d.writeField alone field ++ d.delimiter :: rest) =
      Reader.run d ⟨.startField, [], field :: r.fields, r.rows⟩ rest := by
  have hquote := d.delimiter_ne_quote
  have hbreak := isBreak_delimiter d
  rw [run_append, run_cons]
  apply congrArg (Reader.run d · rest)
  by_cases hne : d.writeField alone field = []
  · obtain rfl : field = [] := by
      rw [Dialect.writeField] at hne
      split_ifs at hne
      · cases hne
      · exact hne
    have hnone : r.run d (d.writeField alone []) = r := by rw [hne]; rfl
    rw [hnone, step_begins hr hbreak]
    simp [Reader.start, hbreak, hquote, Reader.save, hfield]
  · obtain ⟨state, hends, hrun⟩ := run_writeField hr hfield hne
    rw [hrun]
    rcases hends with rfl | rfl
    · simp [Reader.step, hbreak, Reader.save]
    · simp [Reader.step, hquote, Reader.save]

/-- A line break completes a field and its row. -/
theorem run_break (hr : r.Begins) (hfield : r.field = [])
    (hopen : r.state = .startField ∨ d.writeField alone field ≠ []) (rest : List Char) :
    r.run d (d.writeField alone field ++ '\r' :: '\n' :: rest) =
      Reader.run d ⟨.startRecord, [], [], (field :: r.fields).reverse :: r.rows⟩ rest := by
  have hreturn : '\r' ≠ d.quote ∧ '\r' ≠ d.delimiter :=
    ⟨d.quote_inline.1.symm, d.delimiter_inline.1.symm⟩
  have hbreak : isBreak '\r' = true := rfl
  have hnewline : ∀ fields rows, Reader.step d ⟨.afterReturn, [], fields, rows⟩ '\n' =
      ⟨.startRecord, [], fields, rows⟩ := fun _ _ => rfl
  rw [run_append, run_cons, run_cons]
  apply congrArg (Reader.run d · rest)
  by_cases hne : d.writeField alone field = []
  · have hstate := hopen.resolve_right fun h => h hne
    obtain rfl : field = [] := by
      rw [Dialect.writeField] at hne
      split_ifs at hne
      · cases hne
      · exact hne
    have hnone : r.run d (d.writeField alone []) = r := by rw [hne]; rfl
    rw [hnone]
    simp [Reader.step, hstate, Reader.start, hbreak, Reader.save, Reader.emit, hfield]
  · obtain ⟨state, hends, hrun⟩ := run_writeField hr hfield hne
    rw [hrun]
    rcases hends with rfl | rfl
    · simp [Reader.step, hbreak, Reader.save, Reader.emit]
    · simp [Reader.step, hbreak, hreturn, Reader.save, Reader.emit]

/-- A field and those after it, up to the end of the row. -/
theorem run_fields (hr : r.Begins) (hfield : r.field = [])
    (hopen : r.state = .startField ∨ alone = fields.isEmpty) (field rest : List Char) :
    r.run d (d.writeField alone field ++ (d.writeRest fields ++ rest)) =
      Reader.run d ⟨.startRecord, [], [], (r.fields.reverse ++ field :: fields) :: r.rows⟩
        rest := by
  induction fields generalizing r field alone with
  | nil =>
      have hwritten : r.state = .startField ∨ d.writeField alone field ≠ [] := by
        apply hopen.imp_right
        rintro rfl
        rw [Dialect.writeField]
        split_ifs with hquoted
        · exact List.cons_ne_nil _ _
        · rintro rfl
          exact hquoted rfl
      exact (run_break hr hfield hwritten rest).trans (by rw [List.reverse_cons])
  | cons next fields ih =>
      rw [Dialect.writeRest, List.cons_append, List.append_assoc, run_delimiter hr hfield,
        ih (Or.inr (Or.inl rfl)) rfl (Or.inl rfl)]
      simp

theorem run_writeRow (rows : List (List (List Char))) (row : List (List Char))
    (rest : List Char) :
    Reader.run d ⟨.startRecord, [], [], rows⟩ (d.writeRow row ++ rest) =
      Reader.run d ⟨.startRecord, [], [], row :: rows⟩ rest := by
  cases row with
  | nil => rfl
  | cons field fields =>
      rw [Dialect.writeRow, List.append_assoc]
      exact run_fields (Or.inl rfl) rfl (Or.inr rfl) field rest

/-- What is written is read back, row by row and field by field. -/
theorem read_write (d : Dialect) (rows : List (List (List Char))) :
    d.read (d.write rows) = rows := by
  have hrun : ∀ (rows read : List (List (List Char))),
      Reader.run d ⟨.startRecord, [], [], read⟩ (d.write rows) =
        ⟨.startRecord, [], [], rows.reverse ++ read⟩ := by
    intro rows
    induction rows with
    | nil => exact fun read => rfl
    | cons row rows ih =>
        intro read
        have hcons : d.write (row :: rows) = d.writeRow row ++ d.write rows := List.flatMap_cons
        rw [hcons, run_writeRow, ih]
        simp
  rw [Dialect.read, hrun, Reader.finish, if_pos (Or.inl rfl), List.append_nil, List.reverse_reverse]

end RoundTrip

end FastTAK.Csv
