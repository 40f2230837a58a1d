import FastTAK.Backup.Names
import FastTAK.Base.Csv
import FastTAK.Base.PyJson

/-!
# The event log

`GET /api/events` and its CSV export: a query whose conditions and parameters are put together side
by side, and the rows that it finds as text.
-/

namespace FastTAK.Events

open FastTAK.Backup FastTAK.Calendar FastTAK.PyJson

/-! ## Rows -/

/-- A time of the database, in UTC. -/
structure Timestamp where
  time : DateTime
  micro : ℕ
  micro_lt : micro < 1000000

def Timestamp.key (t : Timestamp) : ℕ := t.time.seconds * 1000000 + t.micro

/-- `isoformat()`. -/
def Timestamp.isoformat (t : Timestamp) : List Char :=
  digitsOf 4 t.time.year ++ '-' :: (digitsOf 2 t.time.month ++ '-' :: (digitsOf 2 t.time.day ++
    'T' :: (digitsOf 2 t.time.hour ++ ':' :: (digitsOf 2 t.time.minute ++
      ':' :: (digitsOf 2 t.time.second ++
        ((if t.micro = 0 then [] else '.' :: digitsOf 6 t.micro) ++ "+00:00".toList))))))

/-- A row of `fastak_events`. -/
structure EventRow where
  id : ℤ
  timestamp : Timestamp
  source : List Char
  actor : List Char
  action : List Char
  targetType : Option (List Char)
  targetId : Option (List Char)
  detail : Value
  ip : Option (List Char)
  agencyId : Option (List Char)

/-! ## The query -/

inductive Column
  | source
  | actor
  | action
  | targetType
  | targetId

def Column.sql : Column → List Char
  | source => "source".toList
  | actor => "actor".toList
  | action => "action".toList
  | targetType => "target_type".toList
  | targetId => "target_id".toList

def Column.read : Column → EventRow → Option (List Char)
  | source, row => some row.source
  | actor, row => some row.actor
  | action, row => some row.action
  | targetType, row => row.targetType
  | targetId, row => row.targetId

inductive Condition
  | equals (column : Column)
  | since
  | till

def Condition.sql : Condition → List Char
  | equals column => column.sql ++ " = %s".toList
  | since => "timestamp >= %s".toList
  | till => "timestamp <= %s".toList

inductive Param
  | text (text : List Char)
  | time (time : Timestamp)
  | count (n : ℕ)

structure Filters where
  source : Option (List Char)
  actor : Option (List Char)
  action : Option (List Char)
  targetType : Option (List Char)
  targetId : Option (List Char)
  since : Option Timestamp
  till : Option Timestamp

def Filters.column (f : Filters) : Column → Option (List Char)
  | .source => f.source
  | .actor => f.actor
  | .action => f.action
  | .targetType => f.targetType
  | .targetId => f.targetId

/-- What `if source:` and the others append. -/
def Filters.equal (f : Filters) (column : Column) : List (Condition × Param) :=
  match f.column column with
  | some (c :: text) => [(.equals column, .text (c :: text))]
  | _ => []

def Filters.bound (condition : Condition) (time : Option Timestamp) : List (Condition × Param) :=
  (time.map fun time => (condition, Param.time time)).toList

/-- `where` and the parameters for it. -/
def Filters.appended (f : Filters) : List (Condition × Param) :=
  f.equal .source ++ (f.equal .actor ++ (f.equal .action ++ (f.equal .targetType ++
    (f.equal .targetId ++ (Filters.bound .since f.since ++ Filters.bound .till f.till)))))

def selectFrom : List Char :=
  "SELECT id, timestamp, source, actor, action, target_type, target_id, ".toList ++
    "detail, ip::text AS ip, agency_id FROM fastak_events".toList

def orderLimit : List Char := " ORDER BY timestamp DESC LIMIT %s".toList

def joinConditions : List Condition → List Char
  | [] => []
  | [condition] => condition.sql
  | condition :: conditions => condition.sql ++ (" AND ".toList ++ joinConditions conditions)

def whereSql (conditions : List Condition) : List Char :=
  if conditions = [] then [] else " WHERE ".toList ++ joinConditions conditions

/-- `_build_query`. -/
def buildQuery (f : Filters) (limit : ℕ) : List Char × List Param :=
  (selectFrom ++ (whereSql (f.appended.map Prod.fst) ++ orderLimit),
    f.appended.map Prod.snd ++ [.count limit])

/-! ## The database -/

def columns : List Column := [.source, .actor, .action, .targetType, .targetId]

def conditionTexts : List Condition := columns.map .equals ++ [.since, .till]

/-- A condition at the beginning of a text, and what follows it. -/
def readCondition (text : List Char) : Option (Condition × List Char) :=
  (conditionTexts.find? fun condition => condition.sql <+: text).map fun condition =>
    (condition, text.drop condition.sql.length)

/-- Conditions joined by `AND`. -/
def readConditions : ℕ → List Char → Option (List Condition × List Char)
  | 0, _ => none
  | n + 1, text =>
      (readCondition text).bind fun first =>
        if " AND ".toList <+: first.2 then
          (readConditions n (first.2.drop 5)).map fun others => (first.1 :: others.1, others.2)
        else some ([first.1], first.2)

/-- The conditions of what follows the table. -/
def readWhere (rest : List Char) : Option (List Condition) :=
  if " WHERE ".toList <+: rest then
    (readConditions rest.length (rest.drop 7)).bind fun found =>
      if found.2 = orderLimit then some found.1 else none
  else if rest = orderLimit then some []
  else none

/-- The conditions of a statement. -/
def readQuery (sql : List Char) : Option (List Condition) :=
  if selectFrom <+: sql then readWhere (sql.drop selectFrom.length) else none

/-- A condition with the parameter for its placeholder. -/
def Condition.holds (row : EventRow) : Condition → Param → Option Bool
  | equals column, .text text => some (column.read row = some text)
  | since, .time time => some (time.key ≤ row.timestamp.key)
  | till, .time time => some (row.timestamp.key ≤ time.key)
  | _, _ => none

/-- The conditions take the parameters in turn. -/
def allHold (row : EventRow) : List Condition → List Param → Option Bool
  | [], [] => some true
  | condition :: conditions, param :: params => do
      return (← condition.holds row param) && (← allHold row conditions params)
  | _, _ => none

/-- `ORDER BY timestamp DESC`. -/
def newestFirst (rows : List EventRow) : List EventRow :=
  rows.insertionSort fun a b => b.timestamp.key ≤ a.timestamp.key

/-- The rows for which something holds, if that can be said of all. -/
def select (holds : EventRow → Option Bool) : List EventRow → Option (List EventRow)
  | [] => some []
  | row :: rows => do
      let found ← holds row
      let others ← select holds rows
      return if found then row :: others else others

/-- The answer of the database, if it takes the statement with these parameters. -/
def fetch (table : List EventRow) (query : List Char × List Param) : Option (List EventRow) := do
  let conditions ← readQuery query.1
  let .count limit ← query.2.getLast? | none
  let rows ← select (fun row => allHold row conditions query.2.dropLast) table
  return (newestFirst rows).take limit

/-! ## The endpoints -/

/-- `list_events`: `count` and `events`. -/
def listEvents (table : List EventRow) (f : Filters) (limit : ℕ) :
    Option (ℕ × List EventRow) :=
  (fetch table (buildQuery f limit)).map fun rows => (rows.length, rows)

def hexDigits (u : ℕ) : List Char :=
  [u / 4096 % 16, u / 256 % 16, u / 16 % 16, u % 16].map Nat.digitChar

/-- A code unit in a string of `json.dumps`. -/
def escapeUnit (u : ℕ) : List Char :=
  if u = 0x22 then ['\\', '"']
  else if u = 0x5c then ['\\', '\\']
  else if u = 0x0a then ['\\', 'n']
  else if u = 0x0d then ['\\', 'r']
  else if u = 0x09 then ['\\', 't']
  else if u = 0x0c then ['\\', 'f']
  else if u = 0x08 then ['\\', 'b']
  else if 0x20 ≤ u ∧ u ≤ 0x7e then [Char.ofNat u]
  else '\\' :: 'u' :: hexDigits u

def dumpsString (s : Str) : List Char := '"' :: ((units s).flatMap escapeUnit ++ ['"'])

mutual

/-- `json.dumps(detail, separators=(",", ":"))`, where a float is written by `repr`. -/
def dumpsCompact (repr : PyFloat → List Char) : Value → List Char
  | .null => "null".toList
  | .bool b => if b then "true".toList else "false".toList
  | .int n => (toString n).toList
  | .float f => repr f
  | .str s => dumpsString s
  | .list items => '[' :: (dumpsItems repr items ++ [']'])
  | .dict fields => '\x7b' :: (dumpsFields repr fields ++ ['\x7d'])

def dumpsItems (repr : PyFloat → List Char) : List Value → List Char
  | [] => []
  | item :: items =>
      dumpsCompact repr item ++ ((if items.isEmpty then [] else [',']) ++ dumpsItems repr items)

def dumpsFields (repr : PyFloat → List Char) : List (Str × Value) → List Char
  | [] => []
  | (key, value) :: fields =>
      dumpsString key ++ ':' :: (dumpsCompact repr value ++
        ((if fields.isEmpty then [] else [',']) ++ dumpsFields repr fields))

end

/-- `_flatten_detail`. -/
def flattenDetail (repr : PyFloat → List Char) : Value → List Char
  | .null => []
  | detail => dumpsCompact repr detail

def header : List (List Char) :=
  ["id", "timestamp", "source", "actor", "action", "target_type", "target_id", "detail", "ip",
    "agency_id"].map String.toList

/-- The cells of a row. -/
def cells (repr : PyFloat → List Char) (row : EventRow) : List (List Char) :=
  [(toString row.id).toList, row.timestamp.isoformat, row.source, row.actor, row.action,
    row.targetType.getD [], row.targetId.getD [], flattenDetail repr row.detail, row.ip.getD [],
    row.agencyId.getD []]

/-- `export_csv`. -/
def exportCsv (repr : PyFloat → List Char) (table : List EventRow) (f : Filters) (limit : ℕ) :
    Option (List Char) :=
  (fetch table (buildQuery f limit)).map fun rows =>
    Csv.excel.write (header :: rows.map (cells repr))

/-! ## What should be found -/

/-- A row has the texts that the filters give and a time between their bounds.  An empty text is
no filter. -/
def Filters.matches (f : Filters) (row : EventRow) : Bool :=
  (columns.all fun column =>
    (f.column column).all fun text => text = [] || column.read row = some text) &&
    f.since.all (fun time => time.key ≤ row.timestamp.key) &&
    f.till.all fun time => row.timestamp.key ≤ time.key

/-- The newest of some rows, the newest first. -/
structure Newest (limit : ℕ) (rows newest : List EventRow) : Prop where
  ordered : newest.Pairwise fun a b => b.timestamp.key ≤ a.timestamp.key
  cut : ∃ older, (newest ++ older).Perm rows ∧
    ∀ a ∈ newest, ∀ b ∈ older, b.timestamp.key ≤ a.timestamp.key
  length : newest.length = min limit rows.length

section Query

variable {f : Filters} {limit : ℕ} {conditions : List Condition} {condition : Condition}
  {rest : List Char} {table : List EventRow} {row : EventRow} {pairs : List (Condition × Param)}
  {holds : EventRow → Option Bool} {p : EventRow → Bool}

/-- A condition is read back, whatever follows it. -/
theorem readCondition_sql (condition : Condition) (rest : List Char) :
    readCondition (condition.sql ++ rest) = some (condition, rest) := by
  cases condition with
  | equals column => cases column <;> rfl
  | since => rfl
  | till => rfl

theorem joinConditions_cons (condition next : Condition) (conditions : List Condition) :
    joinConditions (condition :: next :: conditions) =
      condition.sql ++ (" AND ".toList ++ joinConditions (next :: conditions)) := rfl

theorem readConditions_join (hne : conditions ≠ []) {n : ℕ} (hn : conditions.length ≤ n) :
    readConditions n (joinConditions conditions ++ orderLimit) = some (conditions, orderLimit) := by
  induction conditions generalizing n with
  | nil => exact absurd rfl hne
  | cons condition conditions ih =>
      obtain ⟨n, rfl⟩ : ∃ m, n = m + 1 := ⟨n - 1, by rw [List.length_cons] at hn; omega⟩
      have hlast : ¬" AND ".toList <+: orderLimit := by decide
      cases conditions with
      | nil =>
          rw [joinConditions, readConditions, readCondition_sql, Option.bind_some]
          exact if_neg hlast
      | cons next conditions =>
          have hnext := ih (List.cons_ne_nil _ _) (Nat.le_of_succ_le_succ hn)
          have hdrop : ∀ rest, (" AND ".toList ++ rest).drop 5 = rest := fun rest => rfl
          rw [joinConditions_cons, readConditions, List.append_assoc, readCondition_sql,
            Option.bind_some, List.append_assoc]
          apply (if_pos (List.prefix_append _ _)).trans
          rw [hdrop, hnext]
          rfl

theorem length_le_join (conditions : List Condition) :
    conditions.length ≤ (joinConditions conditions).length := by
  have hsql : ∀ condition : Condition, 0 < condition.sql.length := by
    intro condition
    cases condition with
    | equals column => cases column <;> decide
    | since => decide
    | till => decide
  induction conditions with
  | nil => exact Nat.zero_le _
  | cons condition conditions ih =>
      have hpos := hsql condition
      cases conditions with
      | nil =>
          rw [joinConditions, List.length_singleton]
          exact hpos
      | cons next conditions =>
          rw [joinConditions_cons, List.length_append, List.length_append, List.length_cons]
          omega

theorem readWhere_where (rest : List Char) : readWhere (" WHERE ".toList ++ rest) =
    (readConditions (rest.length + 7) rest).bind fun found =>
      if found.2 = orderLimit then some found.1 else none := by
  have hlength : (" WHERE ".toList ++ rest).length = rest.length + 7 := rfl
  rw [← hlength]
  exact if_pos (List.prefix_append _ _)

theorem readWhere_conditions (conditions : List Condition) :
    readWhere (whereSql conditions ++ orderLimit) = some conditions := by
  by_cases hnone : conditions = []
  · rw [hnone, whereSql, if_pos rfl, List.nil_append]
    exact (if_neg (by decide)).trans (if_pos rfl)
  · have hlength := length_le_join conditions
    rw [whereSql, if_neg hnone, List.append_assoc, readWhere_where, readConditions_join hnone,
      Option.bind_some, if_pos rfl]
    rw [List.length_append]
    omega

/-- The statement has the conditions that were appended. -/
theorem readQuery_buildQuery (f : Filters) (limit : ℕ) :
    readQuery (buildQuery f limit).1 = some (f.appended.map Prod.fst) := by
  rw [buildQuery, readQuery, if_pos (List.prefix_append _ _), List.drop_left, readWhere_conditions]

/-- What a pair of a condition and its parameter says of a row. -/
def pairHolds (row : EventRow) (pair : Condition × Param) : Bool :=
  (pair.1.holds row pair.2).getD false

theorem allHold_pairs (h : ∀ pair ∈ pairs, (pair.1.holds row pair.2).isSome) :
    allHold row (pairs.map Prod.fst) (pairs.map Prod.snd) = some (pairs.all (pairHolds row)) := by
  induction pairs with
  | nil => rfl
  | cons pair pairs ih =>
      obtain ⟨hpair, hpairs⟩ := List.forall_mem_cons.mp h
      obtain ⟨found, hfound⟩ := Option.isSome_iff_exists.mp hpair
      rw [List.map_cons, List.map_cons, allHold, ih hpairs, hfound, List.all_cons, pairHolds,
        hfound]
      rfl

theorem equal_all (f : Filters) (column : Column) (row : EventRow) :
    (∀ pair ∈ f.equal column, (pair.1.holds row pair.2).isSome) ∧
      (f.equal column).all (pairHolds row) =
        (f.column column).all fun text => text = [] || column.read row = some text := by
  rw [Filters.equal]
  cases f.column column with
  | none => simp
  | some text =>
      cases text with
      | nil => simp
      | cons c text => simp [pairHolds, Condition.holds]

theorem bound_all (row : EventRow) (condition : Condition) (time : Option Timestamp)
    (holds : Timestamp → Bool)
    (h : ∀ time, condition.holds row (.time time) = some (holds time)) :
    (∀ pair ∈ Filters.bound condition time, (pair.1.holds row pair.2).isSome) ∧
      (Filters.bound condition time).all (pairHolds row) = time.all holds := by
  cases time with
  | none => simp [Filters.bound]
  | some time => simp [Filters.bound, pairHolds, h]

theorem columns_all (p : Column → Bool) : columns.all p =
    (p .source && (p .actor && (p .action && (p .targetType && p .targetId)))) := by
  simp only [columns, List.all_cons, List.all_nil, Bool.and_true]

theorem matches_eq (f : Filters) (row : EventRow) :
    (∀ pair ∈ f.appended, (pair.1.holds row pair.2).isSome) ∧
      f.appended.all (pairHolds row) = f.matches row := by
  have hequal := fun column => equal_all f column row
  have hsince := bound_all row .since f.since (fun time => time.key ≤ row.timestamp.key)
    fun time => rfl
  have htill := bound_all row .till f.till (fun time => row.timestamp.key ≤ time.key)
    fun time => rfl
  constructor
  · simp only [Filters.appended, List.forall_mem_append]
    exact ⟨(hequal _).1, (hequal _).1, (hequal _).1, (hequal _).1, (hequal _).1, hsince.1, htill.1⟩
  · rw [Filters.appended, Filters.matches, columns_all]
    simp only [List.all_append, (hequal _).2, hsince.2, htill.2, Bool.and_assoc]

theorem select_eq (h : ∀ row, holds row = some (p row)) (table : List EventRow) :
    select holds table = some (table.filter p) := by
  induction table with
  | nil => rfl
  | cons row table ih =>
      rw [select, h row, ih, List.filter_cons]
      rfl

theorem fetch_eq {query : List Char × List Param} (hread : readQuery query.1 = some conditions)
    (hlast : query.2.getLast? = some (.count limit))
    (hholds : ∀ row, allHold row conditions query.2.dropLast = some (p row)) :
    fetch table query = some ((newestFirst (table.filter p)).take limit) := by
  rw [fetch, hread, hlast]
  simp only [Option.bind_eq_bind, Option.bind_some, select_eq hholds]
  rfl

/-- The parameters meet their conditions: what comes back are the first of the rows that match,
with the newest first. -/
theorem fetch_buildQuery (table : List EventRow) (f : Filters) (limit : ℕ) :
    fetch table (buildQuery f limit) =
      some ((newestFirst (table.filter f.matches)).take limit) := by
  apply fetch_eq (readQuery_buildQuery f limit) List.getLast?_concat
  intro row
  have hparams : (buildQuery f limit).2.dropLast = f.appended.map Prod.snd := List.dropLast_concat
  rw [hparams, allHold_pairs (matches_eq f row).1, (matches_eq f row).2]

theorem newestFirst_newest (rows : List EventRow) (limit : ℕ) :
    Newest limit rows ((newestFirst rows).take limit) := by
  have hsplit := List.take_append_drop limit (newestFirst rows)
  have hperm : (newestFirst rows).Perm rows := List.perm_insertionSort _ rows
  have hsorted : (newestFirst rows).Pairwise fun a b => b.timestamp.key ≤ a.timestamp.key :=
    List.pairwise_insertionSort _ rows
  rw [← hsplit, List.pairwise_append] at hsorted
  rw [← hsplit] at hperm
  constructor
  · exact hsorted.1
  · exact ⟨_, hperm, hsorted.2.2⟩
  · rw [List.length_take, newestFirst, List.length_insertionSort]

/-- `/api/events` answers with the newest of the matching events, and `/api/events.csv` with a text
whose rows are the cells of the same events. -/
theorem listEvents_exportCsv (table : List EventRow) (f : Filters) (limit : ℕ) :
    ∃ events, Newest limit (table.filter f.matches) events ∧
      listEvents table f limit = some (events.length, events) ∧
      ∀ repr, (exportCsv repr table f limit).map Csv.excel.read =
        some (header :: events.map (cells repr)) := by
  have hfetch := fetch_buildQuery table f limit
  refine ⟨_, newestFirst_newest _ limit, ?_, fun repr => ?_⟩
  · rw [listEvents, hfetch, Option.map_some]
  · rw [exportCsv, hfetch, Option.map_some, Option.map_some, Csv.read_write]

end Query

end FastTAK.Events
