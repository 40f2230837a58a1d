import Mathlib.Algebra.Order.Ring.Rat
import Mathlib.Order.Basic

/-!
# The health evaluator

Probe data against configured thresholds.  `none` stands for an exception: a status name
that does not exist, a comparison of a text with a number, a level that is no mapping.
-/

namespace FastTAK.Health

/-! ## Status levels -/

inductive Status where
  | ok
  | note
  | warning
  | critical
deriving DecidableEq

def Status.level : Status → ℕ
  | ok => 0
  | note => 1
  | warning => 2
  | critical => 3

theorem Status.level_injective : Function.Injective Status.level := by
  intro first second hlevel
  cases first <;> cases second <;> first | rfl | cases hlevel

instance : LinearOrder Status := LinearOrder.lift' Status.level Status.level_injective

theorem Status.ok_le (status : Status) : .ok ≤ status := Nat.zero_le status.level

theorem Status.le_critical (status : Status) : status ≤ .critical := by
  cases status <;> decide

def Status.name : Status → String
  | ok => "ok"
  | note => "note"
  | warning => "warning"
  | critical => "critical"

/-- `Status[name]`. -/
def Status.ofName (name : String) : Option Status :=
  [Status.ok, .note, .warning, .critical].find? (fun status => status.name = name)

theorem Status.ofName_name (status : Status) : Status.ofName status.name = some status := by
  cases status <;> rfl

/-! ## Data -/

/-- A value of a probe's answer or of the configuration.  A number keeps its spelling. -/
inductive Value where
  | null
  | bool (b : Bool)
  | num (value : ℚ) (text : String)
  | str (text : String)
deriving DecidableEq

namespace Value

/-- `str(value)`. -/
def spell : Value → String
  | null => "None"
  | bool true => "True"
  | bool false => "False"
  | num _ text => text
  | str text => text

def truthy : Value → Bool
  | null => false
  | bool b => b
  | num value _ => value ≠ 0
  | str text => text ≠ ""

/-- A value that can be compared with a number. -/
def number : Value → Option ℚ
  | bool b => some (if b then 1 else 0)
  | num value _ => some value
  | _ => none

/-- `Status[value]`. -/
def status : Value → Option Status
  | str name => Status.ofName name
  | _ => none

end Value

/-- A dictionary, in the order of its keys. -/
abbrev Fields := List (String × Value)

def Fields.has (fields : Fields) (key : String) : Bool := (fields.lookup key).isSome

/-- What a probe returns: an error, a list of items or a dictionary of values. -/
inductive Raw where
  | error (text : String)
  | items (rows : List Fields)
  | values (fields : Fields)
deriving DecidableEq

/-- The configuration of one threshold. -/
inductive Levels where
  | scalar (value : Value)
  | table (entries : Fields)
deriving DecidableEq

abbrev Thresholds := List (String × Levels)

structure ServiceConfig where
  thresholds : Option Thresholds
  alertMinLevel : Option String

structure Evaluated where
  status : Status
  message : Option String
  shouldAlert : Bool
deriving DecidableEq

/-! ## Thresholds -/

def isNumericThreshold (levels : Fields) : Bool :=
  levels.has "critical" && ((levels.lookup "warning").bind Value.number).isSome

/-- The direction is inferred: with `warning < critical`, higher is worse. -/
def checkNumeric (key : String) (value warning critical : Value) :
    Option (Status × Option String) := do
  if critical = .null then
    return (.ok, none)
  let w ← warning.number
  let c ← critical.number
  let v ← value.number
  let reason (level : Value) :=
    some s!"{key} is {value.spell} (threshold: {level.spell})"
  if (if w < c then c ≤ v else v ≤ c) then
    return (.critical, reason critical)
  if (if w < c then w ≤ v else v ≤ w) then
    return (.warning, reason warning)
  return (.ok, none)

def checkMapped (key : String) (value : Value) (levels : Fields) :
    Option (Status × Option String) := do
  let mapped := (levels.lookup value.spell.toLower).getD .null
  if mapped.truthy then
    let status ← mapped.status
    return (status, if .ok < status then some s!"{key} is {value.spell}" else none)
  return (.warning, some s!"{key} has unmapped value: {value.spell}")

def checkThreshold (key : String) (value : Value) :
    Levels → Option (Status × Option String)
  | .scalar _ => none
  | .table levels =>
      if isNumericThreshold levels then
        checkNumeric key value ((levels.lookup "warning").getD .null)
          ((levels.lookup "critical").getD .null)
      else
        checkMapped key value levels

/-- Keys among the thresholds that are no thresholds. -/
def isParameter (key : String) : Bool := key = "min_dead_tuples" || key = "error_status"

/-- One round of the loop over the thresholds. -/
def worseThreshold (label : Option String → Option String) (fields : Fields)
    (worst : Status × Option String) (entry : String × Levels) :
    Option (Status × Option String) :=
  if isParameter entry.1 then
    some worst
  else
    match fields.lookup entry.1 with
    | none => some worst
    | some value => do
        let (status, msg) ← checkThreshold entry.1 value entry.2
        return if worst.1 < status then (status, label msg) else worst

def worstThreshold (label : Option String → Option String) (thresholds : Thresholds)
    (fields : Fields) : Option (Status × Option String) :=
  thresholds.foldlM (worseThreshold label fields) (.ok, none)

/-! ## Items -/

/-- The first key of an item that names it. -/
def itemName (item : Fields) : String :=
  ((["name", "file", "mount", "table", "domain"].filterMap (fun key => item.lookup key)).find?
    Value.truthy).elim "" Value.spell

def errorStatus (thresholds : Thresholds) : Option Status :=
  match thresholds.lookup "error_status" with
  | none => some .warning
  | some (.scalar value) => value.status
  | some (.table _) => none

/-- The item carries an error that is not empty. -/
def reportsError (item : Fields) : Bool := ((item.lookup "error").getD .null).truthy

def labelled (name : String) (text : String) : String :=
  if name = "" then text else s!"{name}: {text}"

def itemStatus (item : Fields) (thresholds : Thresholds) :
    Option (Status × Option String) :=
  if reportsError item then do
    let status ← errorStatus thresholds
    return (status, some (labelled (itemName item) ((item.lookup "error").getD .null).spell))
  else
    worstThreshold (fun msg => some (labelled (itemName item) (msg.getD "None")))
      thresholds item

/-- The item falls under the filter for small tables. -/
def belowMinDead (thresholds : Thresholds) (item : Fields) : Option Bool :=
  match thresholds.lookup "min_dead_tuples" with
  | none | some (.scalar .null) => some false
  | some (.table _) => none
  | some (.scalar value) => do
      let minDead ← value.number
      let dead ← ((item.lookup "dead_tuples").getD (.num 0 "0")).number
      return dead < minDead

/-- The filter never applies to an item with an `error` key. -/
def isFiltered (thresholds : Thresholds) (item : Fields) : Option Bool :=
  if item.has "error" then some false else belowMinDead thresholds item

/-- One round of the loop over the items. -/
def worseItem (thresholds : Thresholds) (worst : Status × Option String) (item : Fields) :
    Option (Status × Option String) := do
  let skipped ← isFiltered thresholds item
  if skipped then
    return worst
  let (status, msg) ← itemStatus item thresholds
  return if worst.1 < status then (status, msg) else worst

def evaluateList (items : List Fields) (thresholds : Thresholds) :
    Option (Status × Option String) :=
  items.foldlM (worseItem thresholds) (.ok, none)

def evaluateSingle (data : Fields) (thresholds : Thresholds) :
    Option (Status × Option String) :=
  worstThreshold id thresholds data

/-! ## Containers -/

def stateMap (thresholds : Thresholds) (key : String) : Option Fields :=
  match thresholds.lookup key with
  | none => some []
  | some (.table entries) => some entries
  | some (.scalar _) => none

def defaultStatus (thresholds : Thresholds) : Value :=
  match thresholds.lookup "default_status" with
  | none => .str "warning"
  | some (.scalar value) => value
  | some (.table _) => .null

def worseContainer (health status : Fields) (fallback : Value)
    (worst : Status × Option String) (item : Fields) : Option (Status × Option String) := do
  let healthOf := ((item.lookup "health").getD (.str "unknown")).spell
  let statusOf := ((item.lookup "status").getD (.str "unknown")).spell
  let mapped :=
    if healthOf ≠ "unknown" ∧ health.has healthOf then (health.lookup healthOf).getD .null
    else (status.lookup statusOf).getD fallback
  let level ← mapped.status
  let name := ((item.lookup "name").getD (.str "")).spell
  return if worst.1 < level then
      (level, some s!"{name}: {healthOf}/{statusOf}")
    else worst

def evaluateContainers (items : List Fields) (thresholds : Thresholds) :
    Option (Status × Option String) := do
  let health ← stateMap thresholds "health"
  let status ← stateMap thresholds "status"
  items.foldlM (worseContainer health status (defaultStatus thresholds)) (.ok, none)

/-! ## A service -/

def ServiceConfig.levels (config : ServiceConfig) : Thresholds := config.thresholds.getD []

def ServiceConfig.minLevel (config : ServiceConfig) : Option Status :=
  Status.ofName (config.alertMinLevel.getD "warning")

/-- Thresholds with a map for health and one for the Docker status. -/
def mapsContainers (thresholds : Thresholds) : Bool :=
  (thresholds.lookup "health").isSome && (thresholds.lookup "status").isSome

def judge (data : Raw) (thresholds : Thresholds) : Option (Status × Option String) :=
  match data with
  | .items rows =>
      if mapsContainers thresholds then evaluateContainers rows thresholds
      else evaluateList rows thresholds
  | .values fields => evaluateSingle fields thresholds
  | .error text => evaluateSingle [("error", .str text)] thresholds

def evaluate (data : Raw) (config : ServiceConfig) : Option Evaluated := do
  let (status, msg) ← judge data config.levels
  let minLevel ← config.minLevel
  return ⟨status, msg.filter (· ≠ ""), minLevel ≤ status⟩

end FastTAK.Health
