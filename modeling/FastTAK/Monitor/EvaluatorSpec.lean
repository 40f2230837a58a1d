import FastTAK.Base.Fields
import FastTAK.Base.Loop
import FastTAK.Monitor.Evaluator

/-!
# What the evaluator does with a list of items

With a configuration of the shipped shape, items whose fields are texts and numbers are
evaluated without an exception, and an item that reports an error counts with the error
status of its service.
-/

namespace FastTAK.Health

/-! ## Evaluation of plain items -/

/-- The fields of the probes that hold texts. -/
def textKeys : List String :=
  ["mount", "path", "domain", "expires", "file", "subject", "category", "name", "current",
    "latest", "release_url", "error", "message"]

/-- All other fields of the item hold numbers. -/
def Plain (item : Fields) : Prop :=
  ∀ entry ∈ item, entry.1 ∈ textKeys ∨ entry.2.number.isSome

/-- A threshold that compares numbers or maps to status names. -/
def Levels.Usable (key : String) : Levels → Prop
  | .scalar _ => False
  | .table levels =>
      if isNumericThreshold levels then
        key ∉ textKeys ∧
          ((levels.lookup "critical").getD .null = .null ∨
            ((levels.lookup "critical").getD .null).number.isSome)
      else ∀ entry ∈ levels, entry.2.truthy → entry.2.status.isSome

/-- The filter for small tables is a number, if it is set. -/
def minDeadUsable (thresholds : Thresholds) : Prop :=
  match thresholds.lookup "min_dead_tuples" with
  | none | some (.scalar .null) => True
  | some (.scalar value) => value.number.isSome
  | some (.table _) => False

/-- A configuration of the shape that `thresholds.yml` has for these probes. -/
structure Usable (config : ServiceConfig) : Prop where
  levels : ∀ entry ∈ config.levels, isParameter entry.1 = false → entry.2.Usable entry.1
  errorStatus : (errorStatus config.levels).isSome
  minDead : minDeadUsable config.levels
  minLevel : config.minLevel.isSome
  noContainers : mapsContainers config.levels = false

/-- The value can be checked against the levels: a number against numbers, anything against
a mapping to status names. -/
def Levels.Accepts (value : Value) : Levels → Prop
  | .scalar _ => False
  | .table levels =>
      if isNumericThreshold levels then
        value.number.isSome ∧ ((levels.lookup "critical").getD .null = .null ∨
          ((levels.lookup "critical").getD .null).number.isSome)
      else ∀ entry ∈ levels, entry.2.truthy → entry.2.status.isSome

/-- No filter is set. -/
def Unfiltered (thresholds : Thresholds) : Prop :=
  thresholds.lookup "min_dead_tuples" = none ∨
    thresholds.lookup "min_dead_tuples" = some (.scalar .null)

/-- Every threshold accepts what the item has under its key, and so does the filter. -/
structure Evaluable (thresholds : Thresholds) (item : Fields) : Prop where
  accepts : ∀ entry ∈ thresholds, isParameter entry.1 = false →
    ∀ value ∈ item.lookup entry.1, entry.2.Accepts value
  dead : Unfiltered thresholds ∨
    ((item.lookup "dead_tuples").getD (.num 0 "0")).number.isSome

instance (value : Value) (levels : Levels) : Decidable (levels.Accepts value) :=
  match levels with
  | .scalar _ => inferInstanceAs (Decidable False)
  | .table levels => by
      unfold Levels.Accepts
      infer_instance

instance (key : String) (levels : Levels) : Decidable (levels.Usable key) :=
  match levels with
  | .scalar _ => inferInstanceAs (Decidable False)
  | .table levels => by
      unfold Levels.Usable
      infer_instance

/-! ## The shipped configuration -/

def numericLevels (warning critical : ℕ) : Levels :=
  .table [("warning", .num warning (toString warning)),
    ("critical", .num critical (toString critical))]

/-- True is a note, false is fine. -/
def notedLevels : Levels := .table [("true", .str "note"), ("false", .str "ok")]

def diskConfig : ServiceConfig := ⟨some [("percent", numericLevels 80 90)], some "warning"⟩

/-- The configuration of `tls` and of `certs`. -/
def expiryConfig : ServiceConfig := ⟨some [("days_left", numericLevels 30 7)], some "warning"⟩

def driftConfig : ServiceConfig := ⟨some [("changed", notedLevels)], some "note"⟩

def updatesConfig : ServiceConfig :=
  ⟨some [("update_available", notedLevels), ("error_status", .scalar (.str "note"))],
    some "note"⟩

theorem usable_diskConfig : Usable diskConfig :=
  ⟨by decide, by decide, trivial, by decide, by decide⟩

theorem usable_expiryConfig : Usable expiryConfig :=
  ⟨by decide, by decide, trivial, by decide, by decide⟩

theorem usable_driftConfig : Usable driftConfig :=
  ⟨by decide, by decide, trivial, by decide, by decide⟩

theorem usable_updatesConfig : Usable updatesConfig :=
  ⟨by decide, by decide, trivial, by decide, by decide⟩

/-! ## Exceptions -/

theorem checkNumeric_isSome {key : String} {value warning critical : Value}
    (hwarning : warning.number.isSome) (hvalue : value.number.isSome)
    (hcritical : critical = .null ∨ critical.number.isSome) :
    (checkNumeric key value warning critical).isSome := by
  obtain ⟨w, hw⟩ := Option.isSome_iff_exists.mp hwarning
  obtain ⟨v, hv⟩ := Option.isSome_iff_exists.mp hvalue
  unfold checkNumeric
  split_ifs with hnull
  · rfl
  · obtain ⟨c, hc⟩ := Option.isSome_iff_exists.mp (hcritical.resolve_left hnull)
    simp only [hw, hc, hv, Option.bind_eq_bind, Option.bind_some]
    split_ifs <;> rfl

theorem checkMapped_isSome {key : String} {value : Value} {levels : Fields}
    (hlevels : ∀ entry ∈ levels, entry.2.truthy → entry.2.status.isSome) :
    (checkMapped key value levels).isSome := by
  unfold checkMapped
  cases hmapped : levels.lookup value.spell.toLower with
  | none => rfl
  | some mapped =>
      cases htruthy : mapped.truthy with
      | false => simp [htruthy]
      | true =>
          obtain ⟨status, hstatus⟩ := Option.isSome_iff_exists.mp
            (hlevels _ (Fields.mem_of_lookup hmapped) htruthy)
          simp [htruthy, hstatus]

theorem isSome_warning {levels : Fields} (hnumeric : isNumericThreshold levels) :
    ((levels.lookup "warning").getD .null).number.isSome := by
  have hwarning : ((levels.lookup "warning").bind Value.number).isSome :=
    (Bool.and_eq_true_iff.mp hnumeric).2
  cases hlookup : levels.lookup "warning" with
  | none => simp [hlookup] at hwarning
  | some warning => simpa [hlookup] using hwarning

theorem checkThreshold_isSome {key : String} {value : Value} {levels : Levels}
    (haccepts : levels.Accepts value) : (checkThreshold key value levels).isSome := by
  cases levels with
  | scalar _ => exact haccepts.elim
  | table levels =>
      simp only [Levels.Accepts] at haccepts
      simp only [checkThreshold]
      split_ifs at haccepts ⊢ with hnumeric
      · exact checkNumeric_isSome (isSome_warning hnumeric) haccepts.1 haccepts.2
      · exact checkMapped_isSome haccepts

theorem belowMinDead_of_unfiltered {thresholds : Thresholds} (h : Unfiltered thresholds)
    (item : Fields) : belowMinDead thresholds item = some false := by
  unfold belowMinDead
  cases h with
  | inl hnone => rw [hnone]
  | inr hnull => rw [hnull]

section Items

variable {thresholds : Thresholds} {item : Fields} (hitem : Evaluable thresholds item)

include hitem

theorem worstThreshold_isSome {label : Option String → Option String} :
    (worstThreshold label thresholds item).isSome := by
  apply Loop.foldlM_isSome
  intro worst entry hentry
  unfold worseThreshold
  split_ifs with hparameter
  · rfl
  · cases hlookup : item.lookup entry.1 with
    | none => rfl
    | some value =>
        have hchecked : (checkThreshold entry.1 value entry.2).isSome :=
          checkThreshold_isSome
            (hitem.accepts entry hentry (by simpa using hparameter) value hlookup)
        obtain ⟨found, hfound⟩ := Option.isSome_iff_exists.mp hchecked
        simp [hfound]

theorem itemStatus_isSome (herror : (errorStatus thresholds).isSome) :
    (itemStatus item thresholds).isSome := by
  unfold itemStatus
  split_ifs
  · obtain ⟨status, hstatus⟩ := Option.isSome_iff_exists.mp herror
    simp [hstatus]
  · exact worstThreshold_isSome hitem

theorem belowMinDead_isSome (hmin : minDeadUsable thresholds) :
    (belowMinDead thresholds item).isSome := by
  cases hitem.dead with
  | inl hunfiltered => exact Option.isSome_of_eq_some (belowMinDead_of_unfiltered hunfiltered item)
  | inr hdead =>
      obtain ⟨dead, hdead⟩ := Option.isSome_iff_exists.mp hdead
      unfold minDeadUsable at hmin
      unfold belowMinDead
      split at hmin
      · next hlookup => simp [hlookup]
      · next hlookup => simp [hlookup]
      · next value hnull hlookup =>
          obtain ⟨min, hmin⟩ := Option.isSome_iff_exists.mp hmin
          cases value with
          | null => exact absurd rfl hnull
          | bool b => simp [hlookup, hmin, hdead]
          | num q text => simp [hlookup, hmin, hdead]
          | str text => simp [Value.number] at hmin
      · exact hmin.elim

theorem isFiltered_isSome (hmin : minDeadUsable thresholds) :
    (isFiltered thresholds item).isSome := by
  unfold isFiltered
  split_ifs
  · rfl
  · exact belowMinDead_isSome hitem hmin

end Items

section Usable

variable {config : ServiceConfig} (hconfig : Usable config)

include hconfig

/-- A usable configuration accepts plain items. -/
theorem Plain.evaluable {item : Fields} (hitem : Plain item) :
    Evaluable config.levels item where
  accepts := by
    intro entry hentry hparameter value hvalue
    have husable := hconfig.levels entry hentry hparameter
    cases hlevels : entry.2 with
    | scalar _ =>
        rw [hlevels] at husable
        exact husable
    | table levels =>
        rw [hlevels] at husable
        simp only [Levels.Usable] at husable
        simp only [Levels.Accepts]
        split_ifs at husable ⊢
        · have hnumber := (hitem _ (Fields.mem_of_lookup hvalue)).resolve_left husable.1
          exact ⟨hnumber, husable.2⟩
        · exact husable
  dead := by
    apply Or.inr
    cases hlookup : item.lookup "dead_tuples" with
    | none => rfl
    | some value =>
        exact (hitem _ (Fields.mem_of_lookup hlookup)).resolve_left
          (by decide : "dead_tuples" ∉ textKeys)

theorem worseItem_isSome (worst : Status × Option String) {item : Fields}
    (hitem : Plain item) : (worseItem config.levels worst item).isSome := by
  have heval := hitem.evaluable hconfig
  obtain ⟨found, hfound⟩ := Option.isSome_iff_exists.mp
    (itemStatus_isSome heval hconfig.errorStatus)
  obtain ⟨skipped, hskipped⟩ := Option.isSome_iff_exists.mp
    (isFiltered_isSome heval hconfig.minDead)
  unfold worseItem
  cases skipped <;> simp [hskipped, hfound]

/-- A list of plain items is evaluated. -/
theorem evaluateList_isSome {items : List Fields} (hitems : ∀ item ∈ items, Plain item) :
    (evaluateList items config.levels).isSome := by
  apply Loop.foldlM_isSome
  intro worst item hitem
  exact worseItem_isSome hconfig worst (hitems item hitem)

end Usable

/-! ## Errors raise the status -/

/-- An item that reports an error counts with the error status of its service. -/
theorem errorStatus_le_of_worseItem {thresholds : Thresholds} {item : Fields}
    (herror : reportsError item) {level : Status} (hlevel : errorStatus thresholds = some level)
    {worst worst' : Status × Option String}
    (hround : worseItem thresholds worst item = some worst') : level ≤ worst'.1 := by
  have hhas : item.has "error" = true := by
    unfold reportsError at herror
    unfold Fields.has
    cases hlookup : item.lookup "error" with
    | none => simp [hlookup, Value.truthy] at herror
    | some value => rfl
  simp only [worseItem, isFiltered, itemStatus, hhas, herror, hlevel, if_true, Option.bind_eq_bind,
    Option.bind_some, Bool.false_eq_true, if_false, Option.pure_def, Option.some.injEq]
    at hround
  subst hround
  split_ifs with hlt
  · exact le_refl _
  · exact not_lt.mp hlt

theorem le_of_worseItem {thresholds : Thresholds} {item : Fields}
    {worst worst' : Status × Option String}
    (hround : worseItem thresholds worst item = some worst') : worst.1 ≤ worst'.1 := by
  unfold worseItem at hround
  obtain ⟨skipped, _, hround⟩ := Option.bind_eq_some_iff.mp hround
  cases skipped with
  | true =>
      obtain rfl := Option.some.inj hround
      exact le_refl _
  | false =>
      obtain ⟨found, _, hround⟩ := Option.bind_eq_some_iff.mp hround
      obtain rfl := Option.some.inj hround
      split_ifs with hlt
      · exact hlt.le
      · exact le_refl _

theorem errorStatus_le_of_evaluateList {thresholds : Thresholds} {items : List Fields}
    {item : Fields} (hitem : item ∈ items) (herror : reportsError item) {level : Status}
    (hlevel : errorStatus thresholds = some level) {worst : Status × Option String}
    (hlist : evaluateList items thresholds = some worst) : level ≤ worst.1 := by
  have hgrows : ∀ (s : Status × Option String) (x : Fields) (s' : Status × Option String),
      worseItem thresholds s x = some s' → s.1 ≤ s'.1 := fun _ _ _ => le_of_worseItem
  exact Loop.bound_le_of_foldlM hgrows hlist hitem
    (fun _ _ => errorStatus_le_of_worseItem herror hlevel)

end FastTAK.Health
