import FastTAK.Monitor.Evaluator
import FastTAK.Monitor.Overrides

/-!
# The direction of a numeric threshold

The evaluator reads from the two levels of a threshold whether higher values are worse.  Equal
levels read as a threshold for which lower values are worse.
-/

namespace FastTAK.Health

open FastTAK.Overrides FastTAK.PyJson

/-! ## Levels on a scale -/

section Severity

variable {α : Type} [LinearOrder α] {warning critical value value' : α}

/-- The status of a value on a linear scale. -/
def severity (warning critical value : α) : Status :=
  if warning < critical then
    if critical ≤ value then .critical else if warning ≤ value then .warning else .ok
  else if value ≤ critical then .critical else if value ≤ warning then .warning else .ok

/-- With the warning below the critical level, higher values are worse. -/
theorem severity_mono (hlevels : warning < critical) (hvalue : value ≤ value') :
    severity warning critical value ≤ severity warning critical value' := by
  simp only [severity, if_pos hlevels]
  split_ifs with hcritical hcritical' hwarning' hwarning hcritical' hwarning'
  · exact le_refl _
  · exact absurd (hcritical.trans hvalue) hcritical'
  · exact absurd (hcritical.trans hvalue) hcritical'
  · exact Status.le_critical _
  · exact le_refl _
  · exact absurd (hwarning.trans hvalue) hwarning'
  · exact Status.ok_le _
  · exact Status.ok_le _
  · exact Status.ok_le _

/-- Otherwise lower values are worse. -/
theorem severity_anti (hlevels : critical ≤ warning) (hvalue : value ≤ value') :
    severity warning critical value' ≤ severity warning critical value := by
  simp only [severity, if_neg (not_lt.mpr hlevels)]
  split_ifs with hcritical hcritical' hwarning' hwarning hcritical' hwarning'
  · exact le_refl _
  · exact absurd (hvalue.trans hcritical) hcritical'
  · exact absurd (hvalue.trans hcritical) hcritical'
  · exact Status.le_critical _
  · exact le_refl _
  · exact absurd (hvalue.trans hwarning) hwarning'
  · exact Status.ok_le _
  · exact Status.ok_le _
  · exact Status.ok_le _

end Severity

/-! ## Numbers -/

/-- A number of Python. -/
inductive Number where
  | int (n : ℤ)
  | float (x : PyFloat)
deriving DecidableEq

namespace Number

/-- Where the number is on the line; `nan` is nowhere. -/
def place : Number → Option (WithBot (WithTop ℚ))
  | int n => some ((n : ℚ) : WithTop ℚ)
  | float (.finite q) => some (q : WithTop ℚ)
  | float (.infinity negative) => some (if negative then ⊥ else ((⊤ : WithTop ℚ)))
  | float .nan => none

/-- `a < b`. -/
def lt (a b : Number) : Bool :=
  match a.place, b.place with
  | some p, some q => p < q
  | _, _ => false

/-- `a <= b`. -/
def le (a b : Number) : Bool :=
  match a.place, b.place with
  | some p, some q => p ≤ q
  | _, _ => false

theorem le_iff {a b : Number} : a.le b ↔ ∃ p q, a.place = some p ∧ b.place = some q ∧ p ≤ q := by
  unfold le
  cases a.place <;> cases b.place <;> simp

theorem lt_iff {a b : Number} : a.lt b ↔ ∃ p q, a.place = some p ∧ b.place = some q ∧ p < q := by
  unfold lt
  cases a.place <;> cases b.place <;> simp

end Number

/-- The numeric part of `_check_threshold`. -/
def checkNumbers (warning critical value : Number) : Status :=
  if warning.lt critical then
    if critical.le value then .critical
    else if warning.le value then .warning
    else .ok
  else
    if value.le critical then .critical
    else if value.le warning then .warning
    else .ok

/-- On numbers that are on the line the levels are on a scale. -/
theorem checkNumbers_eq_severity {warning critical value : Number}
    {w c v : WithBot (WithTop ℚ)} (hw : warning.place = some w) (hc : critical.place = some c)
    (hv : value.place = some v) : checkNumbers warning critical value = severity w c v := by
  simp only [checkNumbers, severity, Number.lt, Number.le, hw, hc, hv, decide_eq_true_eq]

/-- What `severity` says does not depend on the scale. -/
theorem severity_coe (warning critical value : ℚ) :
    severity (((warning : ℚ) : WithTop ℚ) : WithBot (WithTop ℚ)) ((critical : WithTop ℚ))
      ((value : WithTop ℚ)) = severity warning critical value := by
  simp only [severity, WithBot.coe_lt_coe, WithTop.coe_lt_coe, WithBot.coe_le_coe,
    WithTop.coe_le_coe]

/-- The evaluator on finite numbers. -/
theorem checkThreshold_of_rationals (key valueText warningText criticalText : String)
    (value warning critical : ℚ) :
    (checkThreshold key (.num value valueText)
        (.table [("warning", .num warning warningText),
          ("critical", .num critical criticalText)])).map Prod.fst =
      some (severity warning critical value) := by
  have hnumeric : (checkNumeric key (.num value valueText) (.num warning warningText)
      (.num critical criticalText)).map Prod.fst = some (severity warning critical value) := by
    simp only [checkNumeric, Value.number, reduceCtorEq, if_false, Option.bind_eq_bind,
      Option.bind_some, severity]
    split_ifs <;> rfl
  rw [← hnumeric]
  rfl

theorem checkThreshold_of_numbers (key valueText warningText criticalText : String)
    (value warning critical : ℚ) :
    (checkThreshold key (.num value valueText)
        (.table [("warning", .num warning warningText),
          ("critical", .num critical criticalText)])).map Prod.fst =
      some (checkNumbers (.float (.finite warning)) (.float (.finite critical))
        (.float (.finite value))) := by
  have hplaces : checkNumbers (.float (.finite warning)) (.float (.finite critical))
      (.float (.finite value)) = severity warning critical value := by
    rw [← severity_coe]
    exact checkNumbers_eq_severity rfl rfl rfl
  rw [checkThreshold_of_rationals, hplaces]

/-! ## Metrics -/

/-- The numeric metrics of the shipped configuration. -/
inductive Metric where
  | sizeBytes
  | deadPct
  | percent
  | certDaysLeft
  | tlsDaysLeft
deriving DecidableEq

namespace Metric

/-- The service and the key of its threshold. -/
def keys : Metric → String × String
  | sizeBytes => ("database", "size_bytes")
  | deadPct => ("autovacuum", "dead_pct")
  | percent => ("disk", "percent")
  | certDaysLeft => ("certs", "days_left")
  | tlsDaysLeft => ("tls", "days_left")

def higherIsWorse : Metric → Bool
  | sizeBytes | deadPct | percent => true
  | certDaysLeft | tlsDaysLeft => false

/-- The levels are in the order that the metric asks for. -/
def Ordered (metric : Metric) (warning critical : Number) : Prop :=
  if metric.higherIsWorse then warning.le critical else critical.le warning

/-- The first value is at least as healthy as the second. -/
def AtLeast (metric : Metric) (value other : Number) : Prop :=
  if metric.higherIsWorse then value.le other else other.le value

/-- The value is strictly healthier than a level. -/
def Above (metric : Metric) (value level : Number) : Prop :=
  if metric.higherIsWorse then value.lt level else level.lt value

instance (metric : Metric) (warning critical : Number) :
    Decidable (metric.Ordered warning critical) := by
  unfold Ordered
  infer_instance

instance (metric : Metric) (value other : Number) : Decidable (metric.AtLeast value other) := by
  unfold AtLeast
  infer_instance

/-- What is healthier is never worse, and what is healthier than both levels is fine. -/
def Monotone (metric : Metric) (warning critical : Number) : Prop :=
  (∀ value other, metric.AtLeast value other →
    checkNumbers warning critical value ≤ checkNumbers warning critical other) ∧
  ∀ value, metric.Above value warning → metric.Above value critical →
    checkNumbers warning critical value = .ok

end Metric

/-- The number at a node. -/
def levelNumber : Node → Option Number
  | .int n => some (.int n)
  | .float x => some (.float x)
  | _ => none

/-- The levels of the metric in a configuration. -/
def levelPair (config : Config) (metric : Metric) : Option (Number × Number) := do
  let level (name : String) := nodeAt
    ([metric.keys.1, "thresholds", metric.keys.2, name].map str) (.dict config)
  let warning ← (level "warning").bind levelNumber
  let critical ← (level "critical").bind levelNumber
  return (warning, critical)

/-! ## Healthier is never worse -/

section Monotone

variable {metric : Metric} {warning critical : Number}

/-- A value that is nowhere on the line is fine. -/
theorem checkNumbers_of_nowhere {value : Number} (hvalue : value.place = none) :
    checkNumbers warning critical value = .ok := by
  have hle : ∀ level : Number, level.le value = false ∧ value.le level = false := by
    intro level
    unfold Number.le
    rw [hvalue]
    cases level.place <;> exact ⟨rfl, rfl⟩
  simp [checkNumbers, hle]

theorem monotone_of_higher (hmetric : metric.higherIsWorse) (hlevels : warning.lt critical) :
    metric.Monotone warning critical := by
  obtain ⟨w, c, hw, hc, hless⟩ := Number.lt_iff.mp hlevels
  unfold Metric.Monotone Metric.AtLeast Metric.Above
  simp only [hmetric, if_true]
  constructor
  · intro value other hhealthy
    obtain ⟨v, o, hv, ho, hle⟩ := Number.le_iff.mp hhealthy
    rw [checkNumbers_eq_severity hw hc hv, checkNumbers_eq_severity hw hc ho]
    exact severity_mono hless hle
  · intro value hwarning hcritical
    obtain ⟨v, w', hv, hw', hbelow⟩ := Number.lt_iff.mp hwarning
    obtain rfl : w = w' := Option.some.inj (hw.symm.trans hw')
    rw [checkNumbers_eq_severity hw hc hv, severity, if_pos hless,
      if_neg (not_le.mpr (hbelow.trans hless)), if_neg (not_le.mpr hbelow)]

theorem monotone_of_lower (hmetric : metric.higherIsWorse = false)
    (hlevels : critical.le warning) : metric.Monotone warning critical := by
  obtain ⟨c, w, hc, hw, hle⟩ := Number.le_iff.mp hlevels
  unfold Metric.Monotone Metric.AtLeast Metric.Above
  simp only [hmetric, Bool.false_eq_true, if_false]
  constructor
  · intro value other hhealthy
    obtain ⟨o, v, ho, hv, hvalues⟩ := Number.le_iff.mp hhealthy
    rw [checkNumbers_eq_severity hw hc hv, checkNumbers_eq_severity hw hc ho]
    exact severity_anti hle hvalues
  · intro value hwarning hcritical
    obtain ⟨w', v, hw', hv, habove⟩ := Number.lt_iff.mp hwarning
    obtain rfl : w = w' := Option.some.inj (hw.symm.trans hw')
    rw [checkNumbers_eq_severity hw hc hv, severity, if_neg (not_lt.mpr hle),
      if_neg (not_le.mpr (hle.trans_lt habove)), if_neg (not_le.mpr habove)]

/-- With equal levels a metric for which higher values are worse reads the other way. -/
theorem not_monotone_of_equal (hmetric : metric.higherIsWorse) {w : WithBot (WithTop ℚ)}
    (hw : warning.place = some w) (hc : critical.place = some w) :
    ¬ metric.Monotone warning critical := by
  intro hmonotone
  unfold Metric.Monotone Metric.AtLeast Metric.Above at hmonotone
  simp only [hmetric, if_true] at hmonotone
  have htop : (Number.float (.infinity false)).place = some ⊤ := rfl
  by_cases hmost : w = ⊤
  · -- everything is at most infinite: the least value is critical
    have hbottom : (Number.float (.infinity true)).place = some ⊥ := rfl
    have hbelow : ∀ level : Number, level.place = some w →
        (Number.float (.infinity true)).lt level := by
      intro level hlevel
      apply Number.lt_iff.mpr
      exact ⟨⊥, w, hbottom, hlevel, hmost ▸ bot_lt_top⟩
    have hok := hmonotone.2 _ (hbelow warning hw) (hbelow critical hc)
    rw [checkNumbers_eq_severity hw hc hbottom, severity, if_neg (lt_irrefl w),
      if_pos bot_le] at hok
    cases hok
  · have hbelow : w < ⊤ := lt_top_iff_ne_top.mpr hmost
    have hhealthy : warning.le (.float (.infinity false)) :=
      Number.le_iff.mpr ⟨w, ⊤, hw, htop, le_top⟩
    have hworse := hmonotone.1 _ _ hhealthy
    rw [checkNumbers_eq_severity hw hc hw, checkNumbers_eq_severity hw hc htop, severity,
      severity, if_neg (lt_irrefl w), if_pos (le_refl w), if_neg (lt_irrefl w),
      if_neg (not_le.mpr hbelow), if_neg (not_le.mpr hbelow)] at hworse
    exact absurd hworse (by decide)

end Monotone

/-- Healthier is never worse exactly if the levels of a metric for which higher values are
worse differ. -/
theorem healthier_never_worse_iff (metric : Metric) (warning critical : Number)
    (hordered : metric.Ordered warning critical) :
    metric.Monotone warning critical ↔ (metric.higherIsWorse → warning.lt critical) := by
  unfold Metric.Ordered at hordered
  cases hmetric : metric.higherIsWorse with
  | false =>
      rw [hmetric] at hordered
      exact iff_of_true (monotone_of_lower hmetric hordered) (fun h => by cases h)
  | true =>
      rw [hmetric] at hordered
      obtain ⟨w, c, hw, hc, hle⟩ := Number.le_iff.mp hordered
      constructor
      · intro hmonotone _
        apply Number.lt_iff.mpr
        refine ⟨w, c, hw, hc, lt_of_le_of_ne hle ?_⟩
        rintro rfl
        exact not_monotone_of_equal hmetric hw hc hmonotone
      · intro hlevels
        exact monotone_of_higher hmetric (hlevels rfl)

/-- The levels that the file has for the disk. -/
theorem disk_healthier_never_worse : Metric.Monotone .percent (.int 80) (.int 90) :=
  (healthier_never_worse_iff .percent (.int 80) (.int 90) (by decide)).mpr (fun _ => by decide)

/-- The warning of the disk, raised to its critical level, makes an empty disk critical. -/
theorem empty_disk_is_critical :
    ((loadConfig plainBuiltins shippedConfig
        [(str "FASTAK_MON_DISK__THRESHOLDS__PERCENT__WARNING", str "90")]).toOption.bind
          (fun config => levelPair config .percent)) = some (.int 90, .int 90) ∧
      Metric.Ordered .percent (.int 90) (.int 90) ∧
      checkNumbers (.int 90) (.int 90) (.int 10) = .critical ∧
      checkNumbers (.int 90) (.int 90) (.int 95) = .ok ∧
      ¬ Metric.Monotone .percent (.int 90) (.int 90) := by
  refine ⟨rfl, by decide, by decide, by decide, ?_⟩
  intro hmonotone
  have hworse := hmonotone.1 (.int 10) (.int 95) (by decide)
  exact absurd hworse (by decide)

end FastTAK.Health
