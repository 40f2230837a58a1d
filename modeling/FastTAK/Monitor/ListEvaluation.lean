import FastTAK.Base.Fields
import FastTAK.Base.Worst
import FastTAK.Monitor.EvaluatorSpec
import FastTAK.Monitor.Poll

/-!
# The status of a list of items

The evaluator and the rows of the dashboard take the status of an item from one function.
The status of the list is the greatest of them.
-/

namespace FastTAK.Health

/-! ## The rows of the dashboard -/

/-- `item.get("error") or ""`. -/
def rowReason (item : Fields) : Value :=
  if reportsError item then (item.lookup "error").getD .null else .str ""

/-- One round of the loop of `_rows_with_status`. -/
def rowOf (thresholds : Thresholds) (item : Fields) : Option Fields := do
  let (status, _) ← itemStatus item thresholds
  return Fields.put "reason" (rowReason item) (Fields.put "status" (.str status.name) item)

/-- `_rows_with_status`. -/
def rowsWithStatus : Option Snapshot → Option (List Fields)
  | none => some []
  | some entry =>
      match entry.data with
      | .items rows => rows.mapM (rowOf (entry.thresholds.getD []))
      | _ => some []

/-- The status that a row shows. -/
def rowStatus (row : Fields) : Option Status := (row.lookup "status").bind Value.status

theorem rowStatus_of_rowOf {thresholds : Thresholds} {item row : Fields}
    (hrow : rowOf thresholds item = some row) :
    rowStatus row = (itemStatus item thresholds).map Prod.fst := by
  obtain ⟨found, hfound, hreturn⟩ := Option.bind_eq_some_iff.mp hrow
  obtain rfl := Option.some.inj hreturn
  rw [rowStatus, Fields.lookup_put_of_ne (by decide), Fields.lookup_put_self, hfound]
  exact Status.ofName_name found.1

/-! ## Messages -/

/-- A verdict above `ok` comes with a message. -/
def Explained (verdict : Status × Option String) : Prop :=
  .ok < verdict.1 → ∃ text, text ≠ "" ∧ verdict.2 = some text

theorem explained_ok (msg : Option String) : Explained (.ok, msg) :=
  fun h => absurd h (lt_irrefl _)

theorem explained_some (status : Status) {text : String} (htext : text ≠ "") :
    Explained (status, some text) := fun _ => ⟨text, htext, rfl⟩

theorem explained_checkNumeric {key : String} {value warning critical : Value}
    {verdict : Status × Option String}
    (hcheck : checkNumeric key value warning critical = some verdict) : Explained verdict := by
  unfold checkNumeric at hcheck
  split_ifs at hcheck
  · obtain rfl := Option.some.inj hcheck
    exact explained_ok none
  · obtain ⟨w, -, hcheck⟩ := Option.bind_eq_some_iff.mp hcheck
    obtain ⟨c, -, hcheck⟩ := Option.bind_eq_some_iff.mp hcheck
    obtain ⟨v, -, hcheck⟩ := Option.bind_eq_some_iff.mp hcheck
    dsimp only at hcheck
    split_ifs at hcheck
    all_goals obtain rfl := Option.some.inj hcheck
    all_goals first
      | exact explained_ok none
      | exact explained_some _ (by simp [toString])

theorem explained_checkMapped {key : String} {value : Value} {levels : Fields}
    {verdict : Status × Option String}
    (hcheck : checkMapped key value levels = some verdict) : Explained verdict := by
  unfold checkMapped at hcheck
  dsimp only at hcheck
  split_ifs at hcheck
  · obtain ⟨status, -, hcheck⟩ := Option.bind_eq_some_iff.mp hcheck
    obtain rfl := Option.some.inj hcheck
    intro habove
    exact ⟨s!"{key} is {value.spell}", by simp [toString], if_pos habove⟩
  · obtain rfl := Option.some.inj hcheck
    exact explained_some _ (by simp [toString])

theorem explained_checkThreshold {key : String} {value : Value} {levels : Levels}
    {verdict : Status × Option String}
    (hcheck : checkThreshold key value levels = some verdict) : Explained verdict := by
  cases levels with
  | scalar _ => cases hcheck
  | table levels =>
      simp only [checkThreshold] at hcheck
      split_ifs at hcheck
      · exact explained_checkNumeric hcheck
      · exact explained_checkMapped hcheck

theorem labelled_ne_empty (name : String) {text : String} (htext : text ≠ "") :
    labelled name text ≠ "" := by
  unfold labelled
  split_ifs
  · exact htext
  · simp [toString, htext]

theorem explained_worstThreshold {label : Option String → Option String}
    (hlabel : ∀ text, text ≠ "" → ∃ text', text' ≠ "" ∧ label (some text) = some text')
    {thresholds : Thresholds} {fields : Fields} {verdict : Status × Option String}
    (hworst : worstThreshold label thresholds fields = some verdict) : Explained verdict := by
  refine Loop.keeps_of_foldlM ?_ (explained_ok none) hworst
  intro worst entry _ worst' hkept hround
  unfold worseThreshold at hround
  split_ifs at hround
  · obtain rfl := Option.some.inj hround
    exact hkept
  · cases hlookup : fields.lookup entry.1 with
    | none =>
        rw [hlookup] at hround
        obtain rfl := Option.some.inj hround
        exact hkept
    | some value =>
        rw [hlookup] at hround
        obtain ⟨found, hfound, hround⟩ := Option.bind_eq_some_iff.mp hround
        obtain rfl := Option.some.inj hround
        split_ifs
        · intro habove
          obtain ⟨text, htext, hmsg⟩ := explained_checkThreshold hfound habove
          rw [hmsg]
          exact hlabel text htext
        · exact hkept

/-- A truthy error has a text. -/
theorem spell_ne_empty {item : Fields} (herror : reportsError item)
    (hspelled : ∀ q, item.lookup "error" ≠ some (.num q "")) :
    ((item.lookup "error").getD .null).spell ≠ "" := by
  unfold reportsError at herror
  cases hlookup : item.lookup "error" with
  | none =>
      rw [hlookup] at herror
      cases herror
  | some value =>
      rw [hlookup] at herror hspelled
      cases value with
      | null => cases herror
      | bool b => cases b <;> simp [Value.spell]
      | num q text =>
          intro h
          apply hspelled q
          rw [← h]
          rfl
      | str text => simpa [Value.truthy, Value.spell] using herror

theorem explained_itemStatus {item : Fields} {thresholds : Thresholds}
    {verdict : Status × Option String}
    (hspelled : ∀ q, item.lookup "error" ≠ some (.num q ""))
    (hitem : itemStatus item thresholds = some verdict) : Explained verdict := by
  unfold itemStatus at hitem
  split_ifs at hitem with herror
  · obtain ⟨status, -, hitem⟩ := Option.bind_eq_some_iff.mp hitem
    obtain rfl := Option.some.inj hitem
    exact explained_some status (labelled_ne_empty _ (spell_ne_empty herror hspelled))
  · apply explained_worstThreshold _ hitem
    intro text htext
    exact ⟨labelled (itemName item) text, labelled_ne_empty _ htext, rfl⟩

/-! ## The list -/

/-- The items that the filter leaves. -/
def counted (thresholds : Thresholds) (items : List Fields) : List Fields :=
  items.filter (fun item => isFiltered thresholds item = some false)

/-- The names of statuses in the configuration exist, and the filter is a number. -/
structure ValidNames (config : ServiceConfig) : Prop where
  errorStatus : (errorStatus config.levels).isSome
  minDead : minDeadUsable config.levels
  minLevel : config.minLevel.isSome

theorem counted_of_unfiltered {thresholds : Thresholds} (h : Unfiltered thresholds)
    (items : List Fields) : counted thresholds items = items := by
  apply List.filter_eq_self.mpr
  intro item _
  apply decide_eq_true
  unfold isFiltered
  split_ifs
  · rfl
  · exact belowMinDead_of_unfiltered h item

section List

variable {thresholds : Thresholds} {items : List Fields}

/-- The loop over the items keeps the worse of two verdicts. -/
theorem foldlM_worseItem (herror : (errorStatus thresholds).isSome)
    (hmin : minDeadUsable thresholds) (hitems : ∀ item ∈ items, Evaluable thresholds item)
    (worst : Status × Option String) :
    ∃ verdicts, (counted thresholds items).mapM (fun item => itemStatus item thresholds) =
        some verdicts ∧
      items.foldlM (worseItem thresholds) worst =
        some (verdicts.foldl (Worst.keepWorse Prod.fst) worst) := by
  induction items generalizing worst with
  | nil => exact ⟨[], rfl, rfl⟩
  | cons item items ih =>
      have hitem := hitems item List.mem_cons_self
      have hrest := fun other hother => hitems other (List.mem_cons_of_mem item hother)
      obtain ⟨skipped, hskipped⟩ := Option.isSome_iff_exists.mp (isFiltered_isSome hitem hmin)
      obtain ⟨verdict, hverdict⟩ := Option.isSome_iff_exists.mp (itemStatus_isSome hitem herror)
      cases skipped with
      | true =>
          obtain ⟨verdicts, hverdicts, hloop⟩ := ih hrest worst
          use verdicts
          simp only [counted] at hverdicts
          constructor
          · simp [counted, hskipped, hverdicts]
          · simp [worseItem, hskipped, hloop]
      | false =>
          obtain ⟨verdicts, hverdicts, hloop⟩ :=
            ih hrest (Worst.keepWorse Prod.fst worst verdict)
          use verdict :: verdicts
          simp only [counted] at hverdicts
          constructor
          · simp [counted, hskipped, hverdict, hverdicts]
          · simp only [List.foldlM_cons, worseItem, hskipped, hverdict, Option.bind_eq_bind,
              Option.bind_some, Bool.false_eq_true, if_false, List.foldl_cons]
            exact hloop

/-- Every row shows the status of its item. -/
theorem mapM_rowOf {verdicts : List (Status × Option String)}
    (hverdicts : items.mapM (fun item => itemStatus item thresholds) = some verdicts) :
    ∃ rows, items.mapM (rowOf thresholds) = some rows ∧
      rows.mapM rowStatus = some (verdicts.map Prod.fst) := by
  induction items generalizing verdicts with
  | nil =>
      obtain rfl := Option.some.inj hverdicts
      exact ⟨[], rfl, rfl⟩
  | cons item items ih =>
      obtain ⟨verdict, others, hverdict, hothers, rfl⟩ := Loop.mapM_cons_eq_some.mp hverdicts
      obtain ⟨rows, hrows, hstatuses⟩ := ih hothers
      obtain ⟨row, hrow⟩ : ∃ row, rowOf thresholds item = some row := by
        rw [rowOf, hverdict]
        exact ⟨_, rfl⟩
      have hstatus := rowStatus_of_rowOf hrow
      rw [hverdict] at hstatus
      use row :: rows
      constructor
      · exact Loop.mapM_cons_eq_some.mpr ⟨row, rows, hrow, hrows, rfl⟩
      · exact Loop.mapM_cons_eq_some.mpr ⟨_, _, hstatus, hstatuses, rfl⟩

end List

section Whole

variable {config : ServiceConfig} {items : List Fields}

/-- What the service is told about a list of items. -/
theorem evaluate_items (hshape : mapsContainers config.levels = false) (hnames : ValidNames config)
    (hitems : ∀ item ∈ items, Evaluable config.levels item) :
    ∃ verdicts e, (counted config.levels items).mapM
        (fun item => itemStatus item config.levels) = some verdicts ∧
      evaluate (.items items) config = some e ∧
      e.status = Worst.greatest .ok (verdicts.map Prod.fst) ∧
      e.message = (verdicts.foldl (Worst.keepWorse Prod.fst) (.ok, none)).2.filter (· ≠ "") := by
  obtain ⟨verdicts, hverdicts, hloop⟩ :=
    foldlM_worseItem hnames.errorStatus hnames.minDead hitems (.ok, none)
  obtain ⟨minLevel, hmin⟩ := Option.isSome_iff_exists.mp hnames.minLevel
  let worst := verdicts.foldl (Worst.keepWorse Prod.fst) (.ok, none)
  refine ⟨verdicts, ⟨worst.1, worst.2.filter (· ≠ ""), minLevel ≤ worst.1⟩, hverdicts, ?_, ?_, rfl⟩
  · rw [evaluate, judge, hshape, if_neg Bool.false_ne_true, evaluateList, hloop, hmin]
    rfl
  · exact Worst.rank_foldl_keepWorse Prod.fst (.ok, none) verdicts

/-- The message is there exactly above `ok`, and is that of an item of this status. -/
theorem message_of_worst {verdicts : List (Status × Option String)}
    (hexplained : ∀ verdict ∈ verdicts, Explained verdict) {worst : Status × Option String}
    (hworst : worst = verdicts.foldl (Worst.keepWorse Prod.fst) (.ok, none)) :
    ((worst.2.filter (· ≠ "")).isSome ↔ .ok < worst.1) ∧
      ∀ msg, worst.2.filter (· ≠ "") = some msg → (worst.1, some msg) ∈ verdicts := by
  cases Worst.foldl_keepWorse_mem Prod.fst (Status.ok, (none : Option String)) verdicts with
  | inl hsame =>
      rw [hsame] at hworst
      subst hworst
      exact ⟨iff_of_false (by simp) (lt_irrefl _), fun msg hmsg => by cases hmsg⟩
  | inr hmem =>
      rw [← hworst] at hmem
      obtain ⟨text, htext, hmsg⟩ := hexplained worst hmem.1 hmem.2
      have hfilter : worst.2.filter (· ≠ "") = some text := by
        rw [hmsg]
        simp [htext]
      rw [hfilter]
      refine ⟨iff_of_true rfl hmem.2, fun msg hsame => ?_⟩
      rw [← hsame, ← hfilter, hfilter, ← hmsg]
      exact hmem.1

/-- A poll that is evaluated stores what it evaluated. -/
theorem cache_of_poll (alertCooldown : ℚ) (m : Monitor) {p : Poll} {e : Evaluated}
    (hresult : p.result = .ok (.items items)) (he : evaluate (.items items) p.config = some e) :
    (poll alertCooldown m p).1.cache p.service =
      some ⟨e.status, e.message, .items items, p.config.thresholds⟩ := by
  have hraw : p.raw = .items items := by rw [Poll.raw, hresult]
  have hevaluated : p.evaluated = some e := by
    rw [Poll.evaluated, hraw]
    exact he
  rw [poll, hevaluated]
  simp [Poll.snapshot, hraw]

end Whole

/-- The status of a list is the greatest of the statuses of its items, in whatever order they
come.  There is a message exactly above `ok`, and it is that of an item of this status.
Without a filter the rows of the dashboard show these statuses. -/
theorem list_status_is_greatest (config : ServiceConfig) (items : List Fields)
    (hshape : mapsContainers config.levels = false) (hnames : ValidNames config)
    (hitems : ∀ item ∈ items, Evaluable config.levels item)
    (hspelled : ∀ item ∈ items, ∀ q, item.lookup "error" ≠ some (.num q "")) :
    ∃ statuses e, evaluate (.items items) config = some e ∧
      (counted config.levels items).mapM
        (fun item => (itemStatus item config.levels).map Prod.fst) = some statuses ∧
      e.status = Worst.greatest .ok statuses ∧
      (∀ items', items'.Perm items →
        ∃ e', evaluate (.items items') config = some e' ∧ e'.status = e.status) ∧
      (e.message.isSome ↔ .ok < e.status) ∧
      (∀ msg, e.message = some msg →
        ∃ item ∈ counted config.levels items,
          itemStatus item config.levels = some (e.status, some msg)) ∧
      (Unfiltered config.levels → ∀ (alertCooldown : ℚ) (m : Monitor) (p : Poll),
        p.result = .ok (.items items) → p.config = config →
        ∃ rows, rowsWithStatus ((poll alertCooldown m p).1.cache p.service) = some rows ∧
          rows.mapM rowStatus = some statuses) := by
  obtain ⟨verdicts, e, hverdicts, he, hstatus, hmessage⟩ := evaluate_items hshape hnames hitems
  have hcounted : ∀ item ∈ counted config.levels items, item ∈ items :=
    fun item hitem => (List.mem_filter.mp hitem).1
  have hitem_of : ∀ verdict ∈ verdicts, ∃ item ∈ counted config.levels items,
      itemStatus item config.levels = some verdict := by
    intro verdict hmem
    rw [← Loop.filterMap_of_mapM hverdicts] at hmem
    exact List.mem_filterMap.mp hmem
  have hexplained : ∀ verdict ∈ verdicts, Explained verdict := by
    intro verdict hmem
    obtain ⟨item, hitem, hverdict⟩ := hitem_of verdict hmem
    exact explained_itemStatus (hspelled item (hcounted item hitem)) hverdict
  have hworst : e.status = (verdicts.foldl (Worst.keepWorse Prod.fst) (.ok, none)).1 := by
    rw [hstatus]
    exact (Worst.rank_foldl_keepWorse Prod.fst (.ok, none) verdicts).symm
  obtain ⟨hpresent, hmsg⟩ := message_of_worst hexplained rfl
  rw [← hmessage, ← hworst] at hpresent hmsg
  refine ⟨verdicts.map Prod.fst, e, he, ?_, hstatus, ?_, hpresent, ?_, ?_⟩
  · exact Loop.mapM_of_mapM hverdicts (fun item _ => rfl)
  · intro items' hperm
    obtain ⟨verdicts', e', hverdicts', he', hstatus', -⟩ :=
      evaluate_items hshape hnames (fun item hitem => hitems item (hperm.subset hitem))
    refine ⟨e', he', ?_⟩
    rw [hstatus, hstatus', ← Loop.filterMap_of_mapM hverdicts,
      ← Loop.filterMap_of_mapM hverdicts']
    exact Worst.greatest_perm (((hperm.filter _).filterMap _).map Prod.fst) Status.ok
  · intro msg hsome
    exact hitem_of _ (hmsg msg hsome)
  · intro hunfiltered alertCooldown m p hresult hconfig
    rw [counted_of_unfiltered hunfiltered] at hverdicts
    obtain ⟨rows, hrows, hstatuses⟩ := mapM_rowOf hverdicts
    refine ⟨rows, ?_, hstatuses⟩
    rw [← hrows, cache_of_poll alertCooldown m hresult (hconfig ▸ he)]
    rw [← hconfig]
    rfl

/-! ## Containers -/

/-- The shipped thresholds of the containers. -/
def containersConfig : ServiceConfig where
  thresholds := some [("default_status", .scalar (.str "warning")),
    ("health", .table [("healthy", .str "ok"), ("starting", .str "note"),
      ("unhealthy", .str "critical")]),
    ("status", .table [("running", .str "ok"), ("exited", .str "critical"),
      ("not_found", .str "critical")])]
  alertMinLevel := some "warning"

/-- A running container without a health check. -/
def proxyContainer : Fields :=
  [("name", .str "proxy"), ("status", .str "running"), ("health", .str "unknown")]

/-- Thresholds with both maps are evaluated by the maps: the health that no map knows is a
warning for an item of its own and is overlooked for a container. -/
theorem container_status_differs :
    (evaluate (.items [proxyContainer]) containersConfig).map Evaluated.status = some .ok ∧
      (itemStatus proxyContainer containersConfig.levels).map Prod.fst = some .warning := by
  decide +kernel

/-- Two tables, one of which could not be read. -/
def vacuumItems : List Fields :=
  [[("table", .str "cot_router"), ("dead_pct", .num 7 "7.0"), ("dead_tuples", .num 5000 "5000")],
    [("table", .str "resource"), ("error", .str "timeout")]]

def vacuumConfig : ServiceConfig :=
  ⟨some [("dead_pct", numericLevels 5 15), ("min_dead_tuples", .scalar (.num 1000 "1000"))],
    some "warning"⟩

theorem vacuum_status_is_greatest :
    ∃ statuses e, evaluate (.items vacuumItems) vacuumConfig = some e ∧
      (counted vacuumConfig.levels vacuumItems).mapM
        (fun item => (itemStatus item vacuumConfig.levels).map Prod.fst) = some statuses ∧
      e.status = Worst.greatest .ok statuses := by
  obtain ⟨statuses, e, he, hstatuses, hstatus, -⟩ :=
    list_status_is_greatest vacuumConfig vacuumItems (by decide)
      ⟨by decide, rfl, by decide⟩
      (fun item hitem => ⟨by revert item; decide, .inr (by revert item; decide)⟩) (by
        intro item hitem q
        simp only [vacuumItems, List.mem_cons, List.not_mem_nil, or_false] at hitem
        cases hitem with
        | inl hfirst => subst hfirst; simp [List.lookup]
        | inr hsecond => subst hsecond; simp [List.lookup])
  exact ⟨statuses, e, he, hstatuses, hstatus⟩

end FastTAK.Health
