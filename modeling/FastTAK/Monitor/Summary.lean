import FastTAK.Base.Worst
import FastTAK.Monitor.Poll

/-!
# The health summary

`GET /api/health` rolls up the cache that the polls fill.  The activity log is written by the
alert engine, and only when a state changes; the last entries in it tell what the summary shows.
-/

namespace FastTAK.Health

open FastTAK.Alerts (Effect Watch)

/-! ## The endpoint -/

/-- `store.fetch_all`: the services of the cache, each once. -/
structure FetchAll (cache : String → Option Snapshot) where
  entries : List (String × Snapshot)
  nodup : (entries.map Prod.fst).Nodup
  mem_iff : ∀ service snapshot, (service, snapshot) ∈ entries ↔ cache service = some snapshot

/-- The cache of some services. -/
def fetchAll (cache : String → Option Snapshot) (services : List String)
    (h : ∀ service, cache service ≠ none → service ∈ services) : FetchAll cache where
  entries := services.dedup.filterMap fun service =>
    (cache service).map fun snapshot => (service, snapshot)
  nodup := by
    have hkeys : (services.dedup.filterMap fun service =>
        (cache service).map fun snapshot => (service, snapshot)).map Prod.fst =
          services.dedup.filter fun service => (cache service).isSome := by
      induction services.dedup with
      | nil => rfl
      | cons service services ih =>
          cases hentry : cache service with
          | none => simp [hentry, ih]
          | some snapshot => simp [hentry, ih]
    rw [hkeys]
    exact (List.nodup_dedup services).filter _
  mem_iff := by
    intro service snapshot
    rw [List.mem_filterMap]
    constructor
    · rintro ⟨other, -, hother⟩
      obtain ⟨found, hfound, heq⟩ := Option.map_eq_some_iff.mp hother
      obtain ⟨rfl, rfl⟩ := Prod.mk.inj heq
      exact hfound
    · intro hentry
      have hmem := h service (by rw [hentry]; exact Option.some_ne_none _)
      exact ⟨service, List.mem_dedup.mpr hmem, by rw [hentry]; rfl⟩

/-- A round of the loop over the cache. -/
def worseOverall (worst level : Status) : Status :=
  if .note < level ∧ worst < level then level else worst

def overall (entries : List (String × Snapshot)) : Status :=
  (entries.map fun entry => entry.2.status).foldl worseOverall .ok

/-- An entry of the compact view.  An empty message is left out. -/
structure ServiceStatus where
  service : String
  status : Status
  message : Option String

inductive Summary
  | full (overall : Status) (entries : List (String × Snapshot))
  | compact (overall : Status) (services : List ServiceStatus)

/-- `health_summary`. -/
def healthSummary (view : Option String) (entries : List (String × Snapshot)) : Summary :=
  if view = some "status" then
    .compact (overall entries) (entries.map fun entry =>
      ⟨entry.1, entry.2.status, entry.2.message.filter (· ≠ "")⟩)
  else .full (overall entries) entries

def Summary.overall : Summary → Status
  | full worst _ => worst
  | compact worst _ => worst

def Summary.statuses : Summary → List (String × Status)
  | full _ entries => entries.map fun entry => (entry.1, entry.2.status)
  | compact _ services => services.map fun entry => (entry.service, entry.status)

/-! ## The activity log -/

/-- The state that an entry of the log reports for a service. -/
def levelFor (service : String) : Effect → Option String
  | .recordEvent source level _ =>
      if source = service ∧ level ≠ "recovered" then some level else none
  | _ => none

/-- The last state that the log reports for a service. -/
def lastLevel (service : String) (effects : List Effect) : Option String :=
  (effects.filterMap (levelFor service)).getLast?

/-- What a run of polls has done. -/
def effects (alertCooldown : ℚ) (m : Monitor) (polls : List Poll) : List Effect :=
  (Keyed.outputs (poll alertCooldown) m polls).flatMap Prod.snd

/-- The cache, the engine and the log agree about a service. -/
structure Agree (m : Monitor) (log : List Effect) (service : String) : Prop where
  cache : (m.cache service).map (fun snapshot => snapshot.status.name) = m.engine.lastState service
  log : (lastLevel service log).getD "ok" = (m.engine.lastState service).getD "ok"

section Agree

variable {alertCooldown : ℚ} {m : Monitor} {log : List Effect} {service : String} {p : Poll}
  {e : Evaluated} {oldState : Option String} {call : Alerts.Call}
  {entries : List (String × Snapshot)} {status bound : Status}

theorem name_ne_recovered (status : Status) : status.name ≠ "recovered" := by
  cases status <;> decide

theorem Status.name_injective : Function.Injective Status.name := by
  intro first second hname
  have hsame := congrArg Status.ofName hname
  rw [Status.ofName_name, Status.ofName_name] at hsame
  exact Option.some.inj hsame

theorem lastLevel_append (first rest : List Effect) :
    lastLevel service (first ++ rest) = (lastLevel service rest).or (lastLevel service first) := by
  rw [lastLevel, List.filterMap_append, List.getLast?_append]
  rfl

theorem lastLevel_eq_none (h : ∀ effect ∈ log, levelFor service effect = none) :
    lastLevel service log = none := by
  rw [lastLevel, List.filterMap_eq_nil_iff.mpr h]
  rfl

theorem levelFor_messages {w : Watch} {effect : Effect}
    (h : effect ∈ Alerts.messages alertCooldown w call) : levelFor service effect = none := by
  rw [Alerts.messages] at h
  split_ifs at h
  · rcases List.mem_cons.mp h with rfl | h
    · rfl
    · rw [List.mem_singleton.mp h]
      rfl
  · cases h

theorem levelFor_rows_other (hother : call.service ≠ service) {effect : Effect}
    (h : effect ∈ Alerts.rows oldState call) : levelFor service effect = none := by
  have hforeign : ∀ level message,
      levelFor service (.recordEvent call.service level message) = none :=
    fun level message => if_neg fun h => hother h.1
  rw [Alerts.rows] at h
  split_ifs at h
  · rcases List.mem_cons.mp h with rfl | h
    · exact hforeign _ _
    · rw [List.mem_singleton.mp h]
      exact hforeign _ _
  · rw [List.mem_singleton.mp h]
    exact hforeign _ _
  · cases h

/-- A call reports its state if it changes one. -/
theorem lastLevel_own (call : Alerts.Call) (hname : call.newState ≠ "recovered")
    (engine : Alerts.Engine) :
    lastLevel call.service (Alerts.checkAndAlert alertCooldown engine call).2 =
      if Alerts.Changes (engine.lastState call.service) call then some call.newState else none := by
  have hstate : levelFor call.service (Alerts.stateEvent (engine.lastState call.service) call) =
      some call.newState := if_pos ⟨rfl, hname⟩
  have hrecovered : levelFor call.service
      (Alerts.recoveredEvent (engine.lastState call.service) call) = none :=
    if_neg fun h => h.2 rfl
  rw [Alerts.checkAndAlert_effects, Alerts.track, lastLevel_append,
    lastLevel_eq_none (fun effect heffect => levelFor_messages heffect), Option.none_or,
    Alerts.rows, Alerts.watch]
  split_ifs with hchanges hrecovers
  · simp [lastLevel, hstate, hrecovered]
  · simp [lastLevel, hstate]
  · rfl

theorem lastLevel_other (hother : call.service ≠ service) (engine : Alerts.Engine) :
    lastLevel service (Alerts.checkAndAlert alertCooldown engine call).2 = none := by
  apply lastLevel_eq_none
  intro effect heffect
  rw [Alerts.checkAndAlert_effects, Alerts.track] at heffect
  rcases List.mem_append.mp heffect with heffect | heffect
  · exact levelFor_rows_other hother heffect
  · exact levelFor_messages heffect

theorem lastState_own (engine : Alerts.Engine) :
    (Alerts.checkAndAlert alertCooldown engine call).1.lastState call.service =
      some call.newState :=
  congrArg Watch.lastState (Alerts.checkAndAlert_watch alertCooldown engine call)

theorem lastState_other (hother : call.service ≠ service) (engine : Alerts.Engine) :
    (Alerts.checkAndAlert alertCooldown engine call).1.lastState service =
      engine.lastState service :=
  congrArg Watch.lastState (Alerts.checkAndAlert_other alertCooldown engine call service hother)

/-- A poll keeps cache, engine and log in agreement. -/
theorem agree_poll (hagree : Agree m log service) (p : Poll) :
    Agree (poll alertCooldown m p).1 (log ++ (poll alertCooldown m p).2) service := by
  cases hevaluated : p.evaluated with
  | none =>
      rw [poll, hevaluated]
      exact ⟨hagree.cache, by rw [List.append_nil]; exact hagree.log⟩
  | some e =>
      rw [poll, hevaluated]
      dsimp only
      by_cases hservice : p.service = service
      · subst hservice
        have hstate : (Alerts.checkAndAlert alertCooldown m.engine (p.call e)).1.lastState
            p.service = some e.status.name := lastState_own m.engine
        have hreported : lastLevel p.service
            (Alerts.checkAndAlert alertCooldown m.engine (p.call e)).2 =
              if Alerts.Changes (m.engine.lastState p.service) (p.call e) then
                some e.status.name else none :=
          lastLevel_own (p.call e) (name_ne_recovered e.status) m.engine
        constructor
        · rw [hstate]
          have hcache : Function.update m.cache p.service (some (p.snapshot e)) p.service =
              some (p.snapshot e) := Function.update_self _ _ _
          exact congrArg (Option.map fun snapshot => snapshot.status.name) hcache
        · rw [hstate, lastLevel_append, hreported]
          split_ifs with hchanges
          · rfl
          · rw [Option.none_or, hagree.log]
            rw [Alerts.Changes, not_and_or, not_not, not_not] at hchanges
            rcases hchanges with hsame | ⟨hfirst, hok⟩
            · rw [hsame]
              rfl
            · rw [hfirst]
              exact hok.symm
      · have hother : (p.call e).service ≠ service := hservice
        constructor
        · rw [lastState_other hother, ← hagree.cache]
          have hcache : Function.update m.cache p.service (some (p.snapshot e)) service =
              m.cache service := Function.update_of_ne (Ne.symm hservice) _ _
          exact congrArg (Option.map fun snapshot => snapshot.status.name) hcache
        · rw [lastLevel_append, lastLevel_other hother, Option.none_or, hagree.log,
            lastState_other hother]

/-- Cache, engine and log agree about every service after any run of polls. -/
theorem agree_run (hagree : Agree m log service) (polls : List Poll) :
    Agree (Keyed.after (poll alertCooldown) m polls) (log ++ effects alertCooldown m polls)
      service := by
  induction polls generalizing m log with
  | nil =>
      rw [effects, Keyed.outputs_nil, List.flatMap_nil, List.append_nil]
      exact hagree
  | cons p rest ih =>
      rw [effects, Keyed.outputs_cons, List.flatMap_cons, ← List.append_assoc]
      exact ih (agree_poll hagree p)

/-- The cache has services that were polled. -/
theorem mem_of_cache (polls : List Poll)
    (h : (Keyed.after (poll alertCooldown) m polls).cache service ≠ none) :
    m.cache service ≠ none ∨ service ∈ polls.map Poll.service := by
  induction polls generalizing m with
  | nil => exact Or.inl h
  | cons p rest ih =>
      rcases ih h with hcache | hmem
      · by_cases hservice : service = p.service
        · exact Or.inr (hservice ▸ List.mem_cons_self)
        · left
          rw [poll] at hcache
          cases hevaluated : p.evaluated with
          | none =>
              rw [hevaluated] at hcache
              exact hcache
          | some e =>
              rw [hevaluated] at hcache
              have hupdate : Function.update m.cache p.service (some (p.snapshot e)) service =
                  m.cache service := Function.update_of_ne hservice _ _
              rw [← hupdate]
              exact hcache
      · exact Or.inr (List.mem_cons_of_mem _ hmem)

/-- The cache after a run of polls. -/
def fetchAllAfter (alertCooldown : ℚ) (polls : List Poll) :
    FetchAll (Keyed.after (poll alertCooldown) newMonitor polls).cache :=
  fetchAll _ (polls.map Poll.service) fun _ h =>
    (mem_of_cache polls h).resolve_left fun hstart => hstart rfl

theorem agree_start : Agree newMonitor [] service := ⟨rfl, rfl⟩

theorem statuses_healthSummary (view : Option String) :
    (healthSummary view entries).statuses =
      entries.map fun entry => (entry.1, entry.2.status) := by
  rw [healthSummary]
  split_ifs
  · exact List.map_map
  · rfl

theorem overall_healthSummary (view : Option String) :
    (healthSummary view entries).overall = overall entries := by
  rw [healthSummary]
  split_ifs <;> rfl

theorem foldl_worseOverall (worst : Status) (levels : List Status) :
    levels.foldl worseOverall worst =
      Worst.greatest worst (levels.filter fun level => .note < level) := by
  induction levels generalizing worst with
  | nil => rfl
  | cons level levels ih =>
      rw [List.foldl_cons, ih, worseOverall]
      by_cases hnote : .note < level
      · have hkeep : (level :: levels).filter (fun level => .note < level) =
            level :: levels.filter fun level => .note < level :=
          List.filter_cons_of_pos (decide_eq_true hnote)
        rw [hkeep, Worst.greatest_cons]
        apply congrArg (Worst.greatest · _)
        split_ifs with hworse
        · exact (max_eq_right hworse.2.le).symm
        · exact (max_eq_left (not_lt.mp fun h => hworse ⟨hnote, h⟩)).symm
      · rw [List.filter_cons_of_neg (by simpa using hnote), if_neg fun h => hnote h.1]

/-- The summary is at least as bad as a status above `note` if a service is. -/
theorem le_overall_iff (hbound : .note < bound) :
    bound ≤ overall entries ↔ ∃ entry ∈ entries, bound ≤ entry.2.status := by
  have hok : ¬ bound ≤ .ok := fun h => absurd (hbound.trans_le h) (by decide)
  rw [overall, foldl_worseOverall, Worst.le_greatest_iff]
  simp only [hok, false_or, List.mem_filter, List.mem_map]
  constructor
  · rintro ⟨level, ⟨⟨entry, hentry, rfl⟩, -⟩, hlevel⟩
    exact ⟨entry, hentry, hlevel⟩
  · rintro ⟨entry, hentry, hlevel⟩
    exact ⟨_, ⟨⟨entry, hentry, rfl⟩, decide_eq_true (hbound.trans_le hlevel)⟩, hlevel⟩

theorem overall_ne_note : overall entries ≠ .note := by
  intro hnote
  have hle : Worst.greatest Status.ok ((entries.map fun entry => entry.2.status).filter
      fun level => .note < level) ≤ .note := by
    rw [← foldl_worseOverall]
    exact hnote.le
  have hnone := (Worst.greatest_le_iff.mp hle).2
  have hempty : (entries.map fun entry => entry.2.status).filter (fun level => .note < level) =
      [] := by
    rw [List.eq_nil_iff_forall_not_mem]
    intro level hlevel
    exact absurd (hnone level hlevel) (not_le.mpr (of_decide_eq_true (List.mem_filter.mp hlevel).2))
  rw [overall, foldl_worseOverall, hempty] at hnote
  cases hnote

theorem mem_statuses_iff (hagree : Agree m log service) (all : FetchAll m.cache)
    (view : Option String) :
    (service, status) ∈ (healthSummary view all.entries).statuses ↔
      m.engine.lastState service = some status.name := by
  rw [statuses_healthSummary, ← hagree.cache, List.mem_map, Option.map_eq_some_iff]
  constructor
  · rintro ⟨entry, hentry, heq⟩
    obtain ⟨rfl, rfl⟩ := Prod.mk.inj heq
    exact ⟨entry.2, (all.mem_iff entry.1 entry.2).mp hentry, rfl⟩
  · rintro ⟨snapshot, hsnapshot, hname⟩
    refine ⟨(service, snapshot), (all.mem_iff service snapshot).mpr hsnapshot, ?_⟩
    rw [Status.name_injective hname]

/-- A status above `note` is the last one in the log if it is the last one seen. -/
theorem lastLevel_eq_iff (hagree : Agree m log service) (hstatus : .note < status) :
    lastLevel service log = some status.name ↔
      m.engine.lastState service = some status.name := by
  have hok : status.name ≠ "ok" := by
    intro hname
    have hsame : status = .ok := Status.name_injective hname
    rw [hsame] at hstatus
    exact absurd hstatus (by decide)
  have hdefault : ∀ state : Option String, state.getD "ok" = status.name ↔
      state = some status.name := by
    intro state
    cases state with
    | none => exact iff_of_false (fun h => hok h.symm) (by simp)
    | some level => simp
  rw [← hdefault, ← hdefault, hagree.log]

theorem le_overall_iff_log (hagree : ∀ service, Agree m log service) (all : FetchAll m.cache)
    (view : Option String) (hbound : .note < bound) :
    bound ≤ (healthSummary view all.entries).overall ↔
      ∃ service, ∃ status : Status, lastLevel service log = some status.name ∧
        bound ≤ status := by
  rw [overall_healthSummary, le_overall_iff hbound]
  constructor
  · rintro ⟨entry, hentry, hlevel⟩
    refine ⟨entry.1, entry.2.status, ?_, hlevel⟩
    rw [lastLevel_eq_iff (hagree _) (hbound.trans_le hlevel),
      ← mem_statuses_iff (hagree _) all view, statuses_healthSummary]
    exact List.mem_map_of_mem hentry
  · rintro ⟨service, status, hlast, hlevel⟩
    rw [lastLevel_eq_iff (hagree _) (hbound.trans_le hlevel),
      ← mem_statuses_iff (hagree _) all view, statuses_healthSummary] at hlast
    obtain ⟨entry, hentry, heq⟩ := List.mem_map.mp hlast
    refine ⟨entry, hentry, ?_⟩
    rw [(Prod.mk.inj heq).2]
    exact hlevel

end Agree

/-- After any run of polls and in either view, the summary shows of each service what the alert
engine saw last, which is what the activity log reported last, or `ok` without a report; and it is
as bad overall as the worst of the last reports. -/
theorem healthSummary_tells_log (alertCooldown : ℚ) (polls : List Poll) (view : Option String) :
    let log := effects alertCooldown newMonitor polls
    let summary := healthSummary view (fetchAllAfter alertCooldown polls).entries
    (∀ service status, (service, status) ∈ summary.statuses ↔
      (Keyed.after (poll alertCooldown) newMonitor polls).engine.lastState service =
        some status.name) ∧
    (∀ service status, (service, status) ∈ summary.statuses →
      (lastLevel service log).getD "ok" = status.name) ∧
    (∀ bound : Status, .note < bound → (bound ≤ summary.overall ↔
      ∃ service, ∃ status : Status, lastLevel service log = some status.name ∧ bound ≤ status)) ∧
    summary.overall ≠ .note := by
  have hagree : ∀ service, Agree (Keyed.after (poll alertCooldown) newMonitor polls)
      (effects alertCooldown newMonitor polls) service :=
    fun service => agree_run agree_start polls
  refine ⟨fun service status => mem_statuses_iff (hagree service) _ view, ?_,
    fun bound => le_overall_iff_log hagree _ view, ?_⟩
  · intro service status hshown
    rw [(hagree service).log, (mem_statuses_iff (hagree service) _ view).mp hshown]
    rfl
  · rw [overall_healthSummary]
    exact overall_ne_note

end FastTAK.Health
