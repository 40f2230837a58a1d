import FastTAK.Monitor.Alerts
import FastTAK.Monitor.Probes

/-!
# Polls

`_poll` runs a probe, evaluates what it returns, writes the cache and reports to the alert
engine.  A poll whose evaluation raises does neither.
-/

namespace FastTAK.Health

/-- A run of `_poll`: the reading of the clock, the service, what its probe returned or
raised, and its configuration. -/
structure Poll where
  now : ℚ
  service : String
  result : Except Raised Raw
  config : ServiceConfig

/-- An entry of the health cache. -/
structure Snapshot where
  status : Status
  message : Option String
  data : Raw
  thresholds : Option Thresholds

/-- The health cache and the alert engine. -/
structure Monitor where
  cache : String → Option Snapshot
  engine : Alerts.Engine

def newMonitor : Monitor := ⟨fun _ => none, Alerts.newEngine⟩

/-- The data of a poll.  An exception of the probe becomes an error of the probe. -/
def Poll.raw (p : Poll) : Raw :=
  match p.result with
  | .ok raw => raw
  | .error exc => .error (clip 200 exc.text)

def Poll.evaluated (p : Poll) : Option Evaluated :=
  match p.raw with
  | .error text => some ⟨.critical, some text, true⟩
  | raw => evaluate raw p.config

def Poll.snapshot (p : Poll) (e : Evaluated) : Snapshot where
  status := e.status
  message := e.message
  data := p.raw
  thresholds :=
    match p.raw with
    | .error _ => none
    | _ => p.config.thresholds

/-- The call of `check_and_alert` that a poll makes. -/
def Poll.call (p : Poll) (e : Evaluated) : Alerts.Call :=
  ⟨p.now, p.service, e.status.name, e.message.getD "", e.shouldAlert⟩

/-- `_poll`. -/
def poll (alertCooldown : ℚ) (m : Monitor) (p : Poll) : Monitor × List Alerts.Effect :=
  match p.evaluated with
  | none => (m, [])
  | some e =>
      let alerted := Alerts.checkAndAlert alertCooldown m.engine (p.call e)
      (⟨Function.update m.cache p.service (some (p.snapshot e)), alerted.1⟩, alerted.2)

/-- What a poll reports to the engine. -/
def Poll.report (p : Poll) : Option Alerts.Call := p.evaluated.map p.call

theorem Poll.report_eq_some {p : Poll} {call : Alerts.Call} (hreport : p.report = some call) :
    call.now = p.now ∧ call.service = p.service := by
  rw [Poll.report, Option.map_eq_some_iff] at hreport
  obtain ⟨e, _, rfl⟩ := hreport
  exact ⟨rfl, rfl⟩

/-- The calls of the engine in a run of polls. -/
def calls (polls : List Poll) : List Alerts.Call := polls.filterMap Poll.report

/-- The polls of a run, each with what it did. -/
def history (alertCooldown : ℚ) (polls : List Poll) : List (Poll × List Alerts.Effect) :=
  Keyed.outputs (poll alertCooldown) newMonitor polls

/-- The engine sees the reports of the polls and nothing else. -/
theorem notified_outputs (alertCooldown : ℚ) (m : Monitor) (polls : List Poll) :
    (((Keyed.outputs (poll alertCooldown) m polls).filter
        (fun entry => entry.2.any Alerts.Effect.isEmail)).filterMap
          (fun entry => entry.1.report)) =
      Alerts.notified
        (Keyed.outputs (Alerts.checkAndAlert alertCooldown) m.engine (calls polls)) := by
  induction polls generalizing m with
  | nil => rfl
  | cons p rest ih =>
      rw [Keyed.outputs_cons, List.filter_cons, calls, List.filterMap_cons]
      cases heval : p.evaluated with
      | none =>
          have hsilent : poll alertCooldown m p = (m, []) := by
            simp only [poll, heval]
          simp only [hsilent, Poll.report, heval, Option.map_none]
          exact ih m
      | some e =>
          have hserved : poll alertCooldown m p =
              (⟨Function.update m.cache p.service (some (p.snapshot e)),
                (Alerts.checkAndAlert alertCooldown m.engine (p.call e)).1⟩,
                (Alerts.checkAndAlert alertCooldown m.engine (p.call e)).2) := by
            simp only [poll, heval]
          have hreport : p.report = some (p.call e) := by rw [Poll.report, heval]; rfl
          rw [hserved, hreport, Keyed.outputs_cons, Alerts.notified, List.filter_cons]
          have hrest := ih ⟨Function.update m.cache p.service (some (p.snapshot e)),
            (Alerts.checkAndAlert alertCooldown m.engine (p.call e)).1⟩
          rw [Alerts.notified] at hrest
          split_ifs with hsend
          · rw [List.filterMap_cons, hreport, List.map_cons]
            exact congrArg _ hrest
          · exact hrest

end FastTAK.Health
