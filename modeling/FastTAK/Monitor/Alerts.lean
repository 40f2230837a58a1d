import FastTAK.Base.Keyed
import Mathlib.Algebra.Order.Ring.Rat
import Mathlib.Logic.Function.Basic
import Mathlib.Tactic.Linarith

/-!
# The alert engine

`check_and_alert` keeps two dictionaries, the last state of each service and the time of
its last notification.  What it does for one service depends on that service's two
entries alone: it is one copy per service of a small machine.
-/

namespace FastTAK.Alerts

/-- A call of `check_and_alert`, with the clock reading that it takes. -/
structure Call where
  now : ℚ
  service : String
  newState : String
  detail : String
  shouldAlert : Bool
deriving DecidableEq

/-- What a call does outside the lock. -/
inductive Effect where
  | recordEvent (source level message : String)
  | sendAlertEmail (subject body : String)
  | sendAlertSms (message : String)
deriving DecidableEq

/-- `_last_state` and `_last_alert_time`, the second with its default for a service that
was never alerted. -/
structure Engine where
  lastState : String → Option String
  lastAlertTime : String → ℚ

def newEngine : Engine where
  lastState := fun _ => none
  lastAlertTime := fun _ => 0

/-- An old state as the messages spell it. -/
def spell (oldState : Option String) : String := oldState.getD "None"

def stateEvent (oldState : Option String) (call : Call) : Effect :=
  .recordEvent call.service call.newState
    (if call.detail = "" then s!"{call.service}: {spell oldState} → {call.newState}"
      else call.detail)

def recoveredEvent (oldState : Option String) (call : Call) : Effect :=
  .recordEvent call.service "recovered"
    s!"{call.service} recovered: {spell oldState} → {call.newState}"

def alertEmail (oldState : Option String) (call : Call) : Effect :=
  .sendAlertEmail s!"{call.service} is {call.newState}"
    (s!"Service: {call.service}\nState: {spell oldState} → {call.newState}\n"
      ++ call.detail)

def alertSms (call : Call) : Effect :=
  .sendAlertSms s!"[FastTAK] {call.service} is {call.newState}"

def checkAndAlert (alertCooldown : ℚ) (engine : Engine) (call : Call) :
    Engine × List Effect :=
  let oldState := engine.lastState call.service
  let tracked : Engine :=
    { engine with
      lastState := Function.update engine.lastState call.service (some call.newState) }
  if oldState = some call.newState then
    (tracked, [])
  else if oldState = none ∧ call.newState = "ok" then
    (tracked, [])
  else if call.newState ≠ "ok" then
    if call.shouldAlert ∧
        alertCooldown ≤ call.now - engine.lastAlertTime call.service then
      ({ tracked with
          lastAlertTime := Function.update engine.lastAlertTime call.service call.now },
        [stateEvent oldState call, alertEmail oldState call, alertSms call])
    else
      (tracked, [stateEvent oldState call])
  else if oldState ≠ none ∧ oldState ≠ some "ok" then
    (tracked, [stateEvent oldState call, recoveredEvent oldState call])
  else
    (tracked, [stateEvent oldState call])

/-! ## One service -/

/-- The entries of one service in the two dictionaries. -/
structure Watch where
  lastState : Option String
  lastAlertTime : ℚ

def watch (service : String) (engine : Engine) : Watch :=
  ⟨engine.lastState service, engine.lastAlertTime service⟩

/-- The call reports a state that differs from the last one.  A healthy first report is
not a change. -/
def Changes (oldState : Option String) (call : Call) : Prop :=
  oldState ≠ some call.newState ∧ ¬(oldState = none ∧ call.newState = "ok")

instance (oldState : Option String) (call : Call) : Decidable (Changes oldState call) :=
  inferInstanceAs (Decidable (_ ∧ _))

/-- The change ends a state other than `ok`. -/
def Recovers (oldState : Option String) (call : Call) : Prop :=
  call.newState = "ok" ∧ oldState ≠ none ∧ oldState ≠ some "ok"

instance (oldState : Option String) (call : Call) : Decidable (Recovers oldState call) :=
  inferInstanceAs (Decidable (_ ∧ _))

/-- The call reports a change that operators want to hear of. -/
def Alarms (oldState : Option String) (call : Call) : Prop :=
  Changes oldState call ∧ call.newState ≠ "ok" ∧ call.shouldAlert

instance (oldState : Option String) (call : Call) : Decidable (Alarms oldState call) :=
  inferInstanceAs (Decidable (_ ∧ _))

/-- The cooldown that the last notification started is over. -/
def Cooled (alertCooldown : ℚ) (w : Watch) (call : Call) : Prop :=
  alertCooldown ≤ call.now - w.lastAlertTime

instance (alertCooldown : ℚ) (w : Watch) (call : Call) :
    Decidable (Cooled alertCooldown w call) := inferInstanceAs (Decidable (_ ≤ _))

/-- The rows that a call adds to the audit table. -/
def rows (oldState : Option String) (call : Call) : List Effect :=
  if Changes oldState call then
    if Recovers oldState call then
      [stateEvent oldState call, recoveredEvent oldState call]
    else [stateEvent oldState call]
  else []

/-- The messages that a call sends. -/
def messages (alertCooldown : ℚ) (w : Watch) (call : Call) : List Effect :=
  if Alarms w.lastState call ∧ Cooled alertCooldown w call then
    [alertEmail w.lastState call, alertSms call]
  else []

/-- The engine as one service sees it. -/
def track (alertCooldown : ℚ) (w : Watch) (call : Call) : Watch × List Effect :=
  (⟨some call.newState,
      if Alarms w.lastState call ∧ Cooled alertCooldown w call then call.now
      else w.lastAlertTime⟩,
    rows w.lastState call ++ messages alertCooldown w call)

theorem checkAndAlert_effects (alertCooldown : ℚ) (engine : Engine) (call : Call) :
    (checkAndAlert alertCooldown engine call).2 =
      (track alertCooldown (watch call.service engine) call).2 := by
  simp only [checkAndAlert, track, watch, rows, messages, Alarms, Changes, Recovers, Cooled]
  split_ifs <;> simp_all

theorem checkAndAlert_watch (alertCooldown : ℚ) (engine : Engine) (call : Call) :
    watch call.service (checkAndAlert alertCooldown engine call).1 =
      (track alertCooldown (watch call.service engine) call).1 := by
  simp only [checkAndAlert, track, watch, Alarms, Changes, Cooled]
  split_ifs <;> simp_all

theorem checkAndAlert_other (alertCooldown : ℚ) (engine : Engine) (call : Call)
    (service : String) (hother : call.service ≠ service) :
    watch service (checkAndAlert alertCooldown engine call).1 = watch service engine := by
  simp only [checkAndAlert, watch]
  split_ifs <;> simp [Function.update_of_ne hother.symm]

/-- The engine runs one machine for each service. -/
theorem checkAndAlert_separates (alertCooldown : ℚ) :
    Keyed.Separates (checkAndAlert alertCooldown) Call.service watch
      (track alertCooldown) where
  output := checkAndAlert_effects alertCooldown
  own := checkAndAlert_watch alertCooldown
  other := checkAndAlert_other alertCooldown

/-! ## Runs -/

/-- The calls of a run, each with what it did. -/
def history (alertCooldown : ℚ) (calls : List Call) : List (Call × List Effect) :=
  Keyed.outputs (checkAndAlert alertCooldown) newEngine calls

/-- The part of a history that is about one service. -/
def about (service : String) (log : List (Call × List Effect)) :
    List (Call × List Effect) :=
  log.filter (fun entry => entry.1.service = service)

/-- The part of a run that is about one service. -/
def reports (service : String) (calls : List Call) : List Call :=
  calls.filter (fun call => call.service = service)

/-- A service about which nothing was reported. -/
def unseen : Watch := ⟨none, 0⟩

theorem about_history (alertCooldown : ℚ) (calls : List Call) (service : String) :
    about service (history alertCooldown calls) =
      Keyed.outputs (track alertCooldown) unseen (reports service calls) :=
  Keyed.outputs_filter (checkAndAlert_separates alertCooldown) service newEngine calls

def Effect.isEvent : Effect → Bool
  | recordEvent .. => true
  | _ => false

def Effect.isEmail : Effect → Bool
  | sendAlertEmail .. => true
  | _ => false

/-- The audit rows among the effects of a call. -/
def recorded (effects : List Effect) : List Effect := effects.filter Effect.isEvent

/-- The calls of a history that sent a notification. -/
def notified (log : List (Call × List Effect)) : List Call :=
  (log.filter (fun entry => entry.2.any Effect.isEmail)).map Prod.fst

@[simp]
theorem recorded_track (alertCooldown : ℚ) (w : Watch) (call : Call) :
    recorded (track alertCooldown w call).2 = rows w.lastState call := by
  simp only [track, recorded, rows, messages, stateEvent, recoveredEvent, alertEmail,
    alertSms]
  split_ifs <;> rfl

theorem any_isEmail_track (alertCooldown : ℚ) (w : Watch) (call : Call) :
    (track alertCooldown w call).2.any Effect.isEmail =
      decide (Alarms w.lastState call ∧ Cooled alertCooldown w call) := by
  simp only [track, rows, messages, stateEvent, recoveredEvent, alertEmail, alertSms]
  split_ifs <;> simp [Effect.isEmail, *]

@[simp]
theorem lastState_track (alertCooldown : ℚ) (w : Watch) (call : Call) :
    (track alertCooldown w call).1.lastState = some call.newState := rfl

theorem lastAlertTime_track (alertCooldown : ℚ) (w : Watch) (call : Call) :
    (track alertCooldown w call).1.lastAlertTime =
      if Alarms w.lastState call ∧ Cooled alertCooldown w call then call.now
      else w.lastAlertTime := rfl

@[simp]
theorem notified_nil : notified [] = [] := rfl

theorem notified_append (first rest : List (Call × List Effect)) :
    notified (first ++ rest) = notified first ++ notified rest := by
  simp [notified]

/-- One call sends a notification when it alarms after the cooldown. -/
theorem notified_track_cons (alertCooldown : ℚ) (w : Watch) (call : Call)
    (rest : List Call) :
    notified (Keyed.outputs (track alertCooldown) w (call :: rest)) =
      (if Alarms w.lastState call ∧ Cooled alertCooldown w call then [call] else []) ++
        notified (Keyed.outputs (track alertCooldown) (track alertCooldown w call).1 rest) := by
  rw [Keyed.outputs_cons, notified, List.filter_cons, any_isEmail_track]
  split_ifs with hcond hsend hsend
  · rfl
  · simp_all
  · simp_all
  · rfl

end FastTAK.Alerts
