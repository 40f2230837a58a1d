import FastTAK.Monitor.AlertHistory
import FastTAK.Monitor.EvaluatorSpec
import FastTAK.Monitor.Poll

/-!
# When a lasting outage is heard

A state that lasts is notified at the poll that finds it or not at all: later polls find no
change.  So an outage is heard exactly when that poll comes after the cooldown.
-/

namespace FastTAK.Alerts

/-! ## A state that lasts -/

variable {alertCooldown : ℚ}

/-- A state that is known already sends nothing. -/
theorem notified_of_known {w : Watch} {calls : List Call} {state : String}
    (hknown : w.lastState = some state) (hlasts : ∀ call ∈ calls, call.newState = state) :
    notified (Keyed.outputs (track alertCooldown) w calls) = [] := by
  induction calls generalizing w with
  | nil => rfl
  | cons call rest ih =>
      have hstate : call.newState = state := hlasts call (by simp)
      have hsame : ¬Alarms w.lastState call := by
        intro halarm
        apply halarm.1.1
        rw [hknown, hstate]
      have hnext : (track alertCooldown w call).1.lastState = some state := by
        rw [lastState_track, hstate]
      rw [notified_track_cons, if_neg (fun hsend => hsame hsend.1), List.nil_append]
      apply ih hnext
      intro later hlater
      exact hlasts later (List.mem_cons_of_mem _ hlater)

/-- A state that lasts sends at its first call or never. -/
theorem notified_of_lasts {w : Watch} {first : Call} {rest : List Call} {state : String}
    (hstate : state ≠ "ok")
    (hlasts : ∀ call ∈ first :: rest, call.newState = state ∧ call.shouldAlert) :
    notified (Keyed.outputs (track alertCooldown) w (first :: rest)) =
      if w.lastState ≠ some state ∧ Cooled alertCooldown w first then [first] else [] := by
  obtain ⟨hfirst, halert⟩ := hlasts first (by simp)
  have halarm : Alarms w.lastState first ↔ w.lastState ≠ some state := by
    simp [Alarms, Changes, hfirst, hstate, halert]
  have hrest : notified
      (Keyed.outputs (track alertCooldown) (track alertCooldown w first).1 rest) = [] := by
    have hknown : (track alertCooldown w first).1.lastState = some state := by
      rw [lastState_track, hfirst]
    apply notified_of_known hknown
    intro call hcall
    exact (hlasts call (List.mem_cons_of_mem _ hcall)).1
  rw [notified_track_cons, hrest, List.append_nil]
  simp only [halarm]

end FastTAK.Alerts

namespace FastTAK.Health

open FastTAK.Alerts (Call Watch)

variable {alertCooldown : ℚ}

/-- Times do not decrease. -/
def Ordered (polls : List Poll) : Prop :=
  polls.Pairwise (fun first later => first.now ≤ later.now)

/-- The polls that sent a notification. -/
def sent (alertCooldown : ℚ) (polls : List Poll) : List Poll :=
  ((history alertCooldown polls).filter
    (fun entry => entry.2.any Alerts.Effect.isEmail)).map Prod.fst

/-- The poll reports the state. -/
def Poll.Names (p : Poll) (state : String) : Prop :=
  ∃ call ∈ p.report, call.newState = state

/-- Since `since`, every poll of the service reports the same state as worth an alert. -/
def Lasts (polls : List Poll) (service : String) (since : ℚ) (state : String) : Prop :=
  ∀ p ∈ polls, p.service = service → since ≤ p.now →
    ∃ call ∈ p.report, call.newState = state ∧ call.shouldAlert

/-- The last poll of the run is one of the service, not before `since` and a cooldown after
every notification of the service from before `since`. -/
def Due (alertCooldown : ℚ) (polls : List Poll) (service : String) (since : ℚ) : Prop :=
  ∃ last ∈ polls.getLast?, last.service = service ∧ since ≤ last.now ∧
    ∀ p ∈ sent alertCooldown polls, p.service = service → p.now < since →
      p.now + alertCooldown ≤ last.now

/-- A notification of the service that names the state went out since `since`. -/
def Heard (alertCooldown : ℚ) (polls : List Poll) (service : String) (since : ℚ)
    (state : String) : Prop :=
  ∃ p ∈ sent alertCooldown polls, p.service = service ∧ since ≤ p.now ∧ p.Names state

/-- What the engine knew of the service before `since`. -/
def watchBefore (alertCooldown : ℚ) (polls : List Poll) (service : String) (since : ℚ) :
    Watch :=
  Alerts.watch service
    (Keyed.after (poll alertCooldown) newMonitor
      (polls.filter (fun p => p.now < since))).engine

/-- The first poll of the service since `since` finds another state, after the cooldown. -/
def FoundCooled (alertCooldown : ℚ) (polls : List Poll) (service : String) (since : ℚ)
    (state : String) : Prop :=
  (watchBefore alertCooldown polls service since).lastState ≠ some state ∧
    ∃ first ∈ (polls.filter (fun p => p.service = service ∧ since ≤ p.now)).head?,
      alertCooldown ≤ first.now - (watchBefore alertCooldown polls service since).lastAlertTime

/-! ## From polls to calls -/

theorem engine_after (m : Monitor) (polls : List Poll) :
    (Keyed.after (poll alertCooldown) m polls).engine =
      Keyed.after (Alerts.checkAndAlert alertCooldown) m.engine (calls polls) := by
  induction polls generalizing m with
  | nil => rfl
  | cons p rest ih =>
      rw [Keyed.after_cons, ih]
      cases heval : p.evaluated with
      | none => simp [poll, Poll.report, heval, calls]
      | some e => simp [poll, Poll.report, heval, calls]

/-- The calls about one service. -/
def reportsOf (service : String) (polls : List Poll) : List Call :=
  Alerts.reports service (calls polls)

theorem watchBefore_eq (polls : List Poll) (service : String) (since : ℚ) :
    watchBefore alertCooldown polls service since =
      Keyed.after (Alerts.track alertCooldown) Alerts.unseen
        (reportsOf service (polls.filter (fun p => p.now < since))) := by
  rw [watchBefore, engine_after]
  exact Keyed.view_after (Alerts.checkAndAlert_separates alertCooldown) service _ _

theorem mem_reportsOf {service : String} {polls : List Poll} {call : Call} :
    call ∈ reportsOf service polls ↔
      ∃ p ∈ polls, p.report = some call ∧ p.service = service := by
  rw [reportsOf, Alerts.reports, calls, List.mem_filter, List.mem_filterMap]
  constructor
  · intro hmem
    obtain ⟨⟨p, hp, hreport⟩, hservice⟩ := hmem
    have hsame : call.service = p.service := (Poll.report_eq_some hreport).2
    exact ⟨p, hp, hreport, by simpa [hsame] using hservice⟩
  · intro hmem
    obtain ⟨p, hp, hreport, hservice⟩ := hmem
    have hsame : call.service = p.service := (Poll.report_eq_some hreport).2
    exact ⟨⟨p, hp, hreport⟩, by simpa [hsame] using hservice⟩

theorem reportsOf_append (service : String) (first rest : List Poll) :
    reportsOf service (first ++ rest) = reportsOf service first ++ reportsOf service rest := by
  simp [reportsOf, Alerts.reports, calls]

/-- A run falls into what came before a time and what came since. -/
theorem split_ordered {polls : List Poll} (htimes : Ordered polls) (since : ℚ) :
    polls = polls.filter (fun p => p.now < since) ++
      polls.filter (fun p => since ≤ p.now) := by
  induction polls with
  | nil => rfl
  | cons p rest ih =>
      obtain ⟨hhead, htail⟩ := List.pairwise_cons.mp htimes
      by_cases hbefore : p.now < since
      · rw [List.filter_cons_of_pos (by simpa using hbefore),
          List.filter_cons_of_neg (by simpa using hbefore), List.cons_append, ← ih htail]
      · have hsince : since ≤ p.now := not_lt.mp hbefore
        have hnone : rest.filter (fun q => decide (q.now < since)) = [] := by
          rw [List.filter_eq_nil_iff]
          intro q hq
          have hlater := hhead q hq
          simp only [decide_eq_true_eq, not_lt]
          exact hsince.trans hlater
        have hall : rest.filter (fun q => decide (since ≤ q.now)) = rest := by
          rw [List.filter_eq_self]
          intro q hq
          exact decide_eq_true (hsince.trans (hhead q hq))
        rw [List.filter_cons_of_neg (by simpa using hbefore),
          List.filter_cons_of_pos (by simpa using hsince), hnone, hall, List.nil_append]

/-- Notifications of the service, read off its calls alone. -/
theorem heard_iff_notified (polls : List Poll) (service : String) (since : ℚ)
    (state : String) :
    Heard alertCooldown polls service since state ↔
      ∃ call ∈ Alerts.notified (Keyed.outputs (Alerts.track alertCooldown) Alerts.unseen
        (reportsOf service polls)), since ≤ call.now ∧ call.newState = state := by
  have hsent := notified_outputs alertCooldown newMonitor polls
  have habout := Alerts.about_history alertCooldown (calls polls) service
  rw [reportsOf, ← habout]
  constructor
  · intro hheard
    obtain ⟨p, hp, hservice, htime, call, hreport, hstate⟩ := hheard
    obtain ⟨hnow, hsame⟩ := Poll.report_eq_some hreport
    obtain ⟨entry, hentry, rfl⟩ := List.mem_map.mp hp
    have hcall : call ∈ Alerts.notified (Alerts.history alertCooldown (calls polls)) := by
      have hmem : call ∈ ((history alertCooldown polls).filter
          (fun entry => entry.2.any Alerts.Effect.isEmail)).filterMap
            (fun entry => entry.1.report) :=
        List.mem_filterMap.mpr ⟨entry, hentry, hreport⟩
      rw [history, hsent] at hmem
      exact hmem
    obtain ⟨served, hserved, rfl⟩ := List.mem_map.mp hcall
    obtain ⟨hlog, hemail⟩ := List.mem_filter.mp hserved
    have hkeep : served ∈ Alerts.about service (Alerts.history alertCooldown (calls polls)) :=
      List.mem_filter.mpr ⟨hlog, by simpa [hsame] using hservice⟩
    exact ⟨served.1, List.mem_map.mpr ⟨served, List.mem_filter.mpr ⟨hkeep, hemail⟩, rfl⟩,
      hnow ▸ htime, hstate⟩
  · intro hnotified
    obtain ⟨call, hcall, htime, hstate⟩ := hnotified
    obtain ⟨served, hserved, rfl⟩ := List.mem_map.mp hcall
    obtain ⟨hkeep, hemail⟩ := List.mem_filter.mp hserved
    obtain ⟨hlog, hservice⟩ := List.mem_filter.mp hkeep
    have hmem : served.1 ∈ Alerts.notified (Alerts.history alertCooldown (calls polls)) :=
      List.mem_map.mpr ⟨served, List.mem_filter.mpr ⟨hlog, hemail⟩, rfl⟩
    rw [Alerts.history] at hmem
    change served.1 ∈ Alerts.notified (Keyed.outputs _ newMonitor.engine _) at hmem
    rw [← hsent, List.mem_filterMap] at hmem
    obtain ⟨entry, hentry, hreport⟩ := hmem
    obtain ⟨hnow, hsame⟩ := Poll.report_eq_some hreport
    have hsentBy : entry.1 ∈ sent alertCooldown polls := List.mem_map.mpr ⟨entry, hentry, rfl⟩
    have hof : entry.1.service = service := by rw [← hsame]; simpa using hservice
    exact ⟨entry.1, hsentBy, hof, hnow ▸ htime, served.1, hreport, hstate⟩

/-! ## The first poll decides -/

/-- The reports since `since` begin with that of the first poll. -/
theorem head_reportsOf {polls : List Poll} {service : String} {since : ℚ} {state : String}
    (hlasts : Lasts polls service since state) {first : Poll}
    (hfirst : (polls.filter (fun p => p.service = service ∧ since ≤ p.now)).head? =
      some first) :
    ∃ call rest, first.report = some call ∧
      reportsOf service (polls.filter (fun p => since ≤ p.now)) = call :: rest := by
  induction polls with
  | nil => simp at hfirst
  | cons p rest ih =>
      have hrest : Lasts rest service since state := fun q hq =>
        hlasts q (List.mem_cons_of_mem _ hq)
      by_cases hsince : since ≤ p.now
      · rw [List.filter_cons_of_pos (by simpa using hsince)]
        by_cases hservice : p.service = service
        · obtain ⟨call, hmem, _⟩ := hlasts p (by simp) hservice hsince
          have hreport : p.report = some call := hmem
          rw [List.filter_cons_of_pos (by simp [hservice, hsince]), List.head?_cons,
            Option.some.injEq] at hfirst
          subst hfirst
          have hsame : call.service = service := by
            rw [(Poll.report_eq_some hreport).2, hservice]
          exact ⟨call, reportsOf service (rest.filter (fun q => since ≤ q.now)), hreport,
            by simp [reportsOf, Alerts.reports, calls, hreport, hsame]⟩
        · rw [List.filter_cons_of_neg (by simp [hservice])] at hfirst
          obtain ⟨call, others, hreport, hothers⟩ := ih hrest hfirst
          have hskip : reportsOf service [p] = [] := by
            rw [List.eq_nil_iff_forall_not_mem]
            intro call hcall
            obtain ⟨q, hq, _, hof⟩ := mem_reportsOf.mp hcall
            rw [List.mem_singleton] at hq
            exact hservice (hq ▸ hof)
          refine ⟨call, others, hreport, ?_⟩
          rw [← List.singleton_append, reportsOf_append, hskip, hothers, List.nil_append]
      · rw [List.filter_cons_of_neg (by simp [hsince])] at hfirst
        rw [List.filter_cons_of_neg (by simpa using hsince)]
        exact ih hrest hfirst

instance (polls : List Poll) : Decidable (Ordered polls) :=
  inferInstanceAs (Decidable (polls.Pairwise _))

instance (p : Poll) (state : String) : Decidable (p.Names state) :=
  inferInstanceAs (Decidable (∃ call ∈ p.report, _))

instance (polls : List Poll) (service : String) (since : ℚ) (state : String) :
    Decidable (Lasts polls service since state) :=
  inferInstanceAs (Decidable (∀ p ∈ polls, _))

instance (polls : List Poll) (service : String) (since : ℚ) :
    Decidable (Due alertCooldown polls service since) :=
  inferInstanceAs (Decidable (∃ last ∈ polls.getLast?, _))

instance (polls : List Poll) (service : String) (since : ℚ) (state : String) :
    Decidable (Heard alertCooldown polls service since state) :=
  inferInstanceAs (Decidable (∃ p ∈ sent alertCooldown polls, _))

def expiryPoll (now : ℚ) (days : ℕ) : Poll where
  now := now
  service := "tls"
  result := .ok (.items [[("domain", .str "tak.example"),
    ("days_left", .num days (toString days))]])
  config := expiryConfig

/-- A warning, a critical state a hundred seconds later, and again two hours after that. -/
def escalation : List Poll :=
  [expiryPoll 1000000 30, expiryPoll 1000100 7, expiryPoll 1007300 7]

end FastTAK.Health
