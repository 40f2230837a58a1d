import FastTAK.Monitor.Alerts

/-!
# The history law of the alert engine

The calls about one service, each paired with the state reported before it, determine
the audit rows of that service and bound its notifications.
-/

namespace FastTAK.Alerts

/-- Each call with the state that the call before it reported. -/
def observations (oldState : Option String) (calls : List Call) :
    List (Option String × Call) :=
  (oldState :: calls.map (fun call => some call.newState)).zip calls

@[simp]
theorem observations_nil (oldState : Option String) : observations oldState [] = [] := rfl

@[simp]
theorem observations_cons (oldState : Option String) (call : Call) (rest : List Call) :
    observations oldState (call :: rest) =
      (oldState, call) :: observations (some call.newState) rest := rfl

/-- The calls that may send a notification. -/
def alarms (oldState : Option String) (calls : List Call) : List Call :=
  ((observations oldState calls).filter (fun seen => Alarms seen.1 seen.2)).map Prod.snd

theorem alarms_cons (oldState : Option String) (call : Call) (rest : List Call) :
    alarms oldState (call :: rest) =
      (if Alarms oldState call then [call] else []) ++ alarms (some call.newState) rest := by
  rw [alarms, observations_cons, List.filter_cons]
  by_cases halarm : Alarms oldState call
  · simp [halarm, alarms]
  · simp [halarm, alarms]

/-! ## One service -/

variable {alertCooldown : ℚ}

/-- Each call records the rows that its change calls for. -/
theorem recorded_outputs (w : Watch) (calls : List Call) :
    (Keyed.outputs (track alertCooldown) w calls).map (fun entry => recorded entry.2) =
      (observations w.lastState calls).map (fun seen => rows seen.1 seen.2) := by
  induction calls generalizing w with
  | nil => rfl
  | cons call rest ih =>
      rw [Keyed.outputs_cons, List.map_cons, ih, recorded_track, lastState_track,
        observations_cons, List.map_cons]

/-- Only changes that alarm send notifications. -/
theorem notified_sublist (w : Watch) (calls : List Call) :
    (notified (Keyed.outputs (track alertCooldown) w calls)).Sublist
      (alarms w.lastState calls) := by
  induction calls generalizing w with
  | nil => exact List.Sublist.refl _
  | cons call rest ih =>
      rw [notified_track_cons, alarms_cons]
      apply List.Sublist.append
      · by_cases halarm : Alarms w.lastState call
        · by_cases hcooled : Cooled alertCooldown w call
          · simp [halarm, hcooled]
          · simp [hcooled]
        · simp [halarm]
      · exact ih (track alertCooldown w call).1

theorem mem_of_mem_notified {w : Watch} {calls : List Call} {call : Call}
    (hcall : call ∈ notified (Keyed.outputs (track alertCooldown) w calls)) :
    call ∈ calls := by
  rw [notified, List.mem_map] at hcall
  obtain ⟨entry, hentry, rfl⟩ := hcall
  exact Keyed.mem_of_mem_outputs (List.mem_of_mem_filter hentry)

/-- Every notification keeps its distance from the one remembered at the start. -/
theorem cooled_of_mem_notified {w : Watch} {calls : List Call}
    (htimes : calls.Pairwise (fun first later => first.now ≤ later.now)) {call : Call}
    (hcall : call ∈ notified (Keyed.outputs (track alertCooldown) w calls)) :
    Cooled alertCooldown w call := by
  induction calls generalizing w with
  | nil => simp [Keyed.outputs] at hcall
  | cons head rest ih =>
      rw [List.pairwise_cons] at htimes
      rw [notified_track_cons, List.mem_append] at hcall
      by_cases hsend : Alarms w.lastState head ∧ Cooled alertCooldown w head
      · rw [if_pos hsend, List.mem_singleton] at hcall
        cases hcall with
        | inl hhead => exact hhead ▸ hsend.2
        | inr hrest =>
            have hlater : head.now ≤ call.now := htimes.1 call (mem_of_mem_notified hrest)
            have hcooled : Cooled alertCooldown w head := hsend.2
            unfold Cooled at hcooled ⊢
            linarith
      · rw [if_neg hsend] at hcall
        cases hcall with
        | inl hhead => simp at hhead
        | inr hrest =>
            have hcooled := ih htimes.2 hrest
            rwa [Cooled, lastAlertTime_track, if_neg hsend] at hcooled

theorem notified_pairwise (w : Watch) {calls : List Call}
    (htimes : calls.Pairwise (fun first later => first.now ≤ later.now)) :
    (notified (Keyed.outputs (track alertCooldown) w calls)).Pairwise
      (fun first later => alertCooldown ≤ later.now - first.now) := by
  induction calls generalizing w with
  | nil => exact List.Pairwise.nil
  | cons call rest ih =>
      rw [List.pairwise_cons] at htimes
      rw [notified_track_cons]
      by_cases hsend : Alarms w.lastState call ∧ Cooled alertCooldown w call
      · rw [if_pos hsend]
        apply List.Pairwise.cons _ (ih _ htimes.2)
        intro later hlater
        have hcooled := cooled_of_mem_notified htimes.2 hlater
        rwa [Cooled, lastAlertTime_track, if_pos hsend] at hcooled
      · rw [if_neg hsend]
        exact ih _ htimes.2

/-! ## All services -/

theorem reports_pairwise {calls : List Call} (service : String)
    (htimes : calls.Pairwise (fun first later => first.now ≤ later.now)) :
    (reports service calls).Pairwise (fun first later => first.now ≤ later.now) :=
  htimes.sublist List.filter_sublist

/-- A day in the life of two services: a warning that recovers, next to a healthy one. -/
def quietDay : List Call :=
  [⟨1000, "tls", "warning", "days_left is 30", true⟩, ⟨1000, "disk", "ok", "", false⟩,
    ⟨1060, "tls", "ok", "", false⟩, ⟨1500, "tls", "critical", "days_left is 7", true⟩]

end FastTAK.Alerts
