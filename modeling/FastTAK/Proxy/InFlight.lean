import Mathlib
import FastTAK.Proxy.RateLimit

/-!
# Requests in flight

A request to `/auth/verify` passes the limiter, binds, and records its failure, and other
requests act in between.  A bound on failed checks follows where the limiter's count and the
requests under way together stay within the budget.
-/

namespace FastTAK.RateLimit

/-! ## Interleavings -/

/-- The limiter, and for each address how many requests have passed it and are not checked yet,
and how many failed and are not recorded yet.  The times of failed checks and the deadlines of
lockouts are kept for the record. -/
structure Flight where
  limiter : RateLimiter
  now : ℕ
  unchecked : String → ℕ
  failed : String → ℕ
  checks : String → List ℕ
  lockouts : String → List ℤ

inductive Event
  | enter (ip : String)
  | pass (ip : String)
  | fail (ip : String)
  | missing (ip : String)
  | record (ip : String)
  | tick (elapsed : ℕ)

def Event.ip : Event → Option String
  | .enter ip | .pass ip | .fail ip | .missing ip | .record ip => some ip
  | .tick _ => none

namespace Flight

/-- `Middleware`: a refused request ends there. -/
def enter (ip : String) (f : Flight) : Flight :=
  if (f.limiter.checkLockout ip f.now).1 then
    { f with unchecked := Function.update f.unchecked ip (f.unchecked ip + 1) }
  else f

/-- The bind succeeds, or the request ends without a 401. -/
def pass (ip : String) (f : Flight) : Flight :=
  { f with unchecked := Function.update f.unchecked ip (f.unchecked ip - 1) }

/-- There are no credentials: a 401 without a bind. -/
def missing (ip : String) (f : Flight) : Flight :=
  if 0 < f.unchecked ip then
    { f.pass ip with failed := Function.update f.failed ip (f.failed ip + 1) }
  else f

/-- The bind fails. -/
def fail (ip : String) (f : Flight) : Flight :=
  if 0 < f.unchecked ip then
    { f.missing ip with checks := Function.update f.checks ip (f.now :: f.checks ip) }
  else f

/-- `recordFailure`. -/
def record (ip : String) (f : Flight) : Flight :=
  if 0 < f.failed ip then
    let limiter := f.limiter.recordFailure ip f.now
    let deadline := (limiter.entry ip).lockoutUntil
    { f with
      limiter
      failed := Function.update f.failed ip (f.failed ip - 1)
      lockouts :=
        if deadline = (f.limiter.entry ip).lockoutUntil then f.lockouts
        else Function.update f.lockouts ip (deadline :: f.lockouts ip) }
  else f

def apply (f : Flight) : Event → Flight
  | .enter ip => f.enter ip
  | .pass ip => f.pass ip
  | .fail ip => f.fail ip
  | .missing ip => f.missing ip
  | .record ip => f.record ip
  | .tick elapsed => { f with now := f.now + elapsed }

def start (limits : Limits) (now : ℕ) : Flight where
  limiter := newRateLimiter limits
  now := now
  unchecked _ := 0
  failed _ := 0
  checks _ := []
  lockouts _ := []

/-- The failed checks of an address from one time to another. -/
def checksIn (f : Flight) (ip : String) (a b : ℤ) : ℕ :=
  (f.checks ip).countP fun time : ℕ => a ≤ time ∧ time ≤ b

/-- No lockout of the address expires from one time to the other. -/
def Unexpired (f : Flight) (ip : String) (a b : ℤ) : Prop :=
  ∀ deadline ∈ f.lockouts ip, ¬ (a ≤ deadline ∧ deadline ≤ b)

/-- The requests of an address that have passed the limiter and are not done with it. -/
def outstanding (f : Flight) (ip : String) : ℕ := f.unchecked ip + f.failed ip

/-- The failures in the window that were counted since the last lockout of the address. -/
def recent (f : Flight) (ip : String) : ℕ :=
  (f.limiter.entry ip).failures.countP fun time =>
    f.now - f.limiter.window < time ∧ (f.limiter.entry ip).lockoutUntil ≤ time

end Flight

/-- A request only passes the limiter if the failures that count and the requests under way
leave room for one more. -/
def Careful (f : Flight) : Event → Prop
  | .enter ip => (f.limiter.checkLockout ip f.now).1 →
      (f.outstanding ip + f.recent ip : ℤ) < f.limiter.maxAttempts
  | _ => True

/-- The states that careful events lead to. -/
inductive Flies (limits : Limits) : Flight → Prop
  | start (now : ℕ) : Flies limits (.start limits now)
  | event {f : Flight} {event : Event} (hf : Flies limits f) (hcareful : Careful f event) :
      Flies limits (f.apply event)

/-! ## What careful events keep -/

/-- The history of an address.  `counted` are the times of the failures that the limiter has
taken up, `ignored` of those that it met during a lockout. -/
structure Bounded (limits : Limits) (ip : String) (f : Flight) (counted ignored : List ℤ) :
    Prop where
  same : f.limiter.toLimits = limits
  fresh : ∀ t : ℤ, f.now ≤ t →
    (f.limiter.entry ip).failures.filter (fun ts => t - limits.window < ts) =
      counted.filter (fun ts => t - limits.window < ts)
  nonneg : ∀ t ∈ counted, 0 ≤ t
  missed : ∀ t ∈ ignored, 0 ≤ t ∧ t < (f.limiter.entry ip).lockoutUntil
  deadline : (f.limiter.entry ip).lockoutUntil = 0 ∨
    (f.limiter.entry ip).lockoutUntil ∈ f.lockouts ip
  past : ∀ time ∈ f.checks ip, time ≤ f.now
  recorded : ∀ a ≤ (f.now : ℤ), f.checksIn ip a f.now ≤
    f.failed ip + counted.countP (a ≤ ·) + ignored.countP (a ≤ ·)
  unchecked : (f.unchecked ip : ℤ) ≤ limits.maxAttempts
  bound : ∀ a, f.Unexpired ip a f.now → f.now - a < limits.window →
    (f.checksIn ip a f.now + f.unchecked ip : ℤ) ≤ limits.maxAttempts

section Steps

variable {limits : Limits} {ip other : String} {f : Flight} {counted ignored : List ℤ}

theorem checksIn_of_lt (hpast : ∀ time ∈ f.checks ip, time ≤ f.now) {a b : ℤ} (ha : f.now < a) :
    f.checksIn ip a b = 0 := by
  apply List.countP_eq_zero.mpr
  intro time htime h
  have hle := hpast time htime
  simp only [decide_eq_true_eq] at h
  omega

theorem checksIn_eq_now (hpast : ∀ time ∈ f.checks ip, time ≤ f.now) {a b : ℤ}
    (hb : f.now ≤ b) : f.checksIn ip a b = f.checksIn ip a f.now := by
  apply List.countP_congr
  intro time htime
  have hle : (time : ℤ) ≤ f.now := by exact_mod_cast hpast time htime
  simp only [decide_eq_true_eq]
  constructor
  · exact fun h => ⟨h.1, hle⟩
  · exact fun h => ⟨h.1, hle.trans hb⟩

theorem bounded_start (limits : Limits) (hmax : 0 ≤ limits.maxAttempts) (ip : String) (now : ℕ) :
    Bounded limits ip (.start limits now) [] [] where
  same := rfl
  fresh _ _ := rfl
  nonneg := by simp
  missed := by simp
  deadline := Or.inl rfl
  past := by simp [Flight.start]
  recorded := by simp [Flight.start, Flight.checksIn]
  unchecked := by simpa [Flight.start] using hmax
  bound := by simpa [Flight.start, Flight.checksIn] using fun _ _ _ => hmax

/-- When the limiter lets a request pass, every check since the last expiry is under way or
counted. -/
theorem checksIn_le (hf : Bounded limits ip f counted ignored)
    (hopen : (f.limiter.entry ip).lockoutUntil ≤ f.now) {a : ℤ} (hle : a ≤ f.now)
    (hunexpired : f.Unexpired ip a f.now) (hwindow : f.now - a < limits.window) :
    f.checksIn ip a f.now ≤ f.failed ip + f.recent ip := by
  have hdeadline : ∀ t : ℤ, 0 ≤ t → a ≤ t → (f.limiter.entry ip).lockoutUntil ≤ t := by
    intro t ht hat
    rcases hf.deadline with hnever | hlocked
    · rw [hnever]
      exact ht
    · by_contra hlt
      exact hunexpired _ hlocked ⟨by omega, hopen⟩
  have hignored : ignored.countP (a ≤ ·) = 0 := by
    apply List.countP_eq_zero.mpr
    intro t ht hat
    obtain ⟨hnonneg, hlocked⟩ := hf.missed t ht
    have hle := hdeadline t hnonneg (by simpa using hat)
    omega
  have hcounted : counted.countP (a ≤ ·) ≤ f.recent ip := by
    have hsplit : counted.countP (a ≤ ·) ≤
        (counted.filter fun t => f.now - limits.window < t).countP
          fun t => (f.limiter.entry ip).lockoutUntil ≤ t := by
      rw [List.countP_filter]
      apply List.countP_mono_left
      intro t ht hat
      have hat : a ≤ t := by simpa using hat
      have hlate := hdeadline t (hf.nonneg t ht) hat
      simp only [Bool.and_eq_true, decide_eq_true_eq]
      exact ⟨hlate, by omega⟩
    rw [← hf.fresh f.now le_rfl, List.countP_filter] at hsplit
    rw [Flight.recent, hf.same]
    apply hsplit.trans
    apply List.countP_mono_left
    intro t _ ht
    simp only [Bool.and_eq_true, decide_eq_true_eq] at ht ⊢
    exact ⟨ht.2, ht.1⟩
  have hrecorded := hf.recorded a hle
  omega

/-- Requests of other addresses change nothing. -/
theorem Bounded.frame {f' : Flight} (hf : Bounded limits ip f counted ignored)
    (hlimits : f'.limiter.toLimits = f.limiter.toLimits)
    (hentry : f'.limiter.entry ip = f.limiter.entry ip) (hnow : f'.now = f.now)
    (hunchecked : f'.unchecked ip = f.unchecked ip) (hfailed : f'.failed ip = f.failed ip)
    (hchecks : f'.checks ip = f.checks ip) (hlockouts : f'.lockouts ip = f.lockouts ip) :
    Bounded limits ip f' counted ignored := by
  obtain ⟨hsame, hfresh, hnonneg, hmissed, hdeadline, hpast, hrecorded, hmax, hbound⟩ := hf
  constructor <;>
    simp only [hlimits, hentry, hnow, hunchecked, hfailed, hchecks, hlockouts, Flight.checksIn,
      Flight.Unexpired] at * <;>
    assumption

/-- Fewer requests wait for their check. -/
theorem Bounded.fewer {f' : Flight} {n : ℕ} (hf : Bounded limits ip f counted ignored)
    (hn : n ≤ f.unchecked ip)
    (hf' : f' = { f with unchecked := Function.update f.unchecked ip n }) :
    Bounded limits ip f' counted ignored := by
  subst hf'
  have hunchecked : (Function.update f.unchecked ip n ip : ℤ) ≤ f.unchecked ip := by
    rw [Function.update_self]
    exact_mod_cast hn
  obtain ⟨hsame, hfresh, hnonneg, hmissed, hdeadline, hpast, hrecorded, hmax, hbound⟩ := hf
  refine ⟨hsame, hfresh, hnonneg, hmissed, hdeadline, hpast, hrecorded, hunchecked.trans hmax,
    ?_⟩
  intro a hunexpired hwindow
  have hle := hbound a hunexpired hwindow
  simp only [Flight.checksIn] at hle ⊢
  omega

/-! ## One event -/

theorem bounded_enter (hf : Bounded limits ip f counted ignored)
    (hopen : (f.limiter.entry ip).lockoutUntil ≤ f.now)
    (hroom : (f.outstanding ip + f.recent ip : ℤ) < limits.maxAttempts) :
    Bounded limits ip
      { f with unchecked := Function.update f.unchecked ip (f.unchecked ip + 1) }
      counted ignored := by
  have hself : Function.update f.unchecked ip (f.unchecked ip + 1) ip = f.unchecked ip + 1 :=
    Function.update_self _ _ _
  rw [Flight.outstanding] at hroom
  push_cast at hroom
  refine ⟨hf.same, hf.fresh, hf.nonneg, hf.missed, hf.deadline, hf.past, hf.recorded, ?_, ?_⟩
  · simp only [hself]
    push_cast
    omega
  · intro a hunexpired hwindow
    have hchecks : f.checksIn ip a f.now ≤ f.failed ip + f.recent ip := by
      rcases le_or_gt a f.now with hle | hlt
      · exact checksIn_le hf hopen hle hunexpired hwindow
      · rw [checksIn_of_lt hf.past hlt]
        omega
    simp only [hself]
    simp only [Flight.checksIn] at hchecks ⊢
    push_cast
    omega

theorem bounded_missing (hf : Bounded limits ip f counted ignored) :
    Bounded limits ip (f.missing ip) counted ignored := by
  rw [Flight.missing]
  split_ifs with hpos
  · have hpass := hf.fewer (Nat.sub_le (f.unchecked ip) 1) rfl
    have hself : Function.update f.failed ip (f.failed ip + 1) ip = f.failed ip + 1 :=
      Function.update_self _ _ _
    refine ⟨hpass.same, hpass.fresh, hpass.nonneg, hpass.missed, hpass.deadline, hpass.past, ?_,
      hpass.unchecked, hpass.bound⟩
    intro a ha
    have hrecorded := hf.recorded a ha
    simp only [hself]
    change f.checksIn ip a f.now ≤ _
    omega
  · exact hf

theorem bounded_fail (hf : Bounded limits ip f counted ignored) :
    Bounded limits ip (f.fail ip) counted ignored := by
  rw [Flight.fail]
  split_ifs with hpos
  · have hmissing := bounded_missing hf
    have hchecks : Function.update f.checks ip (f.now :: f.checks ip) ip =
        f.now :: f.checks ip := Function.update_self _ _ _
    have hfailed : (f.missing ip).failed ip = f.failed ip + 1 := by
      rw [Flight.missing, if_pos hpos]
      exact Function.update_self _ _ _
    have hunchecked : (f.missing ip).unchecked ip = f.unchecked ip - 1 := by
      rw [Flight.missing, if_pos hpos]
      exact Function.update_self _ _ _
    have hsame : (f.missing ip).now = f.now ∧ (f.missing ip).lockouts = f.lockouts := by
      rw [Flight.missing, if_pos hpos]
      exact ⟨rfl, rfl⟩
    obtain ⟨hnow, hlockouts⟩ := hsame
    have hone : ∀ a b : ℤ,
        (f.now :: f.checks ip).countP (fun time : ℕ => a ≤ time ∧ time ≤ b) ≤
          f.checksIn ip a b + 1 := by
      intro a b
      rw [List.countP_cons, Flight.checksIn]
      split_ifs <;> omega
    refine ⟨hmissing.same, hmissing.fresh, hmissing.nonneg, hmissing.missed,
      hmissing.deadline, ?_, ?_, hmissing.unchecked, ?_⟩
    · intro time htime
      simp only [hchecks, hnow] at htime ⊢
      rcases List.mem_cons.mp htime with rfl | hmem
      · exact le_rfl
      · exact hf.past time hmem
    · intro a ha
      have hadd := hone a f.now
      simp only [hnow] at ha
      have hrecorded := hf.recorded a ha
      simp only [Flight.checksIn, hchecks, hfailed, hnow] at hrecorded hadd ⊢
      omega
    · intro a hunexpired hwindow
      have hadd := hone a f.now
      simp only [Flight.Unexpired, hnow, hlockouts] at hunexpired hwindow
      have hbound := hf.bound a hunexpired hwindow
      simp only [Flight.checksIn, hchecks, hunchecked, hnow] at hbound hadd ⊢
      omega
  · exact hf

/-- A failure that is recorded during a lockout is ignored, any other is counted. -/
theorem bounded_record (hlockout : 0 ≤ limits.lockout) (hf : Bounded limits ip f counted ignored) :
    ∃ counted' ignored', Bounded limits ip (f.record ip) counted' ignored' := by
  rw [Flight.record]
  split_ifs with hpos
  swap
  · exact ⟨counted, ignored, hf⟩
  set limiter := f.limiter.recordFailure ip f.now with hlimiter
  set old := (f.limiter.entry ip).lockoutUntil with hold
  set lockouts := if (limiter.entry ip).lockoutUntil = old then f.lockouts
    else Function.update f.lockouts ip ((limiter.entry ip).lockoutUntil :: f.lockouts ip)
    with hlockouts
  have hsame : limiter.toLimits = limits := (recordFailure_limits _ _ _).trans hf.same
  have hself : Function.update f.failed ip (f.failed ip - 1) ip = f.failed ip - 1 :=
    Function.update_self _ _ _
  have hkept : ∀ deadline ∈ f.lockouts ip, deadline ∈ lockouts ip := by
    intro deadline hdeadline
    rw [hlockouts]
    split_ifs
    · exact hdeadline
    · rw [Function.update_self]
      exact List.mem_cons_of_mem _ hdeadline
  have hdeadline : (limiter.entry ip).lockoutUntil = 0 ∨
      (limiter.entry ip).lockoutUntil ∈ lockouts ip := by
    rw [hlockouts]
    split_ifs with hunchanged
    · rw [hunchanged]
      exact hf.deadline
    · rw [Function.update_self]
      exact Or.inr List.mem_cons_self
  have hbound : ∀ a : ℤ, (∀ deadline ∈ lockouts ip, ¬ (a ≤ deadline ∧ deadline ≤ f.now)) →
      f.now - a < limits.window →
      (f.checksIn ip a f.now + f.unchecked ip : ℤ) ≤ limits.maxAttempts :=
    fun a hunexpired => hf.bound a fun deadline hdeadline => hunexpired _ (hkept _ hdeadline)
  have hentry := entry_recordFailure_self f.limiter ip f.now
  by_cases hlocked : (f.now : ℤ) < old
  · have hentry : limiter.entry ip = f.limiter.entry ip := by
      rw [hlimiter, hentry]
      exact if_pos hlocked
    refine ⟨counted, f.now :: ignored, hsame, ?_, hf.nonneg, ?_, hdeadline, hf.past, ?_,
      hf.unchecked, hbound⟩
    · simp only [hentry]
      exact hf.fresh
    · intro t ht
      simp only [hentry]
      rcases List.mem_cons.mp ht with rfl | ht
      · exact ⟨Int.natCast_nonneg _, hlocked⟩
      · exact hf.missed t ht
    · intro a ha
      have hrecorded := hf.recorded a ha
      change f.checksIn ip a f.now ≤ _
      simp only [hself, List.countP_cons, ha, decide_true, if_true]
      omega
  · have hentry : (limiter.entry ip).failures =
          (f.limiter.entry ip).failures.filter (fun ts => f.now - limits.window < ts) ++
            [(f.now : ℤ)] ∧ old ≤ (limiter.entry ip).lockoutUntil := by
      rw [hlimiter, hentry]
      dsimp only
      rw [if_neg hlocked, hf.same]
      split_ifs
      · exact ⟨rfl, by dsimp only; omega⟩
      · exact ⟨rfl, le_rfl⟩
    refine ⟨counted ++ [(f.now : ℤ)], ignored, hsame, ?_, ?_, ?_, hdeadline, hf.past, ?_,
      hf.unchecked, hbound⟩
    · intro t ht
      rw [hentry.1]
      exact fresh_append ht (hf.fresh t ht)
    · intro t ht
      rcases List.mem_append.mp ht with ht | ht
      · exact hf.nonneg t ht
      · rw [List.mem_singleton.mp ht]
        exact Int.natCast_nonneg _
    · intro t ht
      obtain ⟨hnonneg, hbefore⟩ := hf.missed t ht
      exact ⟨hnonneg, lt_of_lt_of_le hbefore hentry.2⟩
    · intro a ha
      have hrecorded := hf.recorded a ha
      change f.checksIn ip a f.now ≤ _
      simp only [hself, List.countP_append, List.countP_singleton, ha, decide_true, if_true]
      omega

theorem bounded_tick (elapsed : ℕ) (hf : Bounded limits ip f counted ignored) :
    Bounded limits ip { f with now := f.now + elapsed } counted ignored := by
  have hnow : (f.now : ℤ) ≤ (f.now + elapsed : ℕ) := by omega
  have hchecks : ∀ a, f.checksIn ip a (f.now + elapsed : ℕ) = f.checksIn ip a f.now :=
    fun a => checksIn_eq_now hf.past hnow
  refine ⟨hf.same, fun t ht => hf.fresh t (hnow.trans ht), hf.nonneg, hf.missed, hf.deadline,
    fun time htime => (hf.past time htime).trans (Nat.le_add_right _ _), ?_, hf.unchecked, ?_⟩
  · intro a _
    change f.checksIn ip a (f.now + elapsed : ℕ) ≤ _
    rw [hchecks]
    rcases le_or_gt a f.now with hle | hlt
    · exact hf.recorded a hle
    · rw [checksIn_of_lt hf.past hlt]
      omega
  · intro a hunexpired hwindow
    change ((f.checksIn ip a (f.now + elapsed : ℕ) : ℕ) + (f.unchecked ip : ℕ) : ℤ) ≤ _
    rw [hchecks]
    rcases le_or_gt a f.now with hle | hlt
    · apply hf.bound a
      · exact fun deadline hdeadline h => hunexpired deadline hdeadline ⟨h.1, h.2.trans hnow⟩
      · exact lt_of_le_of_lt (sub_le_sub_right hnow a) hwindow
    · rw [checksIn_of_lt hf.past hlt]
      simpa using hf.unchecked

/-- An address that is let in has no lockout ahead. -/
theorem lockoutUntil_le (hallowed : (f.limiter.checkLockout ip f.now).1) :
    (f.limiter.entry ip).lockoutUntil ≤ f.now := by
  rw [checkLockout_eq (Int.natCast_nonneg _)] at hallowed
  split_ifs at hallowed with hlocked
  omega

theorem bounded_apply_self (hlockout : 0 ≤ limits.lockout)
    (hf : Bounded limits ip f counted ignored) (event : Event) (hip : event.ip = some ip)
    (hcareful : Careful f event) :
    ∃ counted' ignored', Bounded limits ip (f.apply event) counted' ignored' := by
  cases event with
  | tick elapsed => cases hip
  | enter who =>
      obtain rfl : who = ip := Option.some.inj hip
      refine ⟨counted, ignored, ?_⟩
      rw [Flight.apply, Flight.enter]
      split_ifs with hallowed
      · have hroom := hcareful hallowed
        exact bounded_enter hf (lockoutUntil_le hallowed) (by rw [← hf.same]; exact hroom)
      · exact hf
  | pass who =>
      obtain rfl : who = ip := Option.some.inj hip
      exact ⟨counted, ignored, hf.fewer (Nat.sub_le _ 1) rfl⟩
  | fail who =>
      obtain rfl : who = ip := Option.some.inj hip
      exact ⟨counted, ignored, bounded_fail hf⟩
  | missing who =>
      obtain rfl : who = ip := Option.some.inj hip
      exact ⟨counted, ignored, bounded_missing hf⟩
  | record who =>
      obtain rfl : who = ip := Option.some.inj hip
      exact bounded_record hlockout hf

/-- What other addresses do leaves the history of the address alone. -/
theorem bounded_apply_other (hf : Bounded limits ip f counted ignored) (event : Event)
    (hother : event.ip = some other) (hne : ip ≠ other) :
    Bounded limits ip (f.apply event) counted ignored := by
  cases event with
  | tick elapsed => cases hother
  | enter who =>
      obtain rfl : who = other := Option.some.inj hother
      rw [Flight.apply, Flight.enter]
      split_ifs
      · exact hf.frame rfl rfl rfl (Function.update_of_ne hne _ _) rfl rfl rfl
      · exact hf
  | pass who =>
      obtain rfl : who = other := Option.some.inj hother
      exact hf.frame rfl rfl rfl (Function.update_of_ne hne _ _) rfl rfl rfl
  | missing who =>
      obtain rfl : who = other := Option.some.inj hother
      rw [Flight.apply, Flight.missing]
      split_ifs
      · exact hf.frame rfl rfl rfl (Function.update_of_ne hne _ _)
          (Function.update_of_ne hne _ _) rfl rfl
      · exact hf
  | fail who =>
      obtain rfl : who = other := Option.some.inj hother
      rw [Flight.apply, Flight.fail, Flight.missing]
      split_ifs
      · exact hf.frame rfl rfl rfl (Function.update_of_ne hne _ _)
          (Function.update_of_ne hne _ _) (Function.update_of_ne hne _ _) rfl
      · exact hf
  | record who =>
      obtain rfl : who = other := Option.some.inj hother
      rw [Flight.apply, Flight.record]
      split_ifs with hpos
      · have hlockouts : ∀ deadline old, (if deadline = old then f.lockouts else
            Function.update f.lockouts who (deadline :: f.lockouts who)) ip = f.lockouts ip := by
          intro deadline old
          split_ifs
          · rfl
          · exact Function.update_of_ne hne _ _
        apply hf.frame
        · exact recordFailure_limits _ _ _
        · exact entry_recordFailure_other hne
        · rfl
        · rfl
        · exact Function.update_of_ne hne _ _
        · rfl
        · exact hlockouts _ _
      · exact hf

theorem bounded_apply (hlockout : 0 ≤ limits.lockout) (hf : Bounded limits ip f counted ignored)
    (event : Event) (hcareful : Careful f event) :
    ∃ counted' ignored', Bounded limits ip (f.apply event) counted' ignored' := by
  rcases htick : event.ip with _ | who
  · cases event with
    | tick elapsed => exact ⟨counted, ignored, bounded_tick elapsed hf⟩
    | _ => cases htick
  · by_cases hip : ip = who
    · exact bounded_apply_self hlockout hf event (hip ▸ htick) hcareful
    · exact ⟨counted, ignored, bounded_apply_other hf event htick hip⟩

end Steps

/-! ## Whole runs -/

theorem bounded_flies {limits : Limits} (hlockout : 0 ≤ limits.lockout)
    (hmax : 0 ≤ limits.maxAttempts) (ip : String) {f : Flight} (hf : Flies limits f) :
    ∃ counted ignored, Bounded limits ip f counted ignored := by
  induction hf with
  | start now => exact ⟨[], [], bounded_start limits hmax ip now⟩
  | event _ hcareful ih =>
      obtain ⟨counted, ignored, hbounded⟩ := ih
      exact bounded_apply hlockout hbounded _ hcareful

/-- An event changes the past in no other way than by a failed check at its own time. -/
theorem checks_apply (f : Flight) (event : Event) (ip : String) :
    (f.apply event).checks ip = f.checks ip ∨
      ((f.apply event).checks ip = f.now :: f.checks ip ∧ (f.apply event).now = f.now) := by
  cases event with
  | enter who =>
      rw [Flight.apply, Flight.enter]
      split_ifs <;> exact Or.inl rfl
  | pass who => exact Or.inl rfl
  | missing who =>
      rw [Flight.apply, Flight.missing]
      split_ifs <;> exact Or.inl rfl
  | fail who =>
      rw [Flight.apply, Flight.fail, Flight.missing]
      split_ifs with hpos
      · by_cases hip : ip = who
        · subst hip
          exact Or.inr ⟨Function.update_self _ _ _, rfl⟩
        · exact Or.inl (Function.update_of_ne hip _ _)
      · exact Or.inl rfl
  | record who =>
      rw [Flight.apply, Flight.record]
      split_ifs <;> exact Or.inl rfl
  | tick elapsed => exact Or.inl rfl

theorem lockouts_apply (f : Flight) (event : Event) (ip : String) :
    f.lockouts ip ⊆ (f.apply event).lockouts ip := by
  cases event with
  | record who =>
      rw [Flight.apply, Flight.record]
      dsimp only
      split_ifs
      · exact List.Subset.refl _
      · by_cases hip : ip = who
        · subst hip
          dsimp only
          rw [Function.update_self]
          exact List.subset_cons_self _ _
        · dsimp only
          rw [Function.update_of_ne hip]
          exact List.Subset.refl _
      · exact List.Subset.refl _
  | enter who | missing who =>
      simp only [Flight.apply, Flight.enter, Flight.missing]
      split_ifs <;> exact List.Subset.refl _
  | fail who =>
      simp only [Flight.apply, Flight.fail, Flight.missing]
      split_ifs <;> exact List.Subset.refl _
  | pass who | tick elapsed => exact List.Subset.refl _

/-- If requests pass the limiter only while there is room for them, an address has at most
`maxAttempts` failed checks in every period that is shorter than the window and contains no
lockout expiry. -/
theorem checksIn_le_maxAttempts {limits : Limits} (hlockout : 0 ≤ limits.lockout)
    (hmax : 0 ≤ limits.maxAttempts) {f : Flight} (hf : Flies limits f) (ip : String) (a b : ℤ)
    (hwindow : b - a < limits.window) (hunexpired : f.Unexpired ip a b) :
    (f.checksIn ip a b : ℤ) ≤ limits.maxAttempts := by
  induction hf with
  | start now => simpa [Flight.start, Flight.checksIn] using hmax
  | @event f event hf hcareful ih =>
      have hbefore : f.Unexpired ip a b :=
        fun deadline hdeadline => hunexpired deadline (lockouts_apply f event ip hdeadline)
      rcases checks_apply f event ip with hsame | ⟨hchecks, hnow⟩
      · rw [Flight.checksIn, hsame]
        exact ih hbefore
      rcases lt_or_ge b f.now with hlt | hle
      · have hother : ¬ (a ≤ (f.now : ℤ) ∧ (f.now : ℤ) ≤ b) := by omega
        rw [Flight.checksIn, hchecks, List.countP_cons_of_neg (by simpa using hother)]
        exact ih hbefore
      · -- The period reaches the present, where the requests under way bound the checks.
        obtain ⟨counted, ignored, hbounded⟩ :=
          bounded_flies hlockout hmax ip (hf.event hcareful)
        rw [checksIn_eq_now hbounded.past (hnow ▸ hle)]
        have hbound := hbounded.bound a
          (fun deadline hdeadline h =>
            hunexpired deadline hdeadline ⟨h.1, h.2.trans (hnow ▸ hle)⟩)
          (by rw [hnow]; omega)
        omega

/-! ## Requests that come one by one -/

/-- The limiter locks an address out before its recent failures fill the budget. -/
structure HasRoom (maxAttempts : ℤ) (now : ℤ) (st : IpState) : Prop where
  past : ∀ time ∈ st.failures, time ≤ now
  below : (st.failures.countP (st.lockoutUntil ≤ ·) : ℤ) < maxAttempts

theorem hasRoom_recordFailure {limiter : RateLimiter} (hlockout : 0 < limiter.lockout)
    (hmax : 0 < limiter.maxAttempts) {now : ℤ} {ip : String} (who : String)
    (hst : HasRoom limiter.maxAttempts now (limiter.entry ip)) :
    HasRoom limiter.maxAttempts now ((limiter.recordFailure who now).entry ip) := by
  by_cases hip : ip = who
  swap
  · rw [entry_recordFailure_other hip]
    exact hst
  subst hip
  rw [entry_recordFailure_self]
  dsimp only
  have hpast : ∀ time ∈ (limiter.entry ip).failures.filter
      (fun ts => now - limiter.window < ts) ++ [now], time ≤ now := by
    intro time htime
    rcases List.mem_append.mp htime with hkept | hlast
    · exact hst.past time (List.mem_filter.mp hkept).1
    · exact (List.mem_singleton.mp hlast).le
  split_ifs with hlocked hfull
  · exact hst
  · -- The new deadline lies after every failure.
    refine ⟨hpast, ?_⟩
    rw [List.countP_eq_zero.mpr]
    · exact hmax
    · intro time htime hlate
      have hle := hpast time htime
      simp only [decide_eq_true_eq] at hlate
      omega
  · refine ⟨hpast, ?_⟩
    have hcount := List.countP_le_length
      (p := fun time => decide ((limiter.entry ip).lockoutUntil ≤ time))
      (l := (limiter.entry ip).failures.filter (fun ts => now - limiter.window < ts) ++ [now])
    dsimp only
    omega

theorem hasRoom_apply {f : Flight} {ip : String} (hlockout : 0 < f.limiter.lockout)
    (hmax : 0 < f.limiter.maxAttempts)
    (hf : HasRoom f.limiter.maxAttempts f.now (f.limiter.entry ip)) (event : Event) :
    (f.apply event).limiter.toLimits = f.limiter.toLimits ∧
      HasRoom f.limiter.maxAttempts (f.apply event).now ((f.apply event).limiter.entry ip) := by
  cases event with
  | enter who | missing who =>
      simp only [Flight.apply, Flight.enter, Flight.missing]
      split_ifs <;> exact ⟨rfl, hf⟩
  | fail who =>
      simp only [Flight.apply, Flight.fail, Flight.missing]
      split_ifs <;> exact ⟨rfl, hf⟩
  | pass who => exact ⟨rfl, hf⟩
  | record who =>
      rw [Flight.apply, Flight.record]
      split_ifs
      · exact ⟨recordFailure_limits _ _ _, hasRoom_recordFailure hlockout hmax who hf⟩
      · exact ⟨rfl, hf⟩
  | tick elapsed =>
      refine ⟨rfl, fun time htime => (hf.past time htime).trans ?_, hf.below⟩
      simp [Flight.apply]

/-- An address whose requests come one by one is always within its budget. -/
theorem careful_of_alone {limits : Limits} (hlockout : 0 < limits.lockout)
    (hmax : 0 < limits.maxAttempts) {f : Flight} (hf : Flies limits f) (ip : String)
    (halone : f.outstanding ip = 0) : Careful f (.enter ip) := by
  have hroom : f.limiter.toLimits = limits ∧
      HasRoom limits.maxAttempts f.now (f.limiter.entry ip) := by
    clear halone
    induction hf with
    | start now => exact ⟨rfl, by simp [Flight.start, newRateLimiter, RateLimiter.entry],
        by simpa [Flight.start, newRateLimiter, RateLimiter.entry] using hmax⟩
    | @event f event _ _ ih =>
        obtain ⟨rfl, hst⟩ := ih
        exact hasRoom_apply hlockout hmax hst event
  intro _
  have hrecent : f.recent ip ≤
      (f.limiter.entry ip).failures.countP ((f.limiter.entry ip).lockoutUntil ≤ ·) := by
    apply List.countP_mono_left
    intro time _ htime
    simp only [decide_eq_true_eq] at htime ⊢
    exact htime.2
  have hbelow := hroom.2.below
  rw [halone, hroom.1]
  push_cast
  omega

/-! ## Three requests at once -/

def twoAttempts : Limits := ⟨60, 30, 2⟩

/-- Three requests pass before the first of them fails. -/
def crowded : Flight :=
  [.enter "a", .enter "a", .enter "a", .fail "a", .fail "a", .fail "a"].foldl Flight.apply
    (.start twoAttempts 0)

theorem crowded_checks :
    crowded.Unexpired "a" 0 0 ∧ (0 : ℤ) - 0 < twoAttempts.window ∧
      ¬ (crowded.checksIn "a" 0 0 : ℤ) ≤ twoAttempts.maxAttempts := by
  have hlockouts : crowded.lockouts "a" = [] := by decide +kernel
  refine ⟨?_, by decide, by decide +kernel⟩
  intro deadline hdeadline
  rw [hlockouts] at hdeadline
  cases hdeadline

/-- Two requests at once are within the budget. -/
def paired : Flight :=
  [.enter "a", .enter "a", .fail "a", .fail "a"].foldl Flight.apply (.start twoAttempts 0)

theorem flies_paired : Flies twoAttempts paired := by
  have hfirst : Flies twoAttempts ((Flight.start twoAttempts 0).apply (.enter "a")) :=
    (Flies.start 0).event fun _ => by decide +kernel
  have hsecond : Flies twoAttempts
      (((Flight.start twoAttempts 0).apply (.enter "a")).apply (.enter "a")) :=
    hfirst.event fun _ => by decide +kernel
  have hfailed : Flies twoAttempts
      ((((Flight.start twoAttempts 0).apply (.enter "a")).apply (.enter "a")).apply (.fail "a")) :=
    hsecond.event trivial
  exact @Flies.event _ _ (.fail "a") hfailed trivial

theorem paired_checks : (paired.checksIn "a" 0 0 : ℤ) ≤ 2 := by
  have hlockouts : paired.lockouts "a" = [] := by decide +kernel
  have hunexpired : paired.Unexpired "a" 0 0 := by
    intro deadline hdeadline
    rw [hlockouts] at hdeadline
    cases hdeadline
  have hwindow : (0 : ℤ) - 0 < twoAttempts.window := by decide
  exact checksIn_le_maxAttempts (by decide) (by decide) flies_paired "a" 0 0 hwindow hunexpired

end FastTAK.RateLimit
