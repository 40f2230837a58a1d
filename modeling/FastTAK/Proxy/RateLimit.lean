import Mathlib.Data.List.Infix
import Mathlib.Order.Basic
import Mathlib.Tactic.Linarith

/-!
# The failure limiter of the authentication endpoint

The limiter keeps, for each address, a pruned slice of failure times and one deadline.
The specification knows nothing of either: it looks at the whole history of calls.  This
module shows that the two give the same answers over every run.
-/

namespace FastTAK.RateLimit

/-! ## The limiter -/

/-- The arguments of `NewRateLimiter`: durations in nanoseconds and a number of failures. -/
structure Limits where
  window : ℤ
  lockout : ℤ
  maxAttempts : ℤ

/-- Failure times and deadline of one address.  Times are nanoseconds after the zero
`time.Time`, which is the deadline of an address that was never locked out. -/
structure IpState where
  failures : List ℤ
  lockoutUntil : ℤ
deriving DecidableEq

structure RateLimiter extends Limits where
  state : String → Option IpState

def newRateLimiter (limits : Limits) : RateLimiter :=
  { limits with state := fun _ => none }

/-- `CheckLockout` with its reading of the clock: is the address allowed, and if not, for
how long will it be refused. -/
def RateLimiter.checkLockout (limiter : RateLimiter) (ip : String) (now : ℤ) : Bool × ℤ :=
  match limiter.state ip with
  | none => (true, 0)
  | some st =>
      if now < st.lockoutUntil then (false, st.lockoutUntil - now) else (true, 0)

/-- One round of the pruning loop.  `fresh` shares its array with the slice that is
traversed, so a kept time is written to the array that later rounds read. -/
def pruneRound (cutoff : ℤ) (slice : List ℤ × ℕ) (i : ℕ) : List ℤ × ℕ :=
  let ts := slice.1.getD i 0
  if cutoff < ts then (slice.1.set slice.2 ts, slice.2 + 1) else slice

def prune (cutoff : ℤ) (failures : List ℤ) : List ℤ :=
  let slice := (List.range failures.length).foldl (pruneRound cutoff) (failures, 0)
  slice.1.take slice.2

def RateLimiter.recordFailure (limiter : RateLimiter) (ip : String) (now : ℤ) :
    RateLimiter :=
  let st := (limiter.state ip).getD ⟨[], 0⟩
  let store (st : IpState) : RateLimiter :=
    { limiter with state := Function.update limiter.state ip (some st) }
  if now < st.lockoutUntil then
    store st
  else
    let failures := prune (now - limiter.window) st.failures ++ [now]
    if limiter.maxAttempts ≤ failures.length then
      store ⟨failures, now + limiter.lockout⟩
    else
      store ⟨failures, st.lockoutUntil⟩

/-! ## Pruning in place -/

theorem pruneRound_invariant (cutoff : ℤ) (failures : List ℤ) :
    ∀ i ≤ failures.length,
      let slice := (List.range i).foldl (pruneRound cutoff) (failures, 0)
      slice.2 ≤ i ∧ slice.1.length = failures.length ∧
        slice.1.drop i = failures.drop i ∧
        slice.1.take slice.2 = (failures.take i).filter (fun ts => cutoff < ts) := by
  intro i
  induction i with
  | zero => intro _; simp
  | succ i ih =>
      intro hi
      obtain ⟨hkept, hlength, hrest, hfresh⟩ := ih (by omega)
      rw [List.range_succ, List.foldl_append]
      set slice := (List.range i).foldl (pruneRound cutoff) (failures, 0)
      have hlt : i < failures.length := by omega
      have hread : slice.1.getD i 0 = failures[i] := by
        have hhead : (slice.1.drop i)[0]? = (failures.drop i)[0]? := by rw [hrest]
        simp only [List.getElem?_drop, Nat.add_zero] at hhead
        rw [List.getD_eq_getElem?_getD, hhead, List.getElem?_eq_getElem hlt]
        rfl
      have hnext : slice.1.drop (i + 1) = failures.drop (i + 1) := by
        rw [← List.drop_drop, ← List.drop_drop, hrest]
      have htake : (failures.take (i + 1)).filter (fun ts => cutoff < ts) =
          slice.1.take slice.2 ++ if cutoff < failures[i] then [failures[i]] else [] := by
        rw [List.take_add_one, List.getElem?_eq_getElem hlt, List.filter_append, hfresh]
        by_cases hts : cutoff < failures[i] <;> simp [hts]
      simp only [List.foldl_cons, List.foldl_nil, pruneRound, hread]
      by_cases hts : cutoff < failures[i]
      · rw [if_pos hts] at htake ⊢
        refine ⟨by simpa using hkept, by simpa using hlength, ?_, ?_⟩
        · rw [List.drop_set_of_lt (by omega), hnext]
        · rw [htake, List.take_add_one, List.take_set_of_le le_rfl,
            List.getElem?_set_self (by omega)]
          rfl
      · rw [if_neg hts] at htake ⊢
        exact ⟨by omega, hlength, hnext, by rw [htake, List.append_nil]⟩

/-- Overwriting the slice while it is read loses nothing: `fresh` never overtakes the
reading position. -/
theorem prune_eq_filter (cutoff : ℤ) (failures : List ℤ) :
    prune cutoff failures = failures.filter (fun ts => cutoff < ts) := by
  have hinvariant := pruneRound_invariant cutoff failures failures.length le_rfl
  rw [List.take_length] at hinvariant
  exact hinvariant.2.2.2

/-! ## Runs -/

/-- A call with the clock reading that it takes. -/
inductive Call where
  | checkLockout (ip : String) (time : ℕ)
  | recordFailure (ip : String) (time : ℕ)
deriving DecidableEq

def Call.ip : Call → String
  | checkLockout ip _ | recordFailure ip _ => ip

def Call.time : Call → ℕ
  | checkLockout _ time | recordFailure _ time => time

def RateLimiter.serve (limiter : RateLimiter) : Call → RateLimiter
  | .checkLockout _ _ => limiter
  | .recordFailure ip time => limiter.recordFailure ip time

/-- The limiter after a sequence of calls. -/
def after (limits : Limits) (calls : List Call) : RateLimiter :=
  calls.foldl RateLimiter.serve (newRateLimiter limits)

/-! ## The history specification -/

/-- The last of these counted failures, at `s`, makes at least `maxAttempts` of them in the
window that ends at `s`. -/
def Fills (limits : Limits) (front : List ℤ) (s : ℤ) : Prop :=
  limits.maxAttempts ≤
    (front ++ [s]).countP fun time => decide (s - limits.window < time ∧ time ≤ s)

instance (limits : Limits) (front : List ℤ) (s : ℤ) : Decidable (Fills limits front s) :=
  inferInstanceAs (Decidable (_ ≤ _))

/-- A counted failure at `s` filled its window, and its lockout is not over at `now`. -/
def LockedBy (limits : Limits) (counted : List ℤ) (now s : ℤ) : Prop :=
  ∃ front, front ++ [s] <+: counted ∧ Fills limits front s ∧ now < s + limits.lockout

def Refused (limits : Limits) (counted : List ℤ) (now : ℤ) : Prop :=
  ∃ s, LockedBy limits counted now s

theorem refused_iff_inits {limits : Limits} {counted : List ℤ} {now : ℤ} :
    Refused limits counted now ↔ ∃ front ∈ counted.inits, ∃ s ∈ front.getLast?,
      Fills limits front.dropLast s ∧ now < s + limits.lockout := by
  constructor
  · rintro ⟨s, front, hlead, hfills⟩
    exact ⟨front ++ [s], (List.mem_inits _ _).mpr hlead, s, by simp, by simpa using hfills⟩
  · rintro ⟨front, hfront, s, hlast, hfills⟩
    have hsplit := List.dropLast_append_getLast? s hlast
    exact ⟨s, front.dropLast, by rw [hsplit]; exact (List.mem_inits _ _).mp hfront, hfills⟩

instance (limits : Limits) (counted : List ℤ) (now : ℤ) :
    Decidable (Refused limits counted now) :=
  decidable_of_iff _ refused_iff_inits.symm

/-- A failure of the address counts when a check in its place would not refuse. -/
def countCall (limits : Limits) (ip : String) (counted : List ℤ) : Call → List ℤ
  | .checkLockout _ _ => counted
  | .recordFailure caller time =>
      if caller = ip ∧ ¬ Refused limits counted time then counted ++ [(time : ℤ)] else counted

/-- The times of the counted failures of an address, over the whole history. -/
def counted (limits : Limits) (ip : String) (calls : List Call) : List ℤ :=
  calls.foldl (countCall limits ip) []

theorem lockedBy_append {limits : Limits} {counted : List ℤ} {time now s : ℤ} :
    LockedBy limits (counted ++ [time]) now s ↔
      LockedBy limits counted now s ∨
        s = time ∧ Fills limits counted time ∧ now < time + limits.lockout := by
  constructor
  · rintro ⟨front, hlead, hfills, hnow⟩
    rcases List.prefix_concat_iff.mp hlead with hwhole | hfront
    · obtain ⟨rfl, hs⟩ := List.append_inj' hwhole rfl
      obtain rfl : s = time := by simpa using hs
      exact Or.inr ⟨rfl, hfills, hnow⟩
    · exact Or.inl ⟨front, hfront, hfills, hnow⟩
  · rintro (⟨front, hlead, hlocked⟩ | ⟨rfl, hlocked⟩)
    · exact ⟨front, hlead.trans (List.prefix_append _ _), hlocked⟩
    · exact ⟨counted, List.prefix_rfl, hlocked⟩

theorem LockedBy.earlier {limits : Limits} {counted : List ℤ} {time now s : ℤ}
    (hlocked : LockedBy limits counted now s) (htime : time ≤ now) :
    LockedBy limits counted time s := by
  obtain ⟨front, hlead, hfills, hnow⟩ := hlocked
  exact ⟨front, hlead, hfills, lt_of_le_of_lt htime hnow⟩

/-! ## The invariant of a run -/

/-- The entry that `RecordFailure` finds or makes for an address. -/
def RateLimiter.entry (limiter : RateLimiter) (ip : String) : IpState :=
  (limiter.state ip).getD ⟨[], 0⟩

theorem checkLockout_eq {limiter : RateLimiter} {ip : String} {now : ℤ} (hnow : 0 ≤ now) :
    limiter.checkLockout ip now =
      if now < (limiter.entry ip).lockoutUntil then
        (false, (limiter.entry ip).lockoutUntil - now) else (true, 0) := by
  unfold RateLimiter.checkLockout RateLimiter.entry
  cases limiter.state ip with
  | none => simp [not_lt.mpr hnow]
  | some st => rfl

theorem recordFailure_limits (limiter : RateLimiter) (ip : String) (now : ℤ) :
    (limiter.recordFailure ip now).toLimits = limiter.toLimits := by
  unfold RateLimiter.recordFailure
  dsimp only
  split_ifs <;> rfl

theorem entry_recordFailure_other {limiter : RateLimiter} {ip other : String} {now : ℤ}
    (hother : other ≠ ip) :
    (limiter.recordFailure ip now).entry other = limiter.entry other := by
  unfold RateLimiter.recordFailure RateLimiter.entry
  dsimp only
  split_ifs <;> simp [Function.update_of_ne hother]

theorem entry_recordFailure_self (limiter : RateLimiter) (ip : String) (now : ℤ) :
    (limiter.recordFailure ip now).entry ip =
      let st := limiter.entry ip
      let failures := st.failures.filter (fun ts => now - limiter.window < ts) ++ [now]
      if now < st.lockoutUntil then st
      else if limiter.maxAttempts ≤ failures.length then ⟨failures, now + limiter.lockout⟩
      else ⟨failures, st.lockoutUntil⟩ := by
  unfold RateLimiter.recordFailure RateLimiter.entry
  simp only [prune_eq_filter]
  split_ifs <;> simp [Function.update_self]

/-- What the entry of an address has to do with its counted failures at a clock reading.
Failures that were pruned lie outside of every window to come, and the deadline is that of
the only lockout that can still refuse a call. -/
structure Tracks (limits : Limits) (counted : List ℤ) (clock : ℤ) (st : IpState) : Prop where
  past : ∀ s ∈ counted, s ≤ clock
  fresh : ∀ now, clock ≤ now →
    st.failures.filter (fun ts => now - limits.window < ts) =
      counted.filter (fun ts => now - limits.window < ts)
  deadline : ∀ now, clock ≤ now → 0 ≤ now →
    (Refused limits counted now ↔ now < st.lockoutUntil)
  remaining : ∀ now s, clock ≤ now → LockedBy limits counted now s →
    st.lockoutUntil = s + limits.lockout

theorem tracks_new (limits : Limits) (ip : String) :
    Tracks limits [] 0 ((newRateLimiter limits).entry ip) where
  past := by simp
  fresh := by simp [newRateLimiter, RateLimiter.entry]
  deadline := by
    intro now _ hnow
    have hempty : ¬ Refused limits [] now := by
      rintro ⟨s, front, hlead, _⟩
      simp at hlead
    simp [newRateLimiter, RateLimiter.entry, hempty, hnow]
  remaining := by
    rintro now s _ ⟨front, hlead, _⟩
    simp at hlead

theorem Tracks.later {limits : Limits} {counted : List ℤ} {clock now : ℤ} {st : IpState}
    (htracks : Tracks limits counted clock st) (hnow : clock ≤ now) :
    Tracks limits counted now st where
  past := fun s hs => (htracks.past s hs).trans hnow
  fresh := fun later hlater => htracks.fresh later (hnow.trans hlater)
  deadline := fun later hlater => htracks.deadline later (hnow.trans hlater)
  remaining := fun later s hlater => htracks.remaining later s (hnow.trans hlater)

/-- The slice that `RecordFailure` measures holds the counted failures of the window. -/
theorem Tracks.fills_iff {limits : Limits} {counted : List ℤ} {clock now : ℤ} {st : IpState}
    (htracks : Tracks limits counted clock st) (hwindow : 0 < limits.window)
    (hnow : clock ≤ now) :
    Fills limits counted now ↔ limits.maxAttempts ≤
      (st.failures.filter (fun ts => now - limits.window < ts) ++ [now]).length := by
  have hinside : counted.countP (fun time => decide (now - limits.window < time ∧ time ≤ now)) =
      counted.countP (fun time => decide (now - limits.window < time)) := by
    refine List.countP_congr fun time htime => ?_
    have hpast := (htracks.past time htime).trans hnow
    simp [hpast]
  rw [htracks.fresh now hnow, Fills, List.countP_append, hinside, List.length_append,
    ← List.countP_eq_length_filter]
  simp [hwindow]

/-- What was pruned at `now` would be pruned later on as well. -/
theorem fresh_append {failures counted : List ℤ} {window now later : ℤ} (hlater : now ≤ later)
    (hfresh : failures.filter (fun ts => later - window < ts) =
      counted.filter (fun ts => later - window < ts)) :
    (failures.filter (fun ts => now - window < ts) ++ [now]).filter
        (fun ts => later - window < ts) =
      (counted ++ [now]).filter (fun ts => later - window < ts) := by
  have hnested : (failures.filter (fun ts => now - window < ts)).filter
      (fun ts => later - window < ts) = counted.filter (fun ts => later - window < ts) := by
    rw [← hfresh, List.filter_filter]
    apply List.filter_congr
    intro ts _
    simp only [← Bool.decide_and, decide_eq_decide]
    exact ⟨fun h => h.1, fun h => ⟨h, by linarith⟩⟩
  rw [List.filter_append, List.filter_append, hnested]

/-- A counted failure: the entry takes it up, and a lockout starts if it fills its window. -/
theorem Tracks.count {limits : Limits} {counted : List ℤ} {clock now : ℤ} {st : IpState}
    (htracks : Tracks limits counted clock st) (hwindow : 0 < limits.window)
    (hnow : clock ≤ now) (hallowed : ¬ Refused limits counted now) :
    Tracks limits (counted ++ [now]) now
      (let failures := st.failures.filter (fun ts => now - limits.window < ts) ++ [now]
       if limits.maxAttempts ≤ failures.length then ⟨failures, now + limits.lockout⟩
       else ⟨failures, st.lockoutUntil⟩) := by
  have hfills := htracks.fills_iff hwindow hnow
  set failures := st.failures.filter (fun ts => now - limits.window < ts) ++ [now]
  -- A lockout that was over at `now` refuses nothing later on.
  have hover : ∀ later s, now ≤ later → ¬ LockedBy limits counted later s :=
    fun later s hlater hlocked => hallowed ⟨s, hlocked.earlier hlater⟩
  have hpast : ∀ s ∈ counted ++ [now], s ≤ now := by
    intro s hs
    rcases List.mem_append.mp hs with hs | hs
    · exact (htracks.past s hs).trans hnow
    · exact (List.mem_singleton.mp hs).le
  have hfresh : ∀ later, now ≤ later →
      failures.filter (fun ts => later - limits.window < ts) =
        (counted ++ [now]).filter (fun ts => later - limits.window < ts) :=
    fun later hlater => fresh_append hlater (htracks.fresh later (hnow.trans hlater))
  dsimp only
  split_ifs with hlength
  · refine ⟨hpast, hfresh, fun later hlater _ => ?_, fun later s hlater hlocked => ?_⟩
    · constructor
      · rintro ⟨s, hlocked⟩
        rcases lockedBy_append.mp hlocked with hlocked | ⟨_, _, hbefore⟩
        · exact absurd hlocked (hover later s hlater)
        · exact hbefore
      · intro hbefore
        exact ⟨now, lockedBy_append.mpr (Or.inr ⟨rfl, hfills.mpr hlength, hbefore⟩)⟩
    · rcases lockedBy_append.mp hlocked with hlocked | ⟨rfl, _, _⟩
      · exact absurd hlocked (hover later s hlater)
      · rfl
  · have hopen : ∀ later s, now ≤ later → ¬ LockedBy limits (counted ++ [now]) later s := by
      intro later s hlater hlocked
      rcases lockedBy_append.mp hlocked with hlocked | ⟨_, hfilled, _⟩
      · exact hover later s hlater hlocked
      · exact hlength (hfills.mp hfilled)
    refine ⟨hpast, hfresh, fun later hlater hpositive => ?_, fun later s hlater hlocked =>
      absurd hlocked (hopen later s hlater)⟩
    rw [← htracks.deadline later (hnow.trans hlater) hpositive]
    exact ⟨fun ⟨s, hlocked⟩ => absurd hlocked (hopen later s hlater),
      fun ⟨s, hlocked⟩ => absurd hlocked (hover later s hlater)⟩

/-! ## One call -/

theorem serve_limits (limiter : RateLimiter) (call : Call) :
    (limiter.serve call).toLimits = limiter.toLimits := by
  cases call with
  | checkLockout ip time => rfl
  | recordFailure ip time => exact recordFailure_limits limiter ip time

theorem tracks_serve {limiter : RateLimiter} {ip : String} {counted : List ℤ} {clock : ℤ}
    {call : Call} (htracks : Tracks limiter.toLimits counted clock (limiter.entry ip))
    (hwindow : 0 < limiter.window) (htime : clock ≤ call.time) :
    Tracks limiter.toLimits (countCall limiter.toLimits ip counted call) call.time
      ((limiter.serve call).entry ip) := by
  cases call with
  | checkLockout caller time => exact htracks.later htime
  | recordFailure caller time =>
      simp only [Call.time] at htime ⊢
      simp only [RateLimiter.serve, countCall]
      by_cases hcaller : caller = ip
      · subst hcaller
        have hdeadline := htracks.deadline time htime (Int.natCast_nonneg time)
        rw [entry_recordFailure_self]
        by_cases hrefused : Refused limiter.toLimits counted time
        · rw [if_neg (by simp [hrefused])]
          dsimp only
          rw [if_pos (hdeadline.mp hrefused)]
          exact htracks.later htime
        · rw [if_pos ⟨rfl, hrefused⟩]
          dsimp only
          rw [if_neg (mt hdeadline.mpr hrefused)]
          exact htracks.count hwindow htime hrefused
      · rw [if_neg (by simp [hcaller]), entry_recordFailure_other (Ne.symm hcaller)]
        exact htracks.later htime

/-! ## Runs of any length -/

@[simp]
theorem after_append (limits : Limits) (calls : List Call) (call : Call) :
    after limits (calls ++ [call]) = (after limits calls).serve call := by
  simp [after]

@[simp]
theorem counted_append (limits : Limits) (ip : String) (calls : List Call) (call : Call) :
    counted limits ip (calls ++ [call]) = countCall limits ip (counted limits ip calls) call := by
  simp [counted]

theorem after_limits (limits : Limits) (calls : List Call) :
    (after limits calls).toLimits = limits := by
  induction calls using List.reverseRecOn with
  | nil => rfl
  | append_singleton calls call ih => rw [after_append, serve_limits, ih]

/-- The calls before a clock reading, at times that do not decrease. -/
structure Before (calls : List Call) (now : ℕ) : Prop where
  ordered : calls.Pairwise fun earlier later => earlier.time ≤ later.time
  past : ∀ call ∈ calls, call.time ≤ now

theorem tracks_after {limits : Limits} (hwindow : 0 < limits.window) (ip : String)
    {calls : List Call} {now : ℕ} (hcalls : Before calls now) :
    Tracks limits (counted limits ip calls) now ((after limits calls).entry ip) := by
  induction calls using List.reverseRecOn generalizing now with
  | nil => exact (tracks_new limits ip).later (Int.natCast_nonneg now)
  | append_singleton calls call ih =>
      obtain ⟨hordered, -, hlast⟩ := List.pairwise_append.mp hcalls.ordered
      have hearlier : Before calls call.time :=
        ⟨hordered, fun earlier hmem => hlast earlier hmem call (List.mem_singleton.mpr rfl)⟩
      have hlimits := after_limits limits calls
      have hserved : Tracks (after limits calls).toLimits
          (countCall (after limits calls).toLimits ip (counted limits ip calls) call) call.time
          (((after limits calls).serve call).entry ip) := by
        refine tracks_serve ?_ (by rw [hlimits]; exact hwindow) le_rfl
        rw [hlimits]
        exact ih hearlier
      rw [hlimits] at hserved
      rw [after_append, counted_append]
      refine hserved.later ?_
      exact_mod_cast hcalls.past call (by simp)

/-- Calls for other addresses change nothing. -/
theorem entry_after_filter (limits : Limits) (ip : String) (calls : List Call) :
    (after limits calls).entry ip =
      (after limits (calls.filter fun call => call.ip = ip)).entry ip := by
  induction calls using List.reverseRecOn with
  | nil => rfl
  | append_singleton calls call ih =>
      rw [after_append, List.filter_append]
      cases call with
      | checkLockout caller time =>
          by_cases hcaller : caller = ip
          · have hkept : [Call.checkLockout caller time].filter (fun call => call.ip = ip) =
                [Call.checkLockout caller time] := by simp [Call.ip, hcaller]
            rw [hkept, after_append]
            exact ih
          · have hdropped : [Call.checkLockout caller time].filter
                (fun call => call.ip = ip) = [] := by simp [Call.ip, hcaller]
            rw [hdropped, List.append_nil]
            exact ih
      | recordFailure caller time =>
          by_cases hcaller : caller = ip
          · subst hcaller
            have hkept : [Call.recordFailure caller time].filter
                (fun call => call.ip = caller) = [Call.recordFailure caller time] := by
              simp [Call.ip]
            rw [hkept, after_append, RateLimiter.serve, RateLimiter.serve,
              entry_recordFailure_self, entry_recordFailure_self, ih]
            have hleft : (after limits calls).toLimits =
                (after limits (calls.filter fun call => call.ip = caller)).toLimits := by
              rw [after_limits, after_limits]
            rw [hleft]
          · have hdropped : [Call.recordFailure caller time].filter
                (fun call => call.ip = ip) = [] := by simp [Call.ip, hcaller]
            rw [hdropped, List.append_nil, RateLimiter.serve,
              entry_recordFailure_other (Ne.symm hcaller), ih]

/-! ## Refinement -/

/-- What the specification says about a check after a history of counted failures. -/
structure Answers (limits : Limits) (counted : List ℤ) (now : ℤ) (answer : Bool × ℤ) :
    Prop where
  refuses : answer.1 = false ↔ Refused limits counted now
  retryAfter : ∀ s, LockedBy limits counted now s → answer.2 = s + limits.lockout - now
  allowed : answer.1 = true → answer.2 = 0

/-- What the specification says about a recorded failure: a refused address keeps its entry,
any other takes the failure up behind those still in its window. -/
structure Records (limits : Limits) (counted : List ℤ) (now : ℤ) (before after : IpState) :
    Prop where
  refused : Refused limits counted now → after = before
  counted : ¬ Refused limits counted now → after.failures =
    counted.filter (fun time => now - limits.window < time) ++ [now]

theorem Tracks.answers {limiter : RateLimiter} {ip : String} {counted : List ℤ} {now : ℕ}
    (htracks : Tracks limiter.toLimits counted now (limiter.entry ip)) :
    Answers limiter.toLimits counted now (limiter.checkLockout ip now) := by
  have hdeadline := htracks.deadline now le_rfl (Int.natCast_nonneg now)
  rw [checkLockout_eq (Int.natCast_nonneg now)]
  constructor
  · rw [hdeadline]
    split_ifs with hlocked <;> simp [hlocked]
  · intro s hlocked
    rw [if_pos (hdeadline.mp ⟨s, hlocked⟩)]
    dsimp only
    rw [htracks.remaining now s le_rfl hlocked]
  · split_ifs <;> simp

theorem Tracks.records {limiter : RateLimiter} {ip : String} {counted : List ℤ} {now : ℕ}
    (htracks : Tracks limiter.toLimits counted now (limiter.entry ip)) :
    Records limiter.toLimits counted now (limiter.entry ip)
      ((limiter.recordFailure ip now).entry ip) := by
  have hdeadline := htracks.deadline now le_rfl (Int.natCast_nonneg now)
  rw [entry_recordFailure_self]
  dsimp only
  constructor
  · intro hrefused
    rw [if_pos (hdeadline.mp hrefused)]
  · intro hallowed
    rw [if_neg (mt hdeadline.mpr hallowed), ← htracks.fresh now le_rfl]
    split_ifs <;> rfl

/-- **Refinement.**  Over every sequence of calls at non-decreasing times, the limiter answers
and counts as the specification over the whole history does, and calls for other addresses
play no part. -/
theorem limiter_refines_history (limits : Limits) (hwindow : 0 < limits.window)
    (calls : List Call) (now : ℕ) (hcalls : Before calls now) (ip : String) :
    Answers limits (counted limits ip calls) now
        ((after limits calls).checkLockout ip now) ∧
      Records limits (counted limits ip calls) now ((after limits calls).entry ip)
        (((after limits calls).recordFailure ip now).entry ip) ∧
      (after limits calls).checkLockout ip now =
        (after limits (calls.filter fun call => call.ip = ip)).checkLockout ip now := by
  have hlimits := after_limits limits calls
  have htracks : Tracks (after limits calls).toLimits (counted limits ip calls) now
      ((after limits calls).entry ip) := by
    rw [hlimits]
    exact tracks_after hwindow ip hcalls
  have hanswers := htracks.answers
  have hrecords := htracks.records
  rw [hlimits] at hanswers hrecords
  refine ⟨hanswers, hrecords, ?_⟩
  rw [checkLockout_eq (Int.natCast_nonneg now), checkLockout_eq (Int.natCast_nonneg now),
    entry_after_filter]

/-- Two failures of ten seconds ago refuse the address for another twenty. -/
theorem limiter_refines_history_locked :
    Answers ⟨60, 30, 2⟩
        (counted ⟨60, 30, 2⟩ "10.0.0.1"
          [.recordFailure "10.0.0.1" 100, .recordFailure "10.0.0.2" 101,
            .recordFailure "10.0.0.1" 105]) 115
        ((after ⟨60, 30, 2⟩
          [.recordFailure "10.0.0.1" 100, .recordFailure "10.0.0.2" 101,
            .recordFailure "10.0.0.1" 105]).checkLockout "10.0.0.1" 115) ∧
      (after ⟨60, 30, 2⟩
          [.recordFailure "10.0.0.1" 100, .recordFailure "10.0.0.2" 101,
            .recordFailure "10.0.0.1" 105]).checkLockout "10.0.0.1" 115 = (false, 20) :=
  ⟨(limiter_refines_history ⟨60, 30, 2⟩ (by decide) _ 115
      ⟨by decide, by decide⟩ "10.0.0.1").1, by decide⟩

end FastTAK.RateLimit
