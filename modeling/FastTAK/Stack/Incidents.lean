import FastTAK.Backup.Names
import Mathlib

/-!
# Health checks and the incidents they capture

`healthcheck` runs six checks, and the first that trips ends the run.  The first trip of an incident
leaves the ends of the logs in a directory; a marker there lasts until a healthy pass.
-/

namespace FastTAK.Incidents

open FastTAK.Calendar FastTAK.Backup FastTAK.Newest
open scoped FastTAK.Text

abbrev Line := List Char

/-! ## The checks -/

/-- A certificate file, with its expiry if `openssl` and `date` can tell it. -/
structure Cert where
  name : String
  expiry : Option ℤ

structure Probe where
  code : String
  rc : ℕ

/-- What a run finds.  `port` and `probe` are `none` without `nc` and `curl`. -/
structure Environment where
  cmdlines : List Line
  port : Option Bool
  probe : Option Probe
  probeUrl : String
  certs : List Cert
  now : ℤ
  log : Option (List Line)
  msgLog : Option (List Line)
  logFile : String
  msgLogFile : String

structure Trip where
  check : String
  message : String

/-- `proc_running`. -/
def procRunning (env : Environment) (word : String) : Bool :=
  env.cmdlines.any fun cmdline =>
    word.toList <:+: cmdline.map fun c => if c = '\x00' then ' ' else c

def processes : List (String × String) :=
  [("spring.profiles.active=config", "config"), ("spring.profiles.active=messaging", "messaging"),
    ("spring.profiles.active=api", "api"), ("takserver-retention.jar", "retention"),
    ("takserver-pm.jar", "plugins")]

def checkProcesses (env : Environment) : Option Trip :=
  let missing := processes.filter fun process => !procRunning env process.1
  if missing = [] then none
  else some ⟨"processes",
    "missing processes:" ++ String.join (missing.map fun process => " " ++ process.2)⟩

def checkPort (env : Environment) : Option Trip :=
  if env.port = some false then some ⟨"port-8089", "port 8089 not accepting connections"⟩ else none

def checkProbe (env : Environment) : Option Trip :=
  env.probe.bind fun probe =>
    if probe.code = "" ∨ probe.code = "000" then
      if probe.rc = 28 then some ⟨"api-probe", env.probeUrl ++ " did not answer within 5s"⟩
      else some ⟨"api-probe", "no TLS response from " ++ env.probeUrl⟩
    else if "5".toList <+: probe.code.toList then
      some ⟨"api-probe", env.probeUrl ++ " returned HTTP " ++ probe.code ++
        " (the API is up but failing)"⟩
    else none

def warnSeconds : ℤ := 30 * 86400

def checkCert (now : ℤ) (cert : Cert) : Option Trip :=
  cert.expiry.bind fun expiry =>
    if expiry ≤ now then some ⟨"cert-expired", "cert EXPIRED: " ++ cert.name⟩
    else if expiry ≤ now + warnSeconds then
      some ⟨"cert-expiring", "cert expiring soon: " ++ cert.name ++ " (" ++
        toString ((expiry - now).tdiv 86400) ++ " days)"⟩
    else none

def checkCerts (env : Environment) : Option Trip := env.certs.findSome? (checkCert env.now)

/-- `tail -n`. -/
def tail (n : ℕ) (lines : List Line) : List Line := lines.drop (lines.length - n)

def scanLines : ℕ := 500

def igniteWords : List String :=
  ["IgniteClientDisconnected", "ClusterTopologyException", "Failed to connect to node"]

/-- The first that `grep -o` prints of a line. -/
def firstWord : Line → Option String
  | [] => none
  | c :: rest => (igniteWords.find? fun word => word.toList <+: c :: rest).or (firstWord rest)

def checkIgnite (env : Environment) : Option Trip :=
  env.log.bind fun lines =>
    ((tail scanLines lines).findSome? firstWord).map fun word =>
      ⟨"ignite", word ++ " in the last 500 lines of takserver.log"⟩

def checkOom (env : Environment) : Option Trip :=
  env.log.bind fun lines =>
    if (tail scanLines lines).any fun line => "OutOfMemoryError".toList <:+: line then
      some ⟨"oom", "OutOfMemoryError in the last 500 lines of takserver.log"⟩
    else none

/-- The first check that trips. -/
def verdict (env : Environment) : Option Trip :=
  (checkProcesses env).or <| (checkPort env).or <| (checkProbe env).or <|
    (checkCerts env).or <| (checkIgnite env).or (checkOom env)

/-! ## Reports -/

/-- The exit status and what is printed. -/
structure Report where
  status : ℕ
  line : Option String
deriving DecidableEq

/-- What the checks say. -/
def report : Option Trip → Report
  | none => ⟨0, some "HEALTHY: all processes running, ports ok, certs valid"⟩
  | some trip => ⟨1, some ("UNHEALTHY: " ++ trip.message)⟩

/-- A redirection that fails on a special built-in utility ends the shell. -/
def aborted : Report := ⟨2, none⟩

/-! ## The incident directory -/

structure Capture where
  name : Line
  content : List Line

structure Incident where
  marker : Bool
  files : List Capture

/-- What the file system lets a run do. -/
structure Access where
  mkdir : Bool
  write : Bool
  mark : Bool
  unmark : Bool
  prune : Bool
deriving DecidableEq

def writable : Access := ⟨true, true, true, true, true⟩

structure Run where
  environment : Environment
  access : Access
  clock : DateTime
  pid : ℕ

def Run.verdict (run : Run) : Option Trip := Incidents.verdict run.environment

def Run.unhealthy (run : Run) : Bool := run.verdict.isSome

/-- The file that a run writes if it is the first of an incident. -/
def Run.evidence (run : Run) (trip : Trip) : Capture where
  name := compact run.clock ++ '-' :: ((toString run.pid).toList ++ '-' ::
    (trip.check.toList ++ ".log".toList))
  content :=
    ("== ".toList ++ trip.check.toList ++ " tripped at ".toList ++ digitsOf 4 run.clock.year ++
      '-' :: digitsOf 2 run.clock.month ++ '-' :: digitsOf 2 run.clock.day ++
      'T' :: digitsOf 2 run.clock.hour ++ ':' :: digitsOf 2 run.clock.minute ++
      ':' :: digitsOf 2 run.clock.second ++ "Z ==".toList) ::
    ("== tail -n 2000 ".toList ++ run.environment.logFile.toList ++ " ==".toList) ::
    ((run.environment.log.elim [] (tail 2000)) ++
      ("== tail -n 500 ".toList ++ run.environment.msgLogFile.toList ++ " ==".toList) ::
      run.environment.msgLog.elim [] (tail 500))

def keepIncidents : ℕ := 5

/-- The files that the newest leave. -/
def kept (files : List Capture) : List Capture :=
  files.filter fun file => file.name ∉ surplus keepIncidents (files.map (·.name))

structure Outcome where
  directory : Option Incident
  report : Report
  written : Option Capture

/-- `capture`: the directory after, and the file that was written. -/
def capture (access : Access) (file : Capture) (directory : Option Incident) :
    Option (Incident × Option Capture) :=
  (directory.or (if access.mkdir then some ⟨false, []⟩ else none)).map fun incident =>
    let files := if access.write then
        file :: incident.files.filter fun other => other.name ≠ file.name
      else incident.files
    ({ incident with files := if access.prune then kept files else files },
      if access.write then some file else none)

/-- `trip`. -/
def trip (access : Access) (file : Capture) (tripped : Trip) (directory : Option Incident) :
    Outcome :=
  if directory.any (·.marker) then ⟨directory, report (some tripped), none⟩
  else
    match capture access file directory with
    | none => ⟨none, report (some tripped), none⟩
    | some (incident, written) =>
        if access.mark then
          ⟨some { incident with marker := true }, report (some tripped), written⟩
        else ⟨some incident, aborted, written⟩

/-- The healthy pass. -/
def clear (access : Access) (directory : Option Incident) : Outcome :=
  ⟨if access.unmark then directory.map fun incident => { incident with marker := false }
    else directory, report none, none⟩

def healthcheck (run : Run) (directory : Option Incident) : Outcome :=
  match run.verdict with
  | none => clear run.access directory
  | some tripped => trip run.access (run.evidence tripped) tripped directory

/-- The directory after a sequence of runs. -/
def history (runs : List Run) (directory : Option Incident) : Option Incident :=
  runs.foldl (fun directory run => (healthcheck run directory).directory) directory

/-! ## What is captured -/

/-- The capture of a run after an unhealthy one or not. -/
def onset (afterUnhealthy : Bool) (run : Run) : Option Capture :=
  if afterUnhealthy then none else run.verdict.map run.evidence

def lastUnhealthy (runs : List Run) : Bool := runs.getLast?.any Run.unhealthy

def capturesAfter : Bool → List Run → List Capture
  | _, [] => []
  | afterUnhealthy, run :: rest =>
      capturesAfter run.unhealthy rest ++ (onset afterUnhealthy run).toList

/-- The captures of a sequence of runs, the last one first. -/
def captures (runs : List Run) : List Capture := capturesAfter false runs

/-- The directory that a sequence of runs leaves. -/
def leaves (runs : List Run) : Incident := ⟨lastUnhealthy runs, (captures runs).take keepIncidents⟩

/-- The marker of the first trip cannot be made in the directory. -/
def Trapped (run : Run) (directory : Option Incident) : Prop :=
  run.unhealthy ∧ ¬ directory.any (·.marker) ∧ (directory.isSome ∨ run.access.mkdir) ∧
    ¬ run.access.mark

/-! ## Names sort as their times -/

theorem append_lt_append {α : Type} [LinearOrder α] {xs ys : List α} (h : xs < ys)
    (hlength : xs.length = ys.length) (us vs : List α) : xs ++ us < ys ++ vs := by
  induction xs generalizing ys with
  | nil =>
      obtain rfl : ys = [] := List.length_eq_zero_iff.mp hlength.symm
      exact absurd h (lt_irrefl _)
  | cons x xs ih =>
      cases ys with
      | nil => cases hlength
      | cons y ys =>
          rw [List.cons_append, List.cons_append, List.cons_lt_cons_iff]
          rcases List.cons_lt_cons_iff.mp h with hlt | ⟨rfl, hlt⟩
          · exact Or.inl hlt
          · exact Or.inr ⟨rfl, ih hlt (Nat.succ.inj hlength)⟩

theorem append_lt_append_left {α : Type} [LinearOrder α] (xs : List α) {us vs : List α}
    (h : us < vs) : xs ++ us < xs ++ vs := by
  induction xs with
  | nil => exact h
  | cons x xs ih =>
      rw [List.cons_append, List.cons_append, List.cons_lt_cons_iff]
      exact Or.inr ⟨rfl, ih⟩

theorem digitChar_lt {n m : ℕ} (h : n < m) (hm : m < 10) : digitChar n < digitChar m := by
  interval_cases m <;> interval_cases n <;> decide

theorem digitsOf_lt {width n m : ℕ} (h : n < m) (hm : m < 10 ^ width) :
    digitsOf width n < digitsOf width m := by
  induction width generalizing n m with
  | zero => omega
  | succ width ih =>
      rw [digitsOf, digitsOf]
      rw [pow_succ] at hm
      by_cases hfront : n / 10 < m / 10
      · exact append_lt_append (ih hfront (by omega)) (by rw [length_digitsOf, length_digitsOf]) _ _
      · have hsame : n / 10 = m / 10 := by omega
        rw [hsame]
        apply append_lt_append_left
        rw [List.cons_lt_cons_iff]
        exact Or.inl (digitChar_lt (by omega) (Nat.mod_lt _ (by decide)))

/-- The first of two fields decides if it can. -/
theorem digitsOf_append_lt {width n m : ℕ} {us vs : List Char} (hm : m < 10 ^ width)
    (h : n < m ∨ n = m ∧ us < vs) : digitsOf width n ++ us < digitsOf width m ++ vs := by
  rcases h with hlt | ⟨rfl, hlt⟩
  · exact append_lt_append (digitsOf_lt hlt hm) (by rw [length_digitsOf, length_digitsOf]) us vs
  · exact append_lt_append_left _ hlt

theorem compact_lt {s t : DateTime} (h : s.seconds < t.seconds) : compact s < compact t := by
  have hkey : s.key < t.key := DateTime.seconds_lt_iff.mp h
  have hs := s.valid
  have ht := t.valid
  have hsDay := hs.day.2.trans (daysInMonth_le _ _)
  have htDay := ht.day.2.trans (daysInMonth_le _ _)
  obtain ⟨-, hsMonth, -, hsHour, hsMinute, hsSecond⟩ := hs
  obtain ⟨htYear, htMonth, -, htHour, htMinute, htSecond⟩ := ht
  simp only [DateTime.key] at hkey
  simp only [compact, List.append_assoc]
  apply digitsOf_append_lt (by omega)
  refine (Nat.lt_or_ge s.year t.year).imp_right fun hyear => ⟨by omega, ?_⟩
  apply digitsOf_append_lt (by omega)
  refine (Nat.lt_or_ge s.month t.month).imp_right fun hmonth => ⟨by omega, ?_⟩
  apply digitsOf_append_lt (by omega)
  refine (Nat.lt_or_ge s.day t.day).imp_right fun hday => ⟨by omega, ?_⟩
  apply append_lt_append_left
  apply digitsOf_append_lt (by omega)
  refine (Nat.lt_or_ge s.hour t.hour).imp_right fun hhour => ⟨by omega, ?_⟩
  apply digitsOf_append_lt (by omega)
  refine (Nat.lt_or_ge s.minute t.minute).imp_right fun hminute => ⟨by omega, ?_⟩
  exact digitsOf_append_lt (by omega) (Or.inl (by omega))

theorem evidence_lt {earlier later : Run} (h : earlier.clock.seconds < later.clock.seconds)
    (before after : Trip) : (earlier.evidence before).name < (later.evidence after).name :=
  append_lt_append (compact_lt h) (by rw [length_compact, length_compact]) _ _

/-! ## One run -/

section Step

variable {run : Run}

theorem lastUnhealthy_append (runs : List Run) (run : Run) :
    lastUnhealthy (runs ++ [run]) = run.unhealthy := by
  simp [lastUnhealthy]

theorem capturesAfter_append (afterUnhealthy : Bool) (runs : List Run) (run : Run) :
    capturesAfter afterUnhealthy (runs ++ [run]) =
      (onset ((runs.getLast?.map Run.unhealthy).getD afterUnhealthy) run).toList ++
        capturesAfter afterUnhealthy runs := by
  induction runs generalizing afterUnhealthy with
  | nil => simp [capturesAfter]
  | cons first rest ih =>
      rw [List.cons_append, capturesAfter, ih, capturesAfter, List.append_assoc]
      cases rest with
      | nil => simp
      | cons second rest => simp [List.getLast?_cons]

theorem captures_append (runs : List Run) (run : Run) :
    captures (runs ++ [run]) = (onset (lastUnhealthy runs) run).toList ++ captures runs := by
  rw [captures, capturesAfter_append, captures, lastUnhealthy]
  cases runs.getLast? <;> rfl

/-- A run in a directory that it may write to. -/
theorem healthcheck_writable (incident : Incident) (haccess : run.access = writable)
    (hfew : incident.files.length ≤ keepIncidents)
    (hfalling : (((onset incident.marker run).toList ++ incident.files).map (·.name)).Pairwise
      fun x y => y < x) :
    healthcheck run (some incident) =
      ⟨some ⟨run.unhealthy,
          ((onset incident.marker run).toList ++ incident.files).take keepIncidents⟩,
        report run.verdict, onset incident.marker run⟩ := by
  obtain ⟨marker, files⟩ := incident
  have hall : files.take keepIncidents = files := List.take_of_length_le hfew
  rw [healthcheck, Run.unhealthy, onset, haccess]
  cases hverdict : run.verdict with
  | none =>
      cases marker with
      | true => simp [clear, writable, hall]
      | false => simp [clear, writable, hall]
  | some tripped =>
      cases marker with
      | true => simp [trip, hall]
      | false =>
          rw [onset, hverdict] at hfalling
          have hfile : ((run.evidence tripped :: files).map (·.name)).Pairwise fun x y => y < x :=
            hfalling
          have hnew : (files.filter fun other => other.name ≠ (run.evidence tripped).name) =
              files := by
            apply List.filter_eq_self.mpr
            intro other hother
            rw [List.map_cons, List.pairwise_cons] at hfile
            exact decide_eq_true (hfile.1 _ (List.mem_map_of_mem hother)).ne
          have hkept : kept (run.evidence tripped :: files) =
              (run.evidence tripped :: files).take keepIncidents := by
            rw [← filter_surplus_of_falling hfile keepIncidents, kept]
            congr!
          have hcapture : capture writable (run.evidence tripped) (some ⟨false, files⟩) =
              some (⟨false, (run.evidence tripped :: files).take keepIncidents⟩,
                some (run.evidence tripped)) := by
            rw [← hkept, capture, Option.some_or, Option.map_some, hnew]
            rfl
          simp only [trip, hcapture]
          rfl

theorem capture_eq_none_iff (access : Access) (file : Capture) (directory : Option Incident) :
    capture access file directory = none ↔ ¬ (directory.isSome ∨ access.mkdir) := by
  rw [capture, Option.map_eq_none_iff, Option.or_eq_none_iff]
  cases directory with
  | none => simp
  | some incident => simp

/-- A run says what the checks say unless the shell ends before it can. -/
theorem report_healthcheck (run : Run) (directory : Option Incident) :
    (healthcheck run directory).report = report run.verdict ↔ ¬ Trapped run directory := by
  rw [healthcheck, Trapped, Run.unhealthy]
  cases hverdict : run.verdict with
  | none => exact iff_of_true rfl fun h => Bool.false_ne_true h.1
  | some tripped =>
      have hreport : aborted ≠ report (some tripped) := fun h => by
        cases congrArg Report.line h
      simp only [trip]
      by_cases hmarker : directory.any (·.marker)
      · rw [if_pos hmarker]
        exact iff_of_true rfl fun h => h.2.1 hmarker
      · rw [if_neg hmarker]
        cases hcapture : capture run.access (run.evidence tripped) directory with
        | none =>
            have hnone := (capture_eq_none_iff _ _ _).mp hcapture
            exact iff_of_true rfl fun h => hnone h.2.2.1
        | some result =>
            have hdirectory : directory.isSome ∨ run.access.mkdir := by
              by_contra hnone
              rw [(capture_eq_none_iff _ _ _).mpr hnone] at hcapture
              cases hcapture
            cases hmark : run.access.mark with
            | true => exact iff_of_true rfl fun h => h.2.2.2 rfl
            | false =>
                apply iff_of_false hreport
                exact fun h => h ⟨rfl, hmarker, hdirectory, Bool.false_ne_true⟩

end Step

/-! ## Sequences of runs -/

section Runs

variable {runs : List Run}

/-- Every capture is the evidence of a run. -/
theorem mem_captures {file : Capture} (h : file ∈ captures runs) :
    ∃ run ∈ runs, ∃ tripped, file = run.evidence tripped := by
  induction runs using List.reverseRecOn with
  | nil => cases h
  | append_singleton runs run ih =>
      rw [captures_append, List.mem_append] at h
      rcases h with hnew | hold
      · rw [Option.mem_toList, onset] at hnew
        split_ifs at hnew
        obtain ⟨tripped, -, rfl⟩ := Option.map_eq_some_iff.mp hnew
        exact ⟨run, by simp, tripped, rfl⟩
      · obtain ⟨earlier, hearlier, tripped, rfl⟩ := ih hold
        exact ⟨earlier, List.mem_append_left _ hearlier, tripped, rfl⟩

/-- Later captures have greater names. -/
theorem captures_falling
    (hclock : runs.Pairwise fun s t => s.clock.seconds < t.clock.seconds) :
    ((captures runs).map (·.name)).Pairwise fun x y => y < x := by
  induction runs using List.reverseRecOn with
  | nil => exact List.Pairwise.nil
  | append_singleton runs run ih =>
      rw [List.pairwise_append] at hclock
      rw [captures_append, List.map_append, List.pairwise_append]
      refine ⟨?_, ih hclock.1, ?_⟩
      · cases onset (lastUnhealthy runs) run with
        | none => exact List.Pairwise.nil
        | some file => exact List.pairwise_singleton _ _
      · intro x hx y hy
        obtain ⟨newest, hnewest, rfl⟩ := List.mem_map.mp hx
        obtain ⟨other, hother, rfl⟩ := List.mem_map.mp hy
        obtain ⟨earlier, hearlier, before, rfl⟩ := mem_captures hother
        rw [Option.mem_toList, onset] at hnewest
        split_ifs at hnewest
        obtain ⟨after, -, rfl⟩ := Option.map_eq_some_iff.mp hnewest
        exact evidence_lt (hclock.2.2 earlier hearlier run List.mem_cons_self) before after

theorem history_append (runs : List Run) (run : Run) (directory : Option Incident) :
    history (runs ++ [run]) directory = (healthcheck run (history runs directory)).directory := by
  rw [history, List.foldl_append]
  rfl

/-- One more run after a sequence that left what it should. -/
theorem healthcheck_leaves (run : Run)
    (hclock : (runs ++ [run]).Pairwise fun s t => s.clock.seconds < t.clock.seconds)
    (haccess : run.access = writable) :
    healthcheck run (some (leaves runs)) =
      ⟨some (leaves (runs ++ [run])), report run.verdict, onset (lastUnhealthy runs) run⟩ := by
  have hfalling := captures_falling hclock
  rw [captures_append] at hfalling
  have hkept : (((onset (lastUnhealthy runs) run).toList ++
      (captures runs).take keepIncidents).map (·.name)).Pairwise fun x y => y < x := by
    apply List.Pairwise.sublist _ hfalling
    apply List.Sublist.map
    exact (List.take_sublist _ _).append_left _
  have hstep := healthcheck_writable (leaves runs) haccess (List.length_take_le _ _) hkept
  have hfiles : ((onset (lastUnhealthy runs) run).toList ++ (captures runs).take keepIncidents).take
      keepIncidents = (captures (runs ++ [run])).take keepIncidents := by
    rw [captures_append]
    cases onset (lastUnhealthy runs) run with
    | none => simp
    | some file => simp [keepIncidents, List.take_take]
  rw [hstep, leaves, leaves, hfiles, lastUnhealthy_append]

/-- What a sequence of runs leaves in an empty directory that stays writable. -/
theorem history_eq (hclock : runs.Pairwise fun s t => s.clock.seconds < t.clock.seconds)
    (haccess : ∀ run ∈ runs, run.access = writable) :
    history runs (some ⟨false, []⟩) = some (leaves runs) := by
  induction runs using List.reverseRecOn with
  | nil => rfl
  | append_singleton runs run ih =>
      have hbefore := ih (List.pairwise_append.mp hclock).1
        fun other hother => haccess other (List.mem_append_left _ hother)
      rw [history_append, hbefore, healthcheck_leaves run hclock (haccess run (by simp))]

/-- The first trip of an incident is captured and nothing else, the newest five captures stay, the
marker says whether the last run was unhealthy, and a run that is not trapped says what the checks
say. -/
theorem healthcheck_incidents (runs : List Run)
    (hclock : runs.Pairwise fun s t => s.clock.seconds < t.clock.seconds)
    (haccess : ∀ run ∈ runs, run.access = writable) :
    (∀ before run, before ++ [run] <+: runs →
      (healthcheck run (history before (some ⟨false, []⟩))).written =
        onset (lastUnhealthy before) run) ∧
    (∃ incident, history runs (some ⟨false, []⟩) = some incident ∧
      incident.marker = lastUnhealthy runs ∧
      incident.files = (captures runs).take keepIncidents) ∧
    ∀ run directory,
      (healthcheck run directory).report = report run.verdict ↔ ¬ Trapped run directory := by
  refine ⟨?_, ⟨leaves runs, history_eq hclock haccess, rfl, rfl⟩, report_healthcheck⟩
  intro before run hbegins
  have hclock' := hclock.sublist hbegins.sublist
  have haccess' : ∀ other ∈ before ++ [run], other.access = writable :=
    fun other hother => haccess other (hbegins.subset hother)
  have hbefore := history_eq (List.pairwise_append.mp hclock').1
    fun other hother => haccess' other (List.mem_append_left _ hother)
  rw [hbefore, healthcheck_leaves run hclock' (haccess' run (by simp))]

end Runs

/-! ## Runs of a container -/

def soundEnvironment : Environment where
  cmdlines := processes.map fun process => process.1.toList
  port := some true
  probe := some ⟨"200", 0⟩
  probeUrl := "https://localhost:8446/Marti/api/version"
  certs := []
  now := 1767225600
  log := some ["INFO started".toList]
  msgLog := none
  logFile := "/opt/tak/logs/takserver.log"
  msgLogFile := "/opt/tak/logs/takserver-messaging.log"

def firstClock : DateTime := ⟨⟨2026, 3, 14, 6, 30, 10⟩, by decide⟩

def secondClock : DateTime := ⟨⟨2026, 3, 14, 6, 30, 40⟩, by decide⟩

def soundRun : Run := ⟨soundEnvironment, writable, firstClock, 71⟩

def starvedEnvironment : Environment :=
  { soundEnvironment with log := some ["java.lang.OutOfMemoryError: heap".toList] }

def starvedRun : Run := ⟨starvedEnvironment, writable, secondClock, 72⟩

/-- The directory is there, and the user of the container may not write to it. -/
def lockedRun : Run :=
  ⟨starvedEnvironment, ⟨true, false, false, false, false⟩, secondClock, 72⟩

theorem healthcheck_starved :
    ∃ incident, history [soundRun, starvedRun] (some ⟨false, []⟩) = some incident ∧
      incident.marker = true ∧ incident.files.length = 1 := by
  have hclock : [soundRun, starvedRun].Pairwise
      fun s t => s.clock.seconds < t.clock.seconds := by
    rw [List.pairwise_pair]
    decide +kernel
  have haccess : ∀ run ∈ [soundRun, starvedRun], run.access = writable := by
    simp [soundRun, starvedRun]
  obtain ⟨incident, hhistory, hmarker, hfiles⟩ :=
    (healthcheck_incidents [soundRun, starvedRun] hclock haccess).2.1
  refine ⟨incident, hhistory, ?_, ?_⟩
  · rw [hmarker]
    decide +kernel
  · rw [hfiles]
    decide +kernel

theorem healthcheck_locked :
    (healthcheck lockedRun (some ⟨false, []⟩)).report = ⟨2, none⟩ ∧
      report lockedRun.verdict =
        ⟨1, some "UNHEALTHY: OutOfMemoryError in the last 500 lines of takserver.log"⟩ := by
  decide +kernel

end FastTAK.Incidents
