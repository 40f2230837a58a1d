import FastTAK.Monitor.EvaluatorSpec
import FastTAK.Monitor.Poll

/-!
# Which probe failures are heard

A target that exists but cannot be read should show as an item with an error or as an error
of the probe, and raise the status of its service.  The probes drop some failures; this
module says exactly which.
-/

namespace FastTAK.Health

open FastTAK.Calendar FastTAK.Text

/-- The probes that read targets outside the database and the containers. -/
inductive Probe where
  | disk
  | tls
  | certs
  | updates
  | config

def Probe.service : Probe → String
  | disk => "disk"
  | tls => "tls"
  | certs => "certs"
  | updates => "updates"
  | config => "config"

/-- Everything that the probes read. -/
structure Targets where
  mounts : String → Mount
  tls : TlsSettings
  handshake : String → ℕ → Handshake
  certDir : CertDir
  openssl : String → OpensslRun
  versions : Versions
  client : Option Raised
  answers : String → ReleaseAnswer
  startupEnv : EnvFile
  env : EnvFile
  now : ℚ

def Targets.run (t : Targets) : Probe → Except Raised Raw
  | .disk => .ok (getDiskUsage t.mounts)
  | .tls => getTlsStatus t.tls t.now t.handshake
  | .certs => getCertStatus t.certDir t.now t.openssl
  | .updates => checkUpdates t.versions t.client t.answers
  | .config => .ok (checkConfigDrift t.startupEnv t.env)

/-! ## Targets that could not be read -/

/-- The path exists and the system cannot say how full it is. -/
def Mount.Unread (mount : Mount) : Prop := mount = .unstatable ∨ mount = .unreadable

/-- The handshake gave no expiry date. -/
def Handshake.Unread (h : Handshake) : Prop := ∀ expiry, h ≠ .leaf expiry

/-- The expiry date in the output of `openssl`. -/
def expiryOf : OpensslRun → Option DateTime
  | .exited 0 stdout _ =>
      strptimeGmt (lastField "notAfter=" ((strip stdout.toList).splitOn '\n')).toList
  | _ => none

/-- The names in the directory, whether it can be scanned or not. -/
def CertDir.names : CertDir → List String
  | absent | unstatable _ => []
  | unscannable names | listed names => names

def CertDir.Scannable (dir : CertDir) : Prop := ∀ names, dir ≠ .unscannable names

/-- The request or the reading of its body raised, or the status was not 200. -/
def ReleaseAnswer.Unread (answer : ReleaseAnswer) : Prop :=
  ∀ tagName htmlUrl, answer ≠ .release tagName htmlUrl

/-- The file exists, and it cannot be read or could not be read at startup. -/
def envUnread (startup current : EnvFile) : Prop :=
  current ≠ .absent ∧ (current = .unreadable ∨ startup = .unreadable)

/-- The targets of a probe that exist but could not be read, by the field and the name under
which an item would show them. -/
def Targets.Unread (t : Targets) : Probe → String → String → Prop
  | .disk, key, name => key = "mount" ∧
      ∃ path, (name, path) ∈ mountPoints ∧ (t.mounts path).Unread
  | .tls, key, name => key = "domain" ∧
      ∃ endpoint ∈ endpoints t.tls, name = endpointName endpoint.1 endpoint.2 ∧
        (t.handshake endpoint.1 endpoint.2).Unread
  | .certs, key, name => key = "file" ∧ name ∈ monitoredCerts t.certDir.names ∧
      (expiryOf (t.openssl name) = none ∨ ¬t.certDir.Scannable)
  | .updates, key, name => key = "name" ∧
      ∃ repo current, (name, repo, current) ∈ components t.versions ∧
        (t.client.isSome ∨ (t.answers repo).Unread)
  | .config, _, _ => envUnread t.startupEnv t.env

/-- The result of a probe says that it could not read the target: with an item that carries
an error, or with an error of the probe. -/
def Reports (result : Except Raised Raw) (key name : String) : Prop :=
  match result with
  | .error _ => True
  | .ok (.error _) => True
  | .ok (.items rows) => ∃ item ∈ rows, item.lookup key = some (.str name) ∧ reportsError item
  | .ok (.values _) => False

/-- A configuration with thresholds of the shipped shape. -/
structure ProbeConfig extends ServiceConfig where
  usable : Usable toServiceConfig

def ProbeConfig.errorLevel (config : ProbeConfig) : Status :=
  (errorStatus config.levels).getD .warning

theorem ProbeConfig.errorStatus_eq (config : ProbeConfig) :
    errorStatus config.levels = some config.errorLevel := by
  obtain ⟨level, hlevel⟩ := Option.isSome_iff_exists.mp config.usable.errorStatus
  rw [ProbeConfig.errorLevel, hlevel, Option.getD_some]

def Targets.poll (t : Targets) (probe : Probe) (config : ProbeConfig) : Poll where
  now := t.now
  service := probe.service
  result := t.run probe
  config := config.toServiceConfig

/-- No failure of the probe is silent: the result reports it, and the poll leaves the service
at its error status or above. -/
def NeverSilent (t : Targets) (probe : Probe) (config : ProbeConfig) : Prop :=
  ∀ key name, t.Unread probe key name →
    Reports (t.run probe) key name ∧
      ∀ alertCooldown m, ∃ snapshot,
        (Health.poll alertCooldown m (t.poll probe config)).1.cache probe.service =
          some snapshot ∧ config.errorLevel ≤ snapshot.status

/-! ## Reported errors raise the status -/

theorem plain_append {first rest : Fields} (hfirst : Plain first) (hrest : Plain rest) :
    Plain (first ++ rest) := by
  intro entry hentry
  rw [List.mem_append] at hentry
  cases hentry with
  | inl hleft => exact hfirst entry hleft
  | inr hright => exact hrest entry hright

/-- The items of a probe hold texts and numbers. -/
def PlainResult : Except Raised Raw → Prop
  | .ok (.items rows) => ∀ item ∈ rows, Plain item
  | _ => True

/-- What is reported reaches the cache. -/
theorem cached_of_reports {t : Targets} {probe : Probe} {config : ProbeConfig}
    {key name : String} (hplain : PlainResult (t.run probe))
    (hreports : Reports (t.run probe) key name) (alertCooldown : ℚ) (m : Monitor) :
    ∃ snapshot, (Health.poll alertCooldown m (t.poll probe config)).1.cache probe.service =
      some snapshot ∧ config.errorLevel ≤ snapshot.status := by
  have hcached : ∀ e, (t.poll probe config).evaluated = some e →
      config.errorLevel ≤ e.status → ∃ snapshot,
        (Health.poll alertCooldown m (t.poll probe config)).1.cache probe.service =
          some snapshot ∧ config.errorLevel ≤ snapshot.status := by
    intro e heval hle
    refine ⟨(t.poll probe config).snapshot e, ?_, hle⟩
    simp only [Health.poll, heval]
    exact Function.update_self _ _ _
  cases hresult : t.run probe with
  | error exc =>
      apply hcached ⟨.critical, some (clip 200 exc.text), true⟩ _ (Status.le_critical _)
      simp [Poll.evaluated, Poll.raw, Targets.poll, hresult]
  | ok raw =>
      have hraw : (t.poll probe config).raw = raw := by
        simp [Poll.raw, Targets.poll, hresult]
      rw [hresult] at hreports hplain
      cases raw with
      | error text =>
          apply hcached ⟨.critical, some text, true⟩ _ (Status.le_critical _)
          simp only [Poll.evaluated, hraw]
      | values fields => exact hreports.elim
      | items rows =>
          obtain ⟨item, hitem, _, herror⟩ := hreports
          obtain ⟨worst, hworst⟩ := Option.isSome_iff_exists.mp
            (evaluateList_isSome config.usable hplain)
          obtain ⟨minLevel, hmin⟩ := Option.isSome_iff_exists.mp config.usable.minLevel
          have hle : config.errorLevel ≤ worst.1 :=
            errorStatus_le_of_evaluateList hitem herror config.errorStatus_eq hworst
          apply hcached ⟨worst.1, worst.2.filter (· ≠ ""), minLevel ≤ worst.1⟩ _ hle
          have hevaluated : (t.poll probe config).evaluated =
              evaluate (.items rows) config.toServiceConfig := by
            simp only [Poll.evaluated, hraw]
            rfl
          rw [hevaluated]
          simp [evaluate, judge, config.usable.noContainers, hworst, hmin]

theorem neverSilent_of_reports {t : Targets} {probe : Probe} {config : ProbeConfig}
    (hplain : PlainResult (t.run probe))
    (hreports : ∀ key name, t.Unread probe key name → Reports (t.run probe) key name) :
    NeverSilent t probe config := by
  intro key name hunread
  have hreported := hreports key name hunread
  exact ⟨hreported, cached_of_reports hplain hreported⟩

/-! ## Error items -/

theorem clip_ne_empty {n : ℕ} {text : String} (hn : n ≠ 0) (htext : text ≠ "") :
    clip n text ≠ "" := by
  rw [clip, Ne, String.ofList_eq_empty_iff, List.take_eq_nil_iff]
  intro hempty
  cases hempty with
  | inl hzero => exact hn hzero
  | inr hnil => exact htext (String.toList_eq_nil_iff.mp hnil)

theorem append_ne_empty_left {first : String} (hfirst : first ≠ "") (rest : String) :
    first ++ rest ≠ "" := by
  intro hempty
  exact hfirst (String.append_eq_empty_iff.mp hempty).1

theorem plain_errorItem {key : String} (hkey : key ∈ textKeys) (name text : String) :
    Plain (errorItem key name text) := by
  intro entry hentry
  simp only [errorItem, List.mem_cons, List.not_mem_nil, or_false] at hentry
  cases hentry with
  | inl hhead => exact Or.inl (hhead ▸ hkey)
  | inr hlast => exact Or.inl (hlast ▸ (by decide : "error" ∈ textKeys))

/-- An error item, with more fields behind, reports its target. -/
theorem reports_errorItem {key name text : String} (hkey : key ≠ "error") (htext : text ≠ "")
    (more : Fields) : (errorItem key name text ++ more).lookup key = some (.str name) ∧
      reportsError (errorItem key name text ++ more) := by
  constructor
  · simp [errorItem]
  · have hne : ("error" == key) = false := by simpa using hkey.symm
    simp [reportsError, errorItem, List.lookup_cons, hne, Value.truthy, htext]

/-! ## Disks -/

theorem plain_diskItem (label path : String) (st : Statvfs) :
    Plain (diskItem label path st) := by
  intro entry hentry
  simp only [diskItem, List.mem_cons, List.not_mem_nil, or_false] at hentry
  rcases hentry with rfl | rfl | rfl | rfl | rfl | rfl
  · exact Or.inl (by decide : "mount" ∈ textKeys)
  · exact Or.inl (by decide : "path" ∈ textKeys)
  · exact Or.inr rfl
  · exact Or.inr rfl
  · exact Or.inr rfl
  · right
    dsimp only
    split_ifs <;> rfl

/-- All items of the disk probe are readings. -/
theorem eq_diskItem_of_mem {mounts : String → Mount} {points : List (String × String)}
    {found : List ℕ × List Fields} {item : Fields}
    (hitem : item ∈ (points.foldl (diskRound mounts) found).2) :
    item ∈ found.2 ∨ ∃ label path st, item = diskItem label path st := by
  induction points generalizing found with
  | nil => exact Or.inl hitem
  | cons point rest ih =>
      rw [List.foldl_cons] at hitem
      cases ih hitem with
      | inr hreading => exact Or.inr hreading
      | inl hround =>
          unfold diskRound at hround
          split at hround
          · split_ifs at hround
            · exact Or.inl hround
            · rw [List.mem_append, List.mem_singleton] at hround
              cases hround with
              | inl hbefore => exact Or.inl hbefore
              | inr hnew => exact Or.inr ⟨_, _, _, hnew⟩
          · exact Or.inl hround

theorem diskItem_of_mem {mounts : String → Mount} {item : Fields}
    (hitem : item ∈ (mountPoints.foldl (diskRound mounts) ([], [])).2) :
    ∃ label path st, item = diskItem label path st :=
  (eq_diskItem_of_mem hitem).resolve_left (by simp)

/-- The disk probe drops every mount point that it cannot read. -/
theorem disk_neverSilent_iff (t : Targets) (config : ProbeConfig) :
    NeverSilent t .disk config ↔ ∀ point ∈ mountPoints, ¬(t.mounts point.2).Unread := by
  constructor
  · intro hheard point hpoint hunread
    obtain ⟨item, hitem, _, herror⟩ :=
      (hheard "mount" point.1 ⟨rfl, point.2, hpoint, hunread⟩).1
    obtain ⟨label, path, st, rfl⟩ := diskItem_of_mem hitem
    simp [reportsError, diskItem, List.lookup_cons, Value.truthy] at herror
  · intro hread
    apply neverSilent_of_reports
    · intro item hitem
      obtain ⟨label, path, st, rfl⟩ := diskItem_of_mem hitem
      exact plain_diskItem label path st
    · intro key name hunread
      obtain ⟨_, path, hpoint, hmount⟩ := hunread
      exact absurd hmount (hread _ hpoint)

/-! ## TLS endpoints -/

theorem plain_probeTlsExpiry {now : ℚ} {hostname : String} {port : ℕ} {h : Handshake}
    {info : Fields} (hinfo : probeTlsExpiry now hostname port h = .ok info) : Plain info := by
  have hdomain : "domain" ∈ textKeys := by decide
  cases h with
  | failed exc => exact Except.ok.inj hinfo ▸ plain_errorItem hdomain _ _
  | noCertificate => exact Except.ok.inj hinfo ▸ plain_errorItem hdomain _ _
  | unparseable text => exact Except.ok.inj hinfo ▸ plain_errorItem hdomain _ _
  | broken exc => cases hinfo
  | leaf expiry =>
      obtain rfl := Except.ok.inj hinfo
      intro entry hentry
      simp only [List.mem_cons, List.not_mem_nil, or_false] at hentry
      rcases hentry with rfl | rfl | rfl
      · exact Or.inl hdomain
      · exact Or.inl (by decide : "expires" ∈ textKeys)
      · exact Or.inr rfl

/-- A handshake without an expiry date gives an error item with a text. -/
theorem probeTlsExpiry_of_unread {now : ℚ} {hostname : String} {port : ℕ} {h : Handshake}
    (hunread : h.Unread) {info : Fields} (hinfo : probeTlsExpiry now hostname port h = .ok info) :
    ∃ text, text ≠ "" ∧ info = errorItem "domain" (endpointName hostname port) text := by
  cases h with
  | failed exc =>
      have htext : exc.name ++ (if exc.text = "" then "" else s!": {exc.text}") ≠ "" :=
        append_ne_empty_left exc.named _
      exact ⟨_, clip_ne_empty (by decide) htext, (Except.ok.inj hinfo).symm⟩
  | noCertificate => exact ⟨_, by decide, (Except.ok.inj hinfo).symm⟩
  | unparseable text =>
      have htext : s!"unparseable certificate: {text}" ≠ "" :=
        append_ne_empty_left (by decide) _
      exact ⟨_, clip_ne_empty (by decide) htext, (Except.ok.inj hinfo).symm⟩
  | broken exc => cases hinfo
  | leaf expiry => exact absurd rfl (hunread expiry)

/-- One round adds a plain item or none, and an error item always. -/
theorem tlsRound_spec {now : ℚ} {handshake : String → ℕ → Handshake}
    {found found' : List Value × List Fields} {endpoint : String × ℕ}
    (hround : tlsRound now handshake found endpoint = .ok found') :
    (∃ added, found'.2 = found.2 ++ added ∧ ∀ item ∈ added, Plain item) ∧
      ((handshake endpoint.1 endpoint.2).Unread → ∃ text, text ≠ "" ∧
        errorItem "domain" (endpointName endpoint.1 endpoint.2) text ∈ found'.2) := by
  unfold tlsRound at hround
  cases hinfo : probeTlsExpiry now endpoint.1 endpoint.2 (handshake endpoint.1 endpoint.2) with
  | error exc => rw [hinfo] at hround; cases hround
  | ok info =>
      rw [hinfo] at hround
      change (if info.has "error" = true then _ else _) = _ at hround
      have hplain : ∀ item ∈ [info], Plain item := by
        intro item hitem
        rw [List.mem_singleton.mp hitem]
        exact plain_probeTlsExpiry hinfo
      have hnone : ∀ item ∈ ([] : List Fields), Plain item := by simp
      split_ifs at hround with herror hseen
      · obtain rfl := Except.ok.inj hround
        refine ⟨⟨[info], rfl, hplain⟩, fun hunread => ?_⟩
        obtain ⟨text, htext, rfl⟩ := probeTlsExpiry_of_unread hunread hinfo
        exact ⟨text, htext, by simp⟩
      · obtain rfl := Except.ok.inj hround
        refine ⟨⟨[], by simp, hnone⟩, fun hunread => ?_⟩
        obtain ⟨text, htext, rfl⟩ := probeTlsExpiry_of_unread hunread hinfo
        exact absurd rfl herror
      · obtain rfl := Except.ok.inj hround
        refine ⟨⟨[info], rfl, hplain⟩, fun hunread => ?_⟩
        obtain ⟨text, htext, rfl⟩ := probeTlsExpiry_of_unread hunread hinfo
        exact absurd rfl herror

theorem tls_loop {now : ℚ} {handshake : String → ℕ → Handshake}
    {list : List (String × ℕ)} {found found' : List Value × List Fields}
    (hloop : list.foldlM (tlsRound now handshake) found = .ok found') :
    (∃ added, found'.2 = found.2 ++ added ∧ ∀ item ∈ added, Plain item) ∧
      ∀ endpoint ∈ list, (handshake endpoint.1 endpoint.2).Unread → ∃ text, text ≠ "" ∧
        errorItem "domain" (endpointName endpoint.1 endpoint.2) text ∈ found'.2 := by
  induction list generalizing found with
  | nil =>
      obtain rfl := Except.ok.inj hloop
      exact ⟨⟨[], by simp, by simp⟩, by simp⟩
  | cons endpoint rest ih =>
      rw [List.foldlM_cons] at hloop
      cases hround : tlsRound now handshake found endpoint with
      | error exc => rw [hround] at hloop; cases hloop
      | ok next =>
          rw [hround] at hloop
          obtain ⟨⟨first, hfirst, hfirstPlain⟩, hhere⟩ := tlsRound_spec hround
          obtain ⟨⟨later, hlater, hlaterPlain⟩, hthere⟩ := ih hloop
          constructor
          · refine ⟨first ++ later, by rw [hlater, hfirst, List.append_assoc], ?_⟩
            intro item hitem
            rw [List.mem_append] at hitem
            exact hitem.elim (hfirstPlain item) (hlaterPlain item)
          · intro target htarget hunread
            rw [List.mem_cons] at htarget
            cases htarget with
            | inl hhead =>
                subst hhead
                obtain ⟨text, htext, hmem⟩ := hhere hunread
                exact ⟨text, htext, by rw [hlater]; exact List.mem_append_left _ hmem⟩
            | inr htail => exact hthere target htail hunread

/-- The TLS probe reports every endpoint whose certificate it cannot read. -/
theorem tls_neverSilent (t : Targets) (config : ProbeConfig) : NeverSilent t .tls config := by
  have hresult : t.run .tls = getTlsStatus t.tls t.now t.handshake := rfl
  unfold getTlsStatus at hresult
  cases hloop : (endpoints t.tls).foldlM (tlsRound t.now t.handshake) ([], []) with
  | error exc =>
      rw [hloop] at hresult
      change t.run .tls = .error exc at hresult
      apply neverSilent_of_reports
      · rw [hresult]; trivial
      · intro key name _
        rw [hresult]; trivial
  | ok found =>
      rw [hloop] at hresult
      change t.run .tls = .ok (.items found.2) at hresult
      obtain ⟨⟨added, hadded, hplain⟩, hreported⟩ := tls_loop hloop
      rw [List.nil_append] at hadded
      apply neverSilent_of_reports
      · rw [hresult, hadded]
        exact hplain
      · intro key name hunread
        obtain ⟨rfl, endpoint, hendpoint, rfl, hhandshake⟩ := hunread
        obtain ⟨text, htext, hmem⟩ := hreported endpoint hendpoint hhandshake
        rw [hresult]
        refine ⟨_, hmem, ?_⟩
        rw [← List.append_nil (errorItem _ _ _)]
        exact reports_errorItem (by decide) htext []

/-! ## Certificate files -/

/-- A certificate whose expiry date cannot be read gives an error item with a text. -/
theorem parseCertExpiry_of_unread {now : ℚ} {name : String} {run : OpensslRun}
    (hunread : expiryOf run = none) {info : Fields}
    (hinfo : parseCertExpiry now name run = .ok info) :
    ∃ text, text ≠ "" ∧ info = errorItem "file" name text := by
  cases run with
  | timedOut => exact ⟨_, by decide, (Except.ok.inj hinfo).symm⟩
  | notStarted text => cases hinfo
  | broken exc => cases hinfo
  | exited code stdout stderr =>
      unfold parseCertExpiry at hinfo
      dsimp only at hinfo
      split_ifs at hinfo with hcode hempty
      · exact ⟨_, append_ne_empty_left (by decide) _, (Except.ok.inj hinfo).symm⟩
      · exact ⟨_, by decide, (Except.ok.inj hinfo).symm⟩
      · have hzero : code = 0 := not_not.mp hcode
        subst hzero
        have hdate : strptimeGmt
            (lastField "notAfter=" ((strip stdout.toList).splitOn '\n')).toList = none := hunread
        rw [hdate] at hinfo
        exact ⟨_, append_ne_empty_left (by decide) _, (Except.ok.inj hinfo).symm⟩

theorem plain_parseCertExpiry {now : ℚ} {name : String} {run : OpensslRun} {info : Fields}
    (hinfo : parseCertExpiry now name run = .ok info) : Plain info := by
  have hfile : "file" ∈ textKeys := by decide
  cases run with
  | timedOut => exact Except.ok.inj hinfo ▸ plain_errorItem hfile _ _
  | notStarted text => cases hinfo
  | broken exc => cases hinfo
  | exited code stdout stderr =>
      unfold parseCertExpiry at hinfo
      dsimp only at hinfo
      split_ifs at hinfo
      · exact Except.ok.inj hinfo ▸ plain_errorItem hfile _ _
      · exact Except.ok.inj hinfo ▸ plain_errorItem hfile _ _
      · split at hinfo
        · exact Except.ok.inj hinfo ▸ plain_errorItem hfile _ _
        · obtain rfl := Except.ok.inj hinfo
          intro entry hentry
          simp only [List.mem_cons, List.not_mem_nil, or_false] at hentry
          rcases hentry with rfl | rfl | rfl | rfl
          · exact Or.inl hfile
          · exact Or.inl (by decide : "subject" ∈ textKeys)
          · exact Or.inl (by decide : "expires" ∈ textKeys)
          · exact Or.inr rfl

theorem certRounds_spec {now : ℚ} {openssl : String → OpensslRun} {names : List String}
    {results : List Fields} (hrounds : certRounds now openssl names = .ok results) :
    (∀ item ∈ results, Plain item) ∧
      ∀ name ∈ names, expiryOf (openssl name) = none → ∃ text more, text ≠ "" ∧
        errorItem "file" name text ++ more ∈ results := by
  induction names generalizing results with
  | nil =>
      obtain rfl := Except.ok.inj hrounds
      exact ⟨by simp, by simp⟩
  | cons name names ih =>
      unfold certRounds at hrounds
      cases hinfo : parseCertExpiry now name (openssl name) with
      | error exc => rw [hinfo] at hrounds; cases hrounds
      | ok info =>
          rw [hinfo] at hrounds
          cases hrest : certRounds now openssl names with
          | error exc => rw [hrest] at hrounds; cases hrounds
          | ok rest =>
              rw [hrest] at hrounds
              obtain rfl := Except.ok.inj hrounds
              obtain ⟨hplain, hreported⟩ := ih hrest
              have hcategory : Plain [("category", .str (categorizeCert name))] := by
                intro entry hentry
                rw [List.mem_singleton] at hentry
                exact Or.inl (hentry ▸ (by decide : "category" ∈ textKeys))
              constructor
              · intro item hitem
                rw [List.mem_cons] at hitem
                cases hitem with
                | inl hhead =>
                    exact hhead ▸ plain_append (plain_parseCertExpiry hinfo) hcategory
                | inr htail => exact hplain item htail
              · intro target htarget hunread
                rw [List.mem_cons] at htarget
                cases htarget with
                | inl hhead =>
                    subst hhead
                    obtain ⟨text, htext, rfl⟩ := parseCertExpiry_of_unread hunread hinfo
                    exact ⟨text, [("category", .str (categorizeCert target))], htext, by simp⟩
                | inr htail =>
                    obtain ⟨text, more, htext, hmem⟩ := hreported target htail hunread
                    exact ⟨text, more, htext, List.mem_cons_of_mem _ hmem⟩

theorem plainResult_certs (dir : CertDir) (now : ℚ) (openssl : String → OpensslRun) :
    PlainResult (getCertStatus dir now openssl) := by
  cases dir with
  | absent => exact fun item hitem => absurd hitem (List.not_mem_nil)
  | unstatable exc => trivial
  | unscannable names => exact fun item hitem => absurd hitem (List.not_mem_nil)
  | listed names =>
      unfold getCertStatus
      dsimp only
      cases hrounds : certRounds now openssl (monitoredCerts names) with
      | ok results => exact (certRounds_spec hrounds).1
      | error exc => cases exc <;> trivial

/-- The certificate probe is silent about a directory that it cannot scan, and about nothing
else. -/
theorem certs_neverSilent_iff (t : Targets) (config : ProbeConfig) :
    NeverSilent t .certs config ↔
      (t.certDir.Scannable ∨ monitoredCerts t.certDir.names = []) := by
  constructor
  · intro hheard
    by_contra hsilent
    rw [not_or] at hsilent
    obtain ⟨hscan, hnames⟩ := hsilent
    obtain ⟨name, hname⟩ := List.exists_mem_of_ne_nil _ hnames
    have hreports := (hheard "file" name ⟨rfl, hname, Or.inr hscan⟩).1
    obtain ⟨names, hdir⟩ := not_forall.mp hscan
    rw [not_not] at hdir
    simp [Targets.run, getCertStatus, hdir, Reports] at hreports
  · intro hheard
    have hplain : PlainResult (t.run .certs) := plainResult_certs _ _ _
    apply neverSilent_of_reports hplain
    intro key name hunread
    obtain ⟨rfl, hname, hcase⟩ := hunread
    have hscan : t.certDir.Scannable := by
      cases hheard with
      | inl hscan => exact hscan
      | inr hnone =>
          rw [hnone] at hname
          simp at hname
    have hexpiry : expiryOf (t.openssl name) = none := hcase.resolve_right (not_not.mpr hscan)
    change Reports (getCertStatus t.certDir t.now t.openssl) "file" name
    cases hdir : t.certDir with
    | absent => simp [hdir, CertDir.names, monitoredCerts] at hname
    | unstatable exc => trivial
    | unscannable names => exact absurd hdir (hscan names)
    | listed names =>
        rw [hdir] at hname
        unfold getCertStatus
        dsimp only
        cases hrounds : certRounds t.now t.openssl (monitoredCerts names) with
        | ok results =>
            obtain ⟨text, more, htext, hmem⟩ :=
              (certRounds_spec hrounds).2 name hname hexpiry
            exact ⟨_, hmem, reports_errorItem (by decide) htext more⟩
        | error exc => cases exc <;> trivial

/-! ## Releases -/

theorem plain_failedUpdate (name current error : String) :
    Plain (failedUpdate name current error) := by
  intro entry hentry
  simp only [failedUpdate, List.mem_cons, List.not_mem_nil, or_false] at hentry
  rcases hentry with rfl | rfl | rfl | rfl | rfl
  · exact Or.inl (by decide : "name" ∈ textKeys)
  · exact Or.inl (by decide : "current" ∈ textKeys)
  · exact Or.inl (by decide : "latest" ∈ textKeys)
  · exact Or.inr rfl
  · exact Or.inl (by decide : "error" ∈ textKeys)

theorem plain_updateItem (name current : String) (answer : ReleaseAnswer) :
    Plain (updateItem name current answer) := by
  cases answer with
  | raised exc => exact plain_failedUpdate _ _ _
  | rejected code => exact plain_failedUpdate _ _ _
  | release tagName htmlUrl =>
      intro entry hentry
      simp only [updateItem, List.mem_cons, List.not_mem_nil, or_false] at hentry
      rcases hentry with rfl | rfl | rfl | rfl | rfl
      · exact Or.inl (by decide : "name" ∈ textKeys)
      · exact Or.inl (by decide : "current" ∈ textKeys)
      · exact Or.inl (by decide : "latest" ∈ textKeys)
      · exact Or.inr rfl
      · exact Or.inl (by decide : "release_url" ∈ textKeys)

theorem lookup_name_updateItem (name current : String) (answer : ReleaseAnswer) :
    (updateItem name current answer).lookup "name" = some (.str name) := by
  cases answer <;> simp [updateItem, failedUpdate]

/-- The item reports an error unless the exception had no text. -/
theorem reportsError_failedUpdate_iff (name current error : String) :
    reportsError (failedUpdate name current error) ↔ error ≠ "" := by
  simp [reportsError, failedUpdate, List.lookup_cons, Value.truthy]

theorem not_reportsError_release (name current tagName : String) (htmlUrl : Value) :
    ¬reportsError (updateItem name current (.release tagName htmlUrl)) := by
  simp [reportsError, updateItem, List.lookup_cons, Value.truthy]

theorem clip_empty (n : ℕ) : clip n "" = "" := by
  simp [clip]

/-- A component is known by its name. -/
theorem component_eq {versions : Versions} {first second : String × String × String}
    (hfirst : first ∈ components versions) (hsecond : second ∈ components versions)
    (hname : first.1 = second.1) : first = second := by
  simp only [components, List.mem_cons, List.not_mem_nil, or_false] at hfirst hsecond
  rcases hfirst with rfl | rfl | rfl <;> rcases hsecond with rfl | rfl | rfl <;>
    first | rfl | simp at hname

/-- The update probe is silent about exceptions without a text, and about nothing else. -/
theorem updates_neverSilent_iff (t : Targets) (config : ProbeConfig) :
    NeverSilent t .updates config ↔ (t.client = none → ∀ component ∈ components t.versions,
      ∀ exc, t.answers component.2.1 = .raised exc → exc.text ≠ "") := by
  constructor
  · intro hheard hclient component hcomponent exc hanswer hempty
    have hunread : t.Unread .updates "name" component.1 := by
      refine ⟨rfl, component.2.1, component.2.2, hcomponent, Or.inr ?_⟩
      intro tagName htmlUrl
      rw [hanswer]
      exact ReleaseAnswer.noConfusion
    have hreports := (hheard "name" component.1 hunread).1
    simp only [Targets.run, checkUpdates, hclient, Reports] at hreports
    obtain ⟨item, hitem, hname, herror⟩ := hreports
    obtain ⟨other, hother, rfl⟩ := List.mem_map.mp hitem
    rw [lookup_name_updateItem, Option.some.injEq, Value.str.injEq] at hname
    obtain rfl := component_eq hother hcomponent hname
    rw [hanswer] at herror
    exact (reportsError_failedUpdate_iff _ _ _).mp herror (by rw [hempty, clip_empty])
  · intro hheard
    cases hclient : t.client with
    | some exc =>
        have hresult : t.run .updates = .error exc := by
          simp only [Targets.run, checkUpdates, hclient]
        apply neverSilent_of_reports
        · rw [hresult]; trivial
        · intro key name _
          rw [hresult]; trivial
    | none =>
        have hresult : t.run .updates = .ok (.items ((components t.versions).map
            (fun c => updateItem c.1 c.2.2 (t.answers c.2.1)))) := by
          simp only [Targets.run, checkUpdates, hclient]
        apply neverSilent_of_reports
        · rw [hresult]
          intro item hitem
          obtain ⟨component, _, rfl⟩ := List.mem_map.mp hitem
          exact plain_updateItem _ _ _
        · intro key name hunread
          obtain ⟨rfl, repo, current, hcomponent, hcase⟩ := hunread
          rw [hclient] at hcase
          have hanswer : (t.answers repo).Unread := hcase.resolve_left (by simp)
          rw [hresult]
          refine ⟨_, List.mem_map.mpr ⟨_, hcomponent, rfl⟩,
            lookup_name_updateItem _ _ _, ?_⟩
          cases hkind : t.answers repo with
          | raised exc =>
              have htext := hheard hclient _ hcomponent exc hkind
              simp only [updateItem]
              exact (reportsError_failedUpdate_iff _ _ _).mpr (clip_ne_empty (by decide) htext)
          | rejected code =>
              simp only [updateItem]
              exact (reportsError_failedUpdate_iff _ _ _).mpr
                (append_ne_empty_left (by decide) _)
          | release tagName htmlUrl => exact absurd hkind (hanswer tagName htmlUrl)

/-! ## The configuration file -/

/-- The drift probe is silent about a file for which it has no baseline, and about nothing
else. -/
theorem config_neverSilent_iff (t : Targets) (config : ProbeConfig) :
    NeverSilent t .config config ↔
      (hashFile t.startupEnv = none → ¬envUnread t.startupEnv t.env) := by
  have hresult : t.run .config = .ok (checkConfigDrift t.startupEnv t.env) := rfl
  constructor
  · intro hheard hbaseline hunread
    have hreports := (hheard "" "" hunread).1
    simp [hresult, checkConfigDrift, hbaseline, Reports] at hreports
  · intro hheard
    apply neverSilent_of_reports
    · rw [hresult]
      unfold checkConfigDrift
      split
      · trivial
      · split
        · trivial
        · split_ifs <;> trivial
    · intro key name hunread
      cases hstartup : t.startupEnv with
      | absent => exact absurd hunread (hheard (by rw [hstartup]; rfl))
      | unreadable => exact absurd hunread (hheard (by rw [hstartup]; rfl))
      | readable digest =>
          obtain ⟨_, hcase⟩ := hunread
          rw [hstartup] at hcase
          have hunreadable : t.env = .unreadable := hcase.resolve_right (by simp)
          simp [hresult, checkConfigDrift, hstartup, hunreadable, hashFile, Reports]

/-! ## All probes -/

/-- The failures that the probes do report. -/
structure Audible (t : Targets) : Prop where
  disk : ∀ point ∈ mountPoints, ¬(t.mounts point.2).Unread
  certs : t.certDir.Scannable ∨ monitoredCerts t.certDir.names = []
  updates : t.client = none → ∀ component ∈ components t.versions,
    ∀ exc, t.answers component.2.1 = .raised exc → exc.text ≠ ""
  config : hashFile t.startupEnv = none → ¬envUnread t.startupEnv t.env

/-- Every failure of the five probes is reported and raises the status of its service if and
only if no mount point, no certificate directory and no configuration file is dropped and no
exception of a release page has an empty text. -/
theorem neverSilent_iff_audible (t : Targets) (configs : Probe → ProbeConfig) :
    (∀ probe, NeverSilent t probe (configs probe)) ↔ Audible t := by
  constructor
  · intro hheard
    exact ⟨(disk_neverSilent_iff t _).mp (hheard .disk),
      (certs_neverSilent_iff t _).mp (hheard .certs),
      (updates_neverSilent_iff t _).mp (hheard .updates),
      (config_neverSilent_iff t _).mp (hheard .config)⟩
  · intro haudible probe
    cases probe with
    | disk => exact (disk_neverSilent_iff t _).mpr haudible.disk
    | tls => exact tls_neverSilent t _
    | certs => exact (certs_neverSilent_iff t _).mpr haudible.certs
    | updates => exact (updates_neverSilent_iff t _).mpr haudible.updates
    | config => exact (config_neverSilent_iff t _).mpr haudible.config

/-- The configuration of `thresholds.yml`. -/
def shippedConfig : Probe → ProbeConfig
  | .disk => ⟨diskConfig, usable_diskConfig⟩
  | .tls | .certs => ⟨expiryConfig, usable_expiryConfig⟩
  | .updates => ⟨updatesConfig, usable_updatesConfig⟩
  | .config => ⟨driftConfig, usable_driftConfig⟩

/-- A host on which only the certificate volume cannot be read. -/
def brokenVolume : Targets where
  mounts path := if path = "/" then .mounted ⟨1, 4096, 100, 50⟩ else .unreadable
  tls := ⟨"localhost", "direct", 8446, 1880, 8180, 8888, "takserver", "nodered", "stream"⟩
  handshake _ _ := .noCertificate
  certDir := .absent
  openssl _ := .timedOut
  versions := ⟨"v0.6.1", "1.9.0", "4.0.2"⟩
  client := none
  answers _ := .rejected 503
  startupEnv := .readable "baseline"
  env := .readable "baseline"
  now := 0

/-- The failing volume is dropped. -/
theorem brokenVolume_silent :
    ¬ ∀ (t : Targets) (configs : Probe → ProbeConfig) (probe : Probe),
      NeverSilent t probe (configs probe) := by
  intro hclaim
  have hdisk := (disk_neverSilent_iff brokenVolume _).mp (hclaim brokenVolume shippedConfig .disk)
  exact hdisk ("tak-certs", "/opt/tak/certs") (by decide) (Or.inr (by simp [brokenVolume]))

end FastTAK.Health
