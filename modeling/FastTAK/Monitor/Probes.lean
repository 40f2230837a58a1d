import FastTAK.Base.Calendar
import FastTAK.Base.Text
import FastTAK.Monitor.Evaluator
import Mathlib.Data.List.Sort

/-!
# The health probes

Five probes, each a function of what its targets answer: mount points, TLS endpoints,
certificate files, release pages and the configuration file.
-/

namespace FastTAK.Health

open FastTAK.Calendar FastTAK.Text

/-- An exception with its class and its text, which may be empty. -/
structure Raised where
  name : String
  text : String
  named : name ≠ ""
deriving DecidableEq

/-- `text[:n]`. -/
def clip (n : ℕ) (text : String) : String := String.ofList (text.toList.take n)

/-- `(expiry - now).days`, with `now` in seconds since the calendar begins. -/
def daysLeft (expiry : DateTime) (now : ℚ) : Value :=
  let days := ⌊((expiry.seconds : ℚ) - now) / 86400⌋
  .num days (toString days)

/-- `n` in at least `width` digits. -/
def padded (width n : ℕ) : String :=
  String.ofList (List.replicate (width - (toString n).length) '0') ++ toString n

/-- `expiry.strftime("%Y-%m-%d")`. -/
def isoDate (t : DateTime) : String :=
  s!"{padded 4 t.year}-{padded 2 t.month}-{padded 2 t.day}"

/-! ## Disks -/

def mountPoints : List (String × String) :=
  [("root", "/"), ("tak-certs", "/opt/tak/certs")]

structure Statvfs where
  fFsid : ℕ
  fFrsize : ℕ
  fBlocks : ℕ
  fBavail : ℕ

/-- What the system answers about a path.  `os.path.exists` says no of a path that it
cannot `stat`, and `os.statvfs` raises an `OSError` where it fails. -/
inductive Mount where
  | absent
  | unstatable
  | unreadable
  | mounted (st : Statvfs)

/-- `round(q, 1)` in tenths. -/
def tenths (q : ℚ) : ℤ :=
  let whole := ⌊q * 10⌋
  let rest := q * 10 - whole
  if rest < 1 / 2 then whole
  else if 1 / 2 < rest then whole + 1
  else if whole % 2 = 0 then whole else whole + 1

def rounded (q : ℚ) : Value :=
  let t := tenths q
  let sign := if t < 0 then "-" else ""
  .num (t / 10) s!"{sign}{t.natAbs / 10}.{t.natAbs % 10}"

def gigabytes (bytes : ℚ) : Value := rounded (bytes / 1024 / 1024 / 1024)

def diskItem (label path : String) (st : Statvfs) : Fields :=
  let total : ℚ := st.fFrsize * st.fBlocks
  let free : ℚ := st.fFrsize * st.fBavail
  let used := total - free
  [("mount", .str label), ("path", .str path), ("total_gb", gigabytes total),
    ("used_gb", gigabytes used), ("free_gb", gigabytes free),
    ("percent", if 0 < total then rounded (used / total * 100) else .num 0 "0")]

/-- One round of the loop over the mount points. -/
def diskRound (mounts : String → Mount) (found : List ℕ × List Fields)
    (point : String × String) : List ℕ × List Fields :=
  match mounts point.2 with
  | .mounted st =>
      if st.fFsid ∈ found.1 ∧ st.fFsid ≠ 0 then found
      else (st.fFsid :: found.1, found.2 ++ [diskItem point.1 point.2 st])
  | _ => found

def getDiskUsage (mounts : String → Mount) : Raw :=
  .items (mountPoints.foldl (diskRound mounts) ([], [])).2

/-! ## TLS endpoints -/

/-- The outcome of a handshake and of reading the leaf certificate. -/
inductive Handshake where
  | failed (exc : Raised)
  | noCertificate
  | unparseable (text : String)
  | broken (exc : Raised)
  | leaf (expiry : DateTime)

structure TlsSettings where
  serverAddress : String
  deployMode : String
  takserverAdminPort : ℕ
  noderedPort : ℕ
  monitorPort : ℕ
  mediamtxPort : ℕ
  takserverSubdomain : String
  noderedSubdomain : String
  mediamtxSubdomain : String

def endpointName (hostname : String) (port : ℕ) : String :=
  if port ≠ 443 then s!"{hostname}:{port}" else hostname

def errorItem (key name text : String) : Fields := [(key, .str name), ("error", .str text)]

def probeTlsExpiry (now : ℚ) (hostname : String) (port : ℕ) :
    Handshake → Except Raised Fields
  | .failed exc =>
      .ok (errorItem "domain" (endpointName hostname port)
        (clip 200 (exc.name ++ if exc.text = "" then "" else s!": {exc.text}")))
  | .noCertificate =>
      .ok (errorItem "domain" (endpointName hostname port) "no certificate presented")
  | .unparseable text =>
      .ok (errorItem "domain" (endpointName hostname port)
        (clip 200 s!"unparseable certificate: {text}"))
  | .broken exc => .error exc
  | .leaf expiry =>
      .ok [("domain", .str (endpointName hostname port)), ("expires", .str (isoDate expiry)),
        ("days_left", daysLeft expiry now)]

def endpoints (settings : TlsSettings) : List (String × ℕ) :=
  let address := settings.serverAddress
  if address = "" ∨ address = "localhost" then []
  else if settings.deployMode = "direct" then
    [(address, 443), (address, settings.takserverAdminPort), (address, settings.noderedPort),
      (address, settings.monitorPort), (address, settings.mediamtxPort)]
  else
    [(s!"{settings.takserverSubdomain}.{address}", 443),
      (s!"{settings.noderedSubdomain}.{address}", 443),
      (s!"{settings.mediamtxSubdomain}.{address}", 443)]

/-- One round of the loop over the endpoints: a date that was seen is not listed again. -/
def tlsRound (now : ℚ) (handshake : String → ℕ → Handshake)
    (found : List Value × List Fields) (endpoint : String × ℕ) :
    Except Raised (List Value × List Fields) := do
  let info ← probeTlsExpiry now endpoint.1 endpoint.2 (handshake endpoint.1 endpoint.2)
  if info.has "error" then
    return (found.1, found.2 ++ [info])
  let key := (info.lookup "expires").getD .null
  if key ∈ found.1 then
    return found
  return (key :: found.1, found.2 ++ [info])

def getTlsStatus (settings : TlsSettings) (now : ℚ) (handshake : String → ℕ → Handshake) :
    Except Raised Raw := do
  let found ← (endpoints settings).foldlM (tlsRound now handshake) ([], [])
  return .items found.2

/-! ## Certificate files -/

def infraNames : List String := ["ca", "root-ca", "ca-trusted", "root-ca-trusted", "takserver"]

def categorizeCert (filename : String) : String :=
  let stem := removeSuffix filename ".pem"
  if stem ∈ infraNames then "infrastructure"
  else if "svc_".toList <+: stem.toList then "service"
  else if '.' ∈ stem.toList then "infrastructure"
  else "user"

/-- How `openssl x509` ended. -/
inductive OpensslRun where
  | timedOut
  | notStarted (text : String)
  | broken (exc : Raised)
  | exited (code : ℤ) (stdout stderr : String)

/-- The exceptions of `_parse_cert_expiry`: an `OSError`, which its caller handles, and any
other. -/
inductive ParseExn where
  | osError (text : String)
  | other (exc : Raised)

def monthNames : List String :=
  ["jan", "feb", "mar", "apr", "may", "jun", "jul", "aug", "sep", "oct", "nov", "dec"]

/-- A number of at most `width` digits. -/
def numberOf (width : ℕ) (text : List Char) : Option ℕ :=
  if text = [] ∨ width < text.length then none
  else text.foldlM (fun n c => (asciiDigit c).map (10 * n + ·)) 0

/-- `strptime` with the format `%b %d %H:%M:%S %Y %Z`. -/
def strptimeGmt (text : List Char) : Option DateTime :=
  match (text.splitOnP isBlank).filter (· ≠ []) with
  | [month, day, clock, year, zone] => do
      let month ← monthNames.idxOf? (String.ofList month).toLower
      let day ← numberOf 2 day
      let [hour, minute, second] := clock.splitOn ':' | none
      let hour ← numberOf 2 hour
      let minute ← numberOf 2 minute
      let second ← numberOf 2 second
      let yearValue ← numberOf 4 year
      if year.length ≠ 4 ∨ (String.ofList zone).toLower ∉ ["gmt", "utc"] then
        none
      else
        DateTime.ofStamp ⟨yearValue, month + 1, day, hour, minute, second⟩
  | _ => none

/-- The text after `lead` in the last line that starts with it. -/
def lastField (lead : String) (lines : List (List Char)) : String :=
  match (lines.filter (fun line => lead.toList <+: line)).getLast? with
  | some line => String.ofList (strip (line.drop lead.length))
  | none => ""

def parseCertExpiry (now : ℚ) (name : String) : OpensslRun → Except ParseExn Fields
  | .timedOut => .ok (errorItem "file" name "openssl timed out after 5s")
  | .notStarted text => .error (.osError text)
  | .broken exc => .error (.other exc)
  | .exited code stdout stderr =>
      if code ≠ 0 then
        let reason := splitlines (strip stderr.toList)
        .ok (errorItem "file" name
          ("openssl: " ++ (reason.head?.elim s!"exit {code}" String.ofList)))
      else
        let lines := (strip stdout.toList).splitOn '\n'
        let expiryStr := lastField "notAfter=" lines
        if expiryStr = "" then
          .ok (errorItem "file" name "no notAfter in openssl output")
        else
          match strptimeGmt expiryStr.toList with
          | none => .ok (errorItem "file" name s!"unparseable notAfter: {expiryStr}")
          | some expiry =>
              .ok [("file", .str name), ("subject", .str (lastField "subject=" lines)),
                ("expires", .str (isoDate expiry)), ("days_left", daysLeft expiry now)]

/-- The certificate directory.  `Path.exists` raises on an error that is not about
absence, and `Path.glob` finds nothing in a directory that it cannot scan. -/
inductive CertDir where
  | absent
  | unstatable (exc : Raised)
  | unscannable (names : List String)
  | listed (names : List String)

/-- `sorted(CERT_DIR.glob("*.pem"))` without the certificates of users. -/
def monitoredCerts (names : List String) : List String :=
  ((names.filter (fitsStar "" ".pem")).insertionSort (· ≤ ·)).filter
    (fun name => categorizeCert name ≠ "user")

def certRounds (now : ℚ) (openssl : String → OpensslRun) :
    List String → Except ParseExn (List Fields)
  | [] => .ok []
  | name :: names => do
      let info ← parseCertExpiry now name (openssl name)
      let results ← certRounds now openssl names
      return (info ++ [("category", .str (categorizeCert name))]) :: results

def getCertStatus (dir : CertDir) (now : ℚ) (openssl : String → OpensslRun) :
    Except Raised Raw :=
  match dir with
  | .absent => .ok (.items [])
  | .unstatable exc => .error exc
  | .unscannable _ => .ok (.items [])
  | .listed names =>
      match certRounds now openssl (monitoredCerts names) with
      | .ok results => .ok (.items results)
      | .error (.osError text) => .ok (.error s!"openssl could not run: {text}")
      | .error (.other exc) => .error exc

/-! ## Releases -/

structure Versions where
  lldap : String
  mediamtx : String
  nodered : String

def components (versions : Versions) : List (String × String × String) :=
  [("lldap", "lldap/lldap", versions.lldap),
    ("mediamtx", "bluenviron/mediamtx", versions.mediamtx),
    ("nodered", "node-red/node-red", versions.nodered)]

/-- The answer of a release page: an exception of the request or of reading its body, a
status other than 200, or the two fields of a release, with their defaults. -/
inductive ReleaseAnswer where
  | raised (exc : Raised)
  | rejected (code : ℕ)
  | release (tagName : String) (htmlUrl : Value)

def extractVersion (tag : String) : String :=
  if "version/".toList <+: tag.toList then String.ofList (tag.toList.drop 8)
  else if "v".toList <+: tag.toList then String.ofList (tag.toList.drop 1)
  else tag

def failedUpdate (name current error : String) : Fields :=
  [("name", .str name), ("current", .str current), ("latest", .str "unknown"),
    ("update_available", .bool false), ("error", .str error)]

def updateItem (name current : String) : ReleaseAnswer → Fields
  | .raised exc => failedUpdate name current (clip 100 exc.text)
  | .rejected code => failedUpdate name current s!"HTTP {code}"
  | .release tagName htmlUrl =>
      let latest := extractVersion tagName
      let currentClean := extractVersion current
      [("name", .str name), ("current", .str currentClean), ("latest", .str latest),
        ("update_available", .bool (latest ≠ currentClean && latest ≠ "")),
        ("release_url", htmlUrl)]

/-- `client` is the exception of opening the HTTP client, if it raises one. -/
def checkUpdates (versions : Versions) (client : Option Raised)
    (answers : String → ReleaseAnswer) : Except Raised Raw :=
  match client with
  | some exc => .error exc
  | none =>
      .ok (.items ((components versions).map
        (fun component => updateItem component.1 component.2.2 (answers component.2.1))))

/-! ## The configuration file -/

inductive EnvFile where
  | absent
  | unreadable
  | readable (digest : String)
deriving DecidableEq

def hashFile : EnvFile → Option String
  | .readable digest => some digest
  | _ => none

/-- `startup` is the file as `init_config_hash` found it. -/
def checkConfigDrift (startup current : EnvFile) : Raw :=
  match hashFile startup with
  | none => .values [("changed", .bool false), ("message", .str ".env not mounted")]
  | some baseline =>
      match hashFile current with
      | none => .error ".env file unreadable"
      | some digest =>
          if digest ≠ baseline then
            .values [("changed", .bool true), ("message", .str
              ("Configuration has changed since startup. "
                ++ "Restart init-config and tak-server to apply: "
                ++ "docker compose up -d --force-recreate init-config tak-server"))]
          else .values [("changed", .bool false)]

end FastTAK.Health
