import FastTAK.Api.Exn
import FastTAK.Base.Effect
import FastTAK.Certs.Naming

/-!
# The certificate directory and its authority

The state that certificate generation and revocation work on: the files of the
certificate directory, the index and the revocation list of the CA, the
certificates TAK Server's certadmin knows, and what Docker and TAK Server do to
the requests still to come.
-/

namespace FastTAK.Certs

open FastTAK.Effect FastTAK.Effect.Call FastTAK.Api FastTAK.Naming

/-- The parts of a certificate that the monitor chooses or compares. -/
structure Certificate where
  serial : ℕ
  cn : String
  validityDays : ℕ
  deriving DecidableEq, Repr

/-- What openssl finds in a file.  Keys are told apart by a number. -/
inductive Body where
  | key (material : ℕ)
  | request (cn : String)
  | certificate (cert : Certificate)
  | bundle (cert : Certificate)
  | other
  deriving DecidableEq, Repr

/-- A file with its content.  `origin` is not on disk: it records for whom the
file was written. -/
structure CertFile where
  body : Body
  origin : Origin
  deriving DecidableEq, Repr

/-- A certificate as TAK Server's certadmin lists it.  `certificate` is its PEM,
absent when certadmin returns none; a PEM that is a certificate is this one. -/
structure CertadminCert where
  id : ℤ
  username : String
  hash : String
  serialNumber : ℕ
  certificate : Option Body
  expirationDate : Option String
  revocationDate : Option ℕ
  honest : ∀ cert, certificate = some (.certificate cert) →
    cert.serial = serialNumber

/-- The state.  The revocation list was written from the index, and nothing
ever leaves the index, so the list is part of it. -/
structure Pki where
  files : AList fun _ : String => CertFile
  index : List ℕ
  crl : List ℕ
  published : crl ⊆ index
  certadmin : List CertadminCert
  docker : List Verdict
  tak : List Verdict
  entropy : List ℕ

namespace Pki

/-- A directory without files, with everything reachable. -/
def empty : Pki where
  files := ∅
  index := []
  crl := []
  published := fun _ h => h
  certadmin := []
  docker := []
  tak := []
  entropy := []

/-- A file of the directory, by its full name. -/
def file (s : Pki) (name : String) : Option CertFile := s.files.lookup name

def fileNames (s : Pki) : List String := s.files.keys

def hasFile (s : Pki) (name : String) : Bool := (s.file name).isSome

/-- The certificate in `<name>.pem`. -/
def certOf (s : Pki) (name : String) : Option Certificate :=
  match s.file (name ++ ".pem") with
  | some ⟨.certificate cert, _⟩ => some cert
  | _ => none

def writeFile (s : Pki) (name : String) (body : Body) (origin : Origin) : Pki :=
  { s with files := s.files.insert name ⟨body, origin⟩ }

def removeFile (s : Pki) (name : String) : Pki :=
  { s with files := s.files.erase name }

/-- `openssl ca -revoke` marks a serial in the index. -/
def mark (s : Pki) (serial : ℕ) : Pki :=
  { s with
    index := serial :: s.index
    published := fun _ hn => List.mem_cons_of_mem _ (s.published hn) }

/-- `openssl ca -gencrl` lists the serials of the index. -/
def genCrl (s : Pki) : Pki :=
  { s with crl := s.index, published := fun _ hn => hn }

@[simp]
theorem file_empty (name : String) : empty.file name = none :=
  AList.lookup_empty name

theorem file_writeFile_self (s : Pki) (name : String) (body : Body)
    (origin : Origin) :
    (s.writeFile name body origin).file name = some ⟨body, origin⟩ :=
  AList.lookup_insert s.files

theorem file_writeFile_of_ne (s : Pki) {name other : String} (body : Body)
    (origin : Origin) (hne : other ≠ name) :
    (s.writeFile name body origin).file other = s.file other :=
  AList.lookup_insert_ne hne

theorem file_removeFile_self (s : Pki) (name : String) :
    (s.removeFile name).file name = none :=
  AList.lookup_erase name s.files

theorem file_removeFile_of_ne (s : Pki) {name other : String}
    (hne : other ≠ name) : (s.removeFile name).file other = s.file other :=
  AList.lookup_erase_ne hne

theorem mem_fileNames_iff (s : Pki) (name : String) :
    name ∈ s.fileNames ↔ ∃ f, s.file name = some f := by
  rw [fileNames, ← AList.mem_keys, ← AList.lookup_isSome, Option.isSome_iff_exists]
  rfl

end Pki

/-! ## Requests to Docker and TAK Server -/

/-- An operation's result dictionary.  Texts written by openssl, Docker or the
Python runtime are left out of `error`. -/
structure Outcome where
  success : Bool
  error : String
  deriving DecidableEq, Repr

def Outcome.ok : Outcome := ⟨true, ""⟩

def Outcome.fail (error : String) : Outcome := ⟨false, error⟩

/-- Take the verdict on the next request to Docker. -/
def takeDocker : Call Exn Pki Verdict :=
  update fun s => (nextVerdict s.docker, { s with docker := s.docker.tail })

/-- Take the verdict on the next request to TAK Server. -/
def takeTak : Call Exn Pki Verdict :=
  update fun s => (nextVerdict s.tak, { s with tak := s.tak.tail })

/-- The next number of a source of randomness. -/
def takeEntropy : Call Exn Pki ℕ :=
  update fun s => (s.entropy.headD 0, { s with entropy := s.entropy.tail })

/-- `_get_tak_container()`: the error if there is no container. -/
def getTakContainer : Call Exn Pki (Option Outcome) := do
  match ← takeDocker with
  | .runs => return none
  | .fails _ => return some (.fail "tak-server container not found")
  | .raises _ => raise .external

/-- `container.exec_run(...)` of commands joined by `&&`, up to whether the exit
code is zero.  An exec that fails or raises may have run any number of its
commands before. -/
def execRun (steps : List (Pki → Option Pki)) : Call Exn Pki Bool := do
  match ← takeDocker with
  | .runs => update (runSteps steps)
  | .fails done => do
      modify fun s => (runSteps (steps.take done) s).2
      return false
  | .raises done => do
      modify fun s => (runSteps (steps.take done) s).2
      raise .external

/-- What holds of every command of an exec holds of the exec. -/
theorem keeps_execRun {R : Pki → Pki → Prop} [IsPreorder Pki R]
    (hdocker : ∀ s queue, R s { s with docker := queue })
    {steps : List (Pki → Option Pki)}
    (hsteps : ∀ step ∈ steps, ∀ s s', step s = some s' → R s s') :
    Keeps R (execRun steps) := by
  have hsome : ∀ done, ∀ step ∈ steps.take done, ∀ s s',
      step s = some s' → R s s' := fun done step hstep =>
    hsteps step (List.mem_of_mem_take hstep)
  refine keeps_bind (keeps_update fun s => hdocker s _) fun verdict => ?_
  cases verdict with
  | runs => exact keeps_update fun s => runSteps_related hsteps s
  | fails done =>
      exact keeps_bind (keeps_modify fun s => runSteps_related (hsome done) s)
        fun _ => keeps_pure _
  | raises done =>
      exact keeps_bind (keeps_modify fun s => runSteps_related (hsome done) s)
        fun _ => keeps_raise _

end FastTAK.Certs
