import FastTAK.Base.Redo
import FastTAK.Env.Ready

/-!
# Setting up a release

`setup.sh` builds the images of a release, replaces `tak/` by the files of the release, and updates
`.env`.  It stops where a command fails.  The certificates, the configuration and the logs are set
aside before `tak/` is removed.
-/

namespace FastTAK.Setup

open FastTAK.Env FastTAK.Redo

/-! ## Hosts -/

/-- The files under a directory, by their paths. -/
abbrev Files (Blob : Type) := List String → Option Blob

/-- What is in the archive of a release. -/
structure Release (Blob : Type) where
  versionText : List Char
  hardened : Bool
  tak : Files Blob

inductive Image
  | database
  | server
deriving DecidableEq

/-- A deployment, with the directories in which files were set aside. -/
structure Host (Blob : Type) where
  images : Image → List Char → Option (Release Blob)
  tak : Option (Files Blob)
  aside : List (Files Blob)
  env : Option (List Char)

/-- What `setup.sh` runs, and what it copies from its own directory. -/
structure Kit (Blob : Type) where
  tools : Tools
  sed : Sed
  fill : Key → List Char → List Char → Option (List Char)
  password : List Char
  template : List Char
  script : String → Blob

section Script

variable {Blob : Type}

/-! ## The release -/

/-- `tr -d '[:space:]'`. -/
def Release.version (release : Release Blob) : List Char :=
  release.versionText.filter fun c => !(isSpace c || c == '\n')

inductive Refusal
  | noVersion
  | malformed
  | belowFloor
  | notHardened
deriving DecidableEq

/-- Why a release is not taken. -/
def Release.refusal (release : Release Blob) : Option Refusal :=
  if release.version = [] then some .noVersion
  else if (majorMinor release.version).isNone then some .malformed
  else if !meetsFloor release.version then some .belowFloor
  else if !release.hardened then some .notHardened
  else none

/-! ## The files -/

/-- What is set aside and put back. -/
def items : List String :=
  ["certs", "CoreConfig.xml", "CoreConfig.example.xml", "UserAuthenticationFile.xml", "logs"]

def isItem (path : List String) : Bool := path.head?.any items.contains

def itemsOf (tak : Files Blob) : Files Blob := fun path => if isItem path then tak path else none

def vendorEndings : List String :=
  [".pem", ".key", ".jks", ".p12", ".csr", ".cfg", ".crl", ".txt", ".attr"]

/-- `certs/files/*.pem` and so on. -/
def isVendorCert (path : List String) : Bool :=
  ["certs", "files"].isPrefixOf path && path.length == 3 &&
    path.getLast?.any fun name => name.toList.head? ≠ some '.' &&
      vendorEndings.any fun ending => ending.toList.isSuffixOf name.toList

def withoutVendorCerts (tak : Files Blob) : Files Blob := fun path =>
  if isVendorCert path then none else tak path

/-- The scripts for the mounts, which are copied into `tak/`. -/
def Kit.scripts (kit : Kit Blob) : Files Blob := fun path =>
  if path = ["healthcheck.sh"] ∨ path = ["register-api-cert.sh"] then path.head?.map kit.script
  else none

/-! ## `.env` -/

/-- The update of an existing file. -/
def updated (kit : Kit Blob) (release : Release Blob) (env : List Char) : Option (List Char) :=
  match setupVersion kit.sed env release.version with
  | .settled env => some env
  | .reported env => some env
  | _ => none

def provisioned (kit : Kit Blob) (env : List Char) : Option (List Char) :=
  if (ensureSecrets kit.tools env).ok then some (ensureSecrets kit.tools env).file else none

/-! ## The steps -/

/-- The steps after the release was taken. -/
inductive Phase
  | build (image : Image)
  | preserve
  | remove
  | extract
  | putBack
  | discard
  | clean
  | scripts
  | newEnv
  | newVersion
  | webadmin
  | version
  | secrets
deriving DecidableEq

def builds : List Phase := [.build .database, .build .server]

def treePhases (host : Host Blob) : List Phase :=
  if host.tak.isSome then [.preserve, .remove, .extract, .putBack, .discard, .scripts]
  else [.extract, .clean, .scripts]

def envPhases (host : Host Blob) : List Phase :=
  if host.env.isSome then [.version, .secrets] else [.newEnv, .newVersion, .webadmin, .secrets]

def phases (host : Host Blob) : List Phase := builds ++ treePhases host ++ envPhases host

def Host.rewrite (host : Host Blob) (change : List Char → Option (List Char)) :
    Option (Host Blob) :=
  (host.env.bind change).map fun env => { host with env := some env }

/-- A step that succeeds. -/
def apply (kit : Kit Blob) (release : Release Blob) : Phase → Host Blob → Option (Host Blob)
  | .build image, host =>
      some { host with
        images := Function.update host.images image
          (Function.update (host.images image) release.version (some release)) }
  | .preserve, host => host.tak.map fun tak => { host with aside := itemsOf tak :: host.aside }
  | .remove, host => some { host with tak := none }
  -- there is no `tak/` at this point, so that `cp -a` makes one
  | .extract, host => some { host with tak := some release.tak }
  | .putBack, host =>
      host.tak.bind fun tak => host.aside.head?.map fun kept =>
        { host with tak := some (overlay kept tak) }
  | .discard, host => some { host with aside := host.aside.tail }
  | .clean, host => host.tak.map fun tak => { host with tak := some (withoutVendorCerts tak) }
  | .scripts, host => host.tak.map fun tak => { host with tak := some (overlay kit.scripts tak) }
  | .newEnv, host => some { host with env := some kit.template }
  | .newVersion, host => host.rewrite (kit.sed '/' takVersion release.version)
  | .webadmin, host => host.rewrite (kit.fill webadminPassword kit.password)
  | .version, host => host.rewrite (updated kit release)
  | .secrets, host => host.rewrite (provisioned kit)

/-- What a step can leave that fails.  `sed -i` and `mv` replace a file as a whole. -/
def Spoils (kit : Kit Blob) : Phase → Host Blob → Host Blob → Prop
  | .preserve, host, host' =>
      host' = host ∨ ∃ part, host' = { host with aside := part :: host.aside }
  | .remove, host, host' => ∃ tak, host' = { host with tak := tak }
  | .extract, host, host' => ∃ tak, host' = { host with tak := tak }
  | .putBack, host, host' => ∃ tak, host' = { host with tak := tak }
  | .clean, host, host' => ∃ tak, host' = { host with tak := tak }
  | .discard, host, host' => ∃ part, host' = { host with aside := part :: host.aside.tail }
  | .scripts, host, host' =>
      ∃ tak tak', host.tak = some tak ∧ SameOff kit.scripts tak tak' ∧
        host' = { host with tak := some tak' }
  | .newEnv, host, host' =>
      host' = host ∨ ∃ part, part <+: kit.template ∧ host' = { host with env := some part }
  | .secrets, host, host' =>
      ∃ tools : Tools, tools.PrintsHex ∧
        host' = { host with env := host.env.map fun env => (ensureSecrets tools env).file }
  | _, host, host' => host' = host

/-- A run of `setup.sh` with a release that it takes, and the step that it stops at. -/
def Run (kit : Kit Blob) (release : Release Blob) (host host' : Host Blob)
    (stop : Option Phase) : Prop :=
  release.refusal = none ∧ Runs (apply kit release) (Spoils kit) (phases host) host host' stop

/-- Runs one after the other, each of which may stop anywhere. -/
def Setups (takes : Kit Blob → Release Blob → Prop) : Host Blob → Host Blob → Prop :=
  Relation.ReflTransGen fun host host' =>
    ∃ kit release stop, takes kit release ∧ Run kit release host host' stop

/-- The commands do as they are documented, and `tr` leaves letters and digits. -/
structure Kit.Documented (kit : Kit Blob) : Prop where
  tools : kit.tools.PrintsHex
  sed : kit.sed.Documented
  fill : ∀ key value file file', Spliced '|' value → '&' ∉ value →
    kit.fill key value file = some file' → records file' = (records file).map (fillLine key value)
  password : kit.password.all Char.isAlphanum = true

end Script

/-! ## What is not lost -/

section Files

variable {Blob : Type} {kit : Kit Blob} {release : Release Blob} {host host' : Host Blob}
  {path : List String} {blob : Blob} {phase : Phase} {steps : List Phase} {stop : Option Phase}
  {change : List Char → Option (List Char)}

/-- A file is in `tak/`, or where it was set aside. -/
def Host.Holds (host : Host Blob) (path : List String) (blob : Blob) : Prop :=
  (∃ tak, host.tak = some tak ∧ tak path = some blob) ∨ ∃ kept ∈ host.aside, kept path = some blob

/-- The steps that have to do with `tak/`. -/
def onTree : List Phase := [.preserve, .remove, .extract, .putBack, .discard, .clean, .scripts]

/-- The files are the same. -/
def SameFiles (host host' : Host Blob) : Prop := host'.tak = host.tak ∧ host'.aside = host.aside

theorem sameFiles_rewrite (h : host.rewrite change = some host') : SameFiles host host' := by
  obtain ⟨env, -, rfl⟩ := Option.map_eq_some_iff.mp h
  exact ⟨rfl, rfl⟩

theorem sameFiles_apply (hphase : phase ∉ onTree) (h : apply kit release phase host = some host') :
    SameFiles host host' := by
  cases phase with
  | build image =>
      obtain rfl := Option.some.inj h
      exact ⟨rfl, rfl⟩
  | newEnv =>
      obtain rfl := Option.some.inj h
      exact ⟨rfl, rfl⟩
  | newVersion => exact sameFiles_rewrite h
  | webadmin => exact sameFiles_rewrite h
  | version => exact sameFiles_rewrite h
  | secrets => exact sameFiles_rewrite h
  | _ => exact absurd (by decide) hphase

theorem sameFiles_spoils (hphase : phase ∉ onTree) (h : Spoils kit phase host host') :
    SameFiles host host' := by
  cases phase with
  | newEnv =>
      rcases h with rfl | ⟨part, -, rfl⟩
      · exact ⟨rfl, rfl⟩
      · exact ⟨rfl, rfl⟩
  | secrets =>
      obtain ⟨tools, -, rfl⟩ := h
      exact ⟨rfl, rfl⟩
  | build image =>
      obtain rfl := h
      exact ⟨rfl, rfl⟩
  | newVersion =>
      obtain rfl := h
      exact ⟨rfl, rfl⟩
  | webadmin =>
      obtain rfl := h
      exact ⟨rfl, rfl⟩
  | version =>
      obtain rfl := h
      exact ⟨rfl, rfl⟩
  | _ => exact absurd (by decide) hphase

theorem sameFiles_runs (hsteps : ∀ phase ∈ steps, phase ∉ onTree)
    (h : Runs (apply kit release) (Spoils kit) steps host host' stop) : SameFiles host host' := by
  apply h.keeps (R := SameFiles)
  · exact fun _ => ⟨rfl, rfl⟩
  · exact fun h h' => ⟨h'.1.trans h.1, h'.2.trans h.2⟩
  · exact fun phase hphase _ _ => sameFiles_apply (hsteps phase hphase)
  · exact fun phase hphase _ _ => sameFiles_spoils (hsteps phase hphase)

theorem not_mem_onTree_builds : ∀ phase ∈ builds, phase ∉ onTree := by decide

theorem not_mem_onTree_envPhases (host : Host Blob) : ∀ phase ∈ envPhases host, phase ∉ onTree := by
  rw [envPhases]
  split_ifs
  · decide
  · decide

theorem Host.Holds.of_sameFiles (hholds : host.Holds path blob) (h : SameFiles host host') :
    host'.Holds path blob := by
  rw [Host.Holds, h.1, h.2]
  exact hholds

theorem scripts_of_isItem (hpath : isItem path = true) : kit.scripts path = none := by
  apply if_neg
  rintro (rfl | rfl)
  · exact absurd hpath (by decide)
  · exact absurd hpath (by decide)

theorem isItem_of_isVendorCert (h : isVendorCert path = true) : isItem path = true := by
  rw [isVendorCert, Bool.and_eq_true, Bool.and_eq_true, List.isPrefixOf_iff_prefix] at h
  obtain ⟨rest, rfl⟩ := h.1.1
  rfl

/-- The scripts are no files that are kept. -/
theorem holds_of_scripts (hpath : isItem path = true)
    (h : Runs (apply kit release) (Spoils kit) [.scripts] host host' stop)
    (hholds : host.Holds path blob) : host'.Holds path blob := by
  have hnone : kit.scripts path = none := scripts_of_isItem hpath
  cases h with
  | stops hspoils =>
      obtain ⟨tak, tak', htak, hsame, rfl⟩ := hspoils
      apply hholds.imp_left
      rintro ⟨before, hbefore, hfile⟩
      obtain rfl := Option.some.inj (htak.symm.trans hbefore)
      exact ⟨tak', rfl, (hsame path hnone).symm.trans hfile⟩
  | goes happly hruns =>
      obtain ⟨tak, htak, rfl⟩ := Option.map_eq_some_iff.mp happly
      cases hruns
      apply hholds.imp_left
      rintro ⟨before, hbefore, hfile⟩
      obtain rfl := Option.some.inj (htak.symm.trans hbefore)
      refine ⟨_, rfl, ?_⟩
      rw [overlay, hnone, Option.none_or]
      exact hfile

/-- The steps between those that set files aside and remove them. -/
def betweenAside : List Phase := [.remove, .extract, .putBack, .clean, .scripts]

theorem aside_apply (hphase : phase ∈ betweenAside)
    (h : apply kit release phase host = some host') : host'.aside = host.aside := by
  cases phase with
  | remove =>
      obtain rfl := Option.some.inj h
      rfl
  | extract =>
      obtain rfl := Option.some.inj h
      rfl
  | putBack =>
      obtain ⟨tak, -, hkept⟩ := Option.bind_eq_some_iff.mp h
      obtain ⟨kept, -, rfl⟩ := Option.map_eq_some_iff.mp hkept
      rfl
  | clean =>
      obtain ⟨tak, -, rfl⟩ := Option.map_eq_some_iff.mp h
      rfl
  | scripts =>
      obtain ⟨tak, -, rfl⟩ := Option.map_eq_some_iff.mp h
      rfl
  | _ => simp [betweenAside] at hphase

theorem aside_spoils (hphase : phase ∈ betweenAside)
    (h : Spoils kit phase host host') : host'.aside = host.aside := by
  cases phase with
  | remove =>
      obtain ⟨tak, rfl⟩ := h
      rfl
  | extract =>
      obtain ⟨tak, rfl⟩ := h
      rfl
  | putBack =>
      obtain ⟨tak, rfl⟩ := h
      rfl
  | clean =>
      obtain ⟨tak, rfl⟩ := h
      rfl
  | scripts =>
      obtain ⟨tak, tak', -, -, rfl⟩ := h
      rfl
  | _ => simp [betweenAside] at hphase

theorem aside_runs (hsteps : ∀ phase ∈ steps, phase ∈ betweenAside)
    (h : Runs (apply kit release) (Spoils kit) steps host host' stop) :
    host'.aside = host.aside := by
  apply h.keeps (R := fun host host' : Host Blob => host'.aside = host.aside)
  · exact fun _ => rfl
  · exact fun h h' => h'.trans h
  · exact fun phase hphase _ _ => aside_apply (hsteps phase hphase)
  · exact fun phase hphase _ _ => aside_spoils (hsteps phase hphase)

/-- What is in `tak/` is set aside before it is removed, and what is set aside is put back before
that is removed. -/
theorem holds_of_upgrade {tak : Files Blob} (hpath : isItem path = true)
    (htak : host.tak = some tak)
    (h : Runs (apply kit release) (Spoils kit)
      [.preserve, .remove, .extract, .putBack, .discard, .scripts] host host' stop)
    (hholds : host.Holds path blob) : host'.Holds path blob := by
  have hitem : ∀ {before}, host.tak = some before → before path = some blob →
      itemsOf tak path = some blob := by
    intro before hbefore hfile
    obtain rfl := Option.some.inj (htak.symm.trans hbefore)
    rw [itemsOf, if_pos hpath, hfile]
  cases h with
  | stops hspoils =>
      rcases hspoils with rfl | ⟨part, rfl⟩
      · exact hholds
      · exact hholds.imp_right fun ⟨kept, hkept, hfile⟩ =>
          ⟨kept, List.mem_cons_of_mem _ hkept, hfile⟩
  | goes happly hruns =>
      obtain ⟨before, hbefore, rfl⟩ := Option.map_eq_some_iff.mp happly
      obtain rfl := Option.some.inj (htak.symm.trans hbefore)
      have hkept : ∃ kept ∈ itemsOf tak :: host.aside, kept path = some blob := by
        rcases hholds with ⟨before, hbefore, hfile⟩ | ⟨kept, hkept, hfile⟩
        · exact ⟨itemsOf tak, List.mem_cons_self, hitem hbefore hfile⟩
        · exact ⟨kept, List.mem_cons_of_mem _ hkept, hfile⟩
      have hparts : Runs (apply kit release) (Spoils kit)
          ([.remove, .extract, .putBack] ++ [.discard, .scripts])
          { host with aside := itemsOf tak :: host.aside } host' stop := hruns
      rcases hparts.split with ⟨i, rfl, hfirst⟩ | ⟨middle, hfirst, hsecond⟩
      · right
        rw [aside_runs (by decide) hfirst]
        exact hkept
      · have hmiddle : some { host with
            tak := some (overlay (itemsOf tak) release.tak)
            aside := itemsOf tak :: host.aside } = some middle := runs_none_iff.mp hfirst
        obtain rfl := Option.some.inj hmiddle
        have hput : ∀ aside, Host.Holds { host with
            tak := some (overlay (itemsOf tak) release.tak)
            aside := aside } path blob ∨ ∃ kept ∈ host.aside, kept path = some blob := by
          intro aside
          rcases hholds with ⟨before, hbefore, hfile⟩ | hkept
          · refine .inl (.inl ⟨_, rfl, ?_⟩)
            rw [overlay, hitem hbefore hfile, Option.some_or]
          · exact .inr hkept
        cases hsecond with
        | stops hspoils =>
            obtain ⟨part, rfl⟩ := hspoils
            rcases hput (part :: host.aside) with hput | ⟨kept, hkept, hfile⟩
            · exact hput
            · exact .inr ⟨kept, List.mem_cons_of_mem _ hkept, hfile⟩
        | goes happly hruns =>
            obtain rfl := Option.some.inj happly
            apply holds_of_scripts hpath hruns
            rcases hput host.aside with hput | hkept
            · exact hput
            · exact .inr hkept

theorem holds_of_tree (hpath : isItem path = true)
    (h : Runs (apply kit release) (Spoils kit) (treePhases host) host host' stop)
    (hholds : host.Holds path blob) : host'.Holds path blob := by
  rw [treePhases] at h
  cases htak : host.tak with
  | none =>
      rw [htak, if_neg (by simp)] at h
      rcases hholds with ⟨tak, hsome, -⟩ | hkept
      · rw [htak] at hsome
        cases hsome
      · right
        rw [aside_runs (by decide) h]
        exact hkept
  | some tak =>
      rw [htak] at h
      exact holds_of_upgrade hpath htak h hholds

theorem treePhases_congr (h : SameFiles host host') : treePhases host' = treePhases host := by
  rw [treePhases, treePhases, h.1]

theorem holds_of_run (hpath : isItem path = true) (h : Run kit release host host' stop)
    (hholds : host.Holds path blob) : host'.Holds path blob := by
  have hparts : Runs (apply kit release) (Spoils kit)
      (builds ++ (treePhases host ++ envPhases host)) host host' stop := by
    rw [← List.append_assoc]
    exact h.2
  rcases hparts.split with ⟨i, rfl, hbuilds⟩ | ⟨built, hbuilds, hrest⟩
  · exact hholds.of_sameFiles (sameFiles_runs not_mem_onTree_builds hbuilds)
  · have hsame := sameFiles_runs not_mem_onTree_builds hbuilds
    have hbuilt := hholds.of_sameFiles hsame
    rw [← treePhases_congr hsame] at hrest
    rcases hrest.split with ⟨i, rfl, htree⟩ | ⟨middle, htree, henv⟩
    · exact holds_of_tree hpath htree hbuilt
    · exact (holds_of_tree hpath htree hbuilt).of_sameFiles
        (sameFiles_runs (not_mem_onTree_envPhases host) henv)

/-- However many runs there are, and wherever they stop, no certificate, configuration or log is
lost: it is in `tak/` or where it was set aside. -/
theorem setups_lose_nothing {takes : Kit Blob → Release Blob → Prop}
    (h : Setups takes host host') (hpath : isItem path = true) (hholds : host.Holds path blob) :
    host'.Holds path blob := by
  induction h with
  | refl => exact hholds
  | tail _ hrun ih =>
      obtain ⟨kit, release, stop, -, hrun⟩ := hrun
      exact holds_of_run hpath hrun ih

end Files

/-! ## The environment -/

section Environment

variable {Blob : Type} {kit : Kit Blob} {release : Release Blob} {host host' : Host Blob}
  {env env' : List Char} {key : Key} {value : List Char} {phase : Phase} {steps : List Phase}
  {stop : Option Phase}

theorem Release.meetsFloor_of_refusal (h : release.refusal = none) :
    meetsFloor release.version = true := by
  rw [Release.refusal] at h
  split_ifs at h with hnone hform hfloor
  simpa using hfloor

/-- The update leaves the file, or puts the version in its lines. -/
theorem updated_cases (hsed : kit.sed.Documented) (hspliced : Spliced '/' release.version)
    (h : updated kit release env = some env') :
    env' = env ∧ envGet env takVersion = release.version ∨
      setupVersion kit.sed env release.version = .reported env' ∧
        records env' = (records env).map (substitute takVersion release.version) := by
  rw [updated] at h
  cases hrun : setupVersion kit.sed env release.version with
  | refused =>
      rw [hrun] at h
      cases h
  | failed =>
      rw [hrun] at h
      cases h
  | settled file =>
      rw [hrun] at h
      obtain rfl := Option.some.inj h
      left
      rw [setupVersion] at hrun
      split_ifs at hrun with hsame
      · exact ⟨(Rewrite.settled.inj hrun).symm, hsame⟩
      · cases hnew : kit.sed '/' takVersion release.version env with
        | none =>
            simp only [hnew] at hrun
            cases hrun
        | some new =>
            simp only [hnew] at hrun
            cases hrun
  | reported file =>
      rw [hrun] at h
      obtain rfl := Option.some.inj h
      right
      use rfl
      rw [setupVersion] at hrun
      split_ifs at hrun with hsame
      cases hnew : kit.sed '/' takVersion release.version env with
      | none =>
          simp only [hnew] at hrun
          cases hrun
      | some new =>
          simp only [hnew] at hrun
          cases hrun
          exact hsed _ _ _ _ _ hspliced hnew

theorem envGet_updated_other (hsed : kit.sed.Documented) (hspliced : Spliced '/' release.version)
    (h : updated kit release env = some env') (hkey : key ≠ takVersion) :
    envGet env' key = envGet env key := by
  rcases updated_cases hsed hspliced h with ⟨rfl, -⟩ | ⟨-, hrows⟩
  · rfl
  · exact envGet_substitute_other hrows hkey

/-- An update keeps a file that passes. -/
theorem ready_updated (hready : Ready env) (hrefusal : release.refusal = none)
    (hsed : kit.sed.Documented) (hspliced : Spliced '/' release.version)
    (h : updated kit release env = some env') : Ready env' := by
  obtain ⟨hnone, hfilled⟩ := ready_iff.mp hready
  have hother : ∀ key, key ≠ takVersion → envGet env' key = envGet env key :=
    fun key hkey => envGet_updated_other hsed hspliced h hkey
  have hsecrets : ∀ secret ∈ secretKeys, secret.1 ≠ takVersion := by decide
  apply ready_iff.mpr
  constructor
  · apply checkEnv_of_meetsFloor
    · rcases updated_cases hsed hspliced h with ⟨rfl, -⟩ | ⟨-, hrows⟩
      · exact meetsFloor_of_checkEnv hnone
      · rcases envGet_substitute_cases hrows with hsame | ⟨line, hline⟩
        · rw [hsame]
          exact meetsFloor_of_checkEnv hnone
        · rw [hline]
          exact meetsFloor_expand (Release.meetsFloor_of_refusal hrefusal) line
    · intro rule hrule
      rw [Rule.violated, hother _ hrule]
      exact checkEnv_eq_none.mp hnone rule
  · intro secret hsecret
    rw [hother _ (hsecrets secret hsecret)]
    exact hfilled secret hsecret

/-- The steps that have to do with `.env`. -/
def onEnv : List Phase := [.newEnv, .newVersion, .webadmin, .version, .secrets]

theorem env_apply (hphase : phase ∉ onEnv) (h : apply kit release phase host = some host') :
    host'.env = host.env := by
  cases phase with
  | build image =>
      obtain rfl := Option.some.inj h
      rfl
  | remove =>
      obtain rfl := Option.some.inj h
      rfl
  | extract =>
      obtain rfl := Option.some.inj h
      rfl
  | discard =>
      obtain rfl := Option.some.inj h
      rfl
  | preserve =>
      obtain ⟨tak, -, rfl⟩ := Option.map_eq_some_iff.mp h
      rfl
  | clean =>
      obtain ⟨tak, -, rfl⟩ := Option.map_eq_some_iff.mp h
      rfl
  | scripts =>
      obtain ⟨tak, -, rfl⟩ := Option.map_eq_some_iff.mp h
      rfl
  | putBack =>
      obtain ⟨tak, -, hkept⟩ := Option.bind_eq_some_iff.mp h
      obtain ⟨kept, -, rfl⟩ := Option.map_eq_some_iff.mp hkept
      rfl
  | _ => exact absurd (by decide) hphase

theorem env_spoils (hphase : phase ∉ onEnv) (h : Spoils kit phase host host') :
    host'.env = host.env := by
  cases phase with
  | build image => exact congrArg Host.env h
  | preserve =>
      rcases h with rfl | ⟨part, rfl⟩
      · rfl
      · rfl
  | remove =>
      obtain ⟨tak, rfl⟩ := h
      rfl
  | extract =>
      obtain ⟨tak, rfl⟩ := h
      rfl
  | putBack =>
      obtain ⟨tak, rfl⟩ := h
      rfl
  | clean =>
      obtain ⟨tak, rfl⟩ := h
      rfl
  | discard =>
      obtain ⟨part, rfl⟩ := h
      rfl
  | scripts =>
      obtain ⟨tak, tak', -, -, rfl⟩ := h
      rfl
  | _ => exact absurd (by decide) hphase

theorem env_runs (hsteps : ∀ phase ∈ steps, phase ∉ onEnv)
    (h : Runs (apply kit release) (Spoils kit) steps host host' stop) : host'.env = host.env := by
  apply h.keeps (R := fun host host' : Host Blob => host'.env = host.env)
  · exact fun _ => rfl
  · exact fun h h' => h'.trans h
  · exact fun phase hphase _ _ => env_apply (hsteps phase hphase)
  · exact fun phase hphase _ _ => env_spoils (hsteps phase hphase)

theorem not_mem_onEnv_builds : ∀ phase ∈ builds, phase ∉ onEnv := by decide

theorem not_mem_onEnv_files (host : Host Blob) :
    ∀ phase ∈ builds ++ treePhases host, phase ∉ onEnv := by
  rw [treePhases]
  split_ifs
  · decide
  · decide

/-- A run gets to the environment as it was. -/
theorem env_of_run (h : Run kit release host host' stop) :
    host'.env = host.env ∨ ∃ middle : Host Blob, middle.env = host.env ∧
      Runs (apply kit release) (Spoils kit) (envPhases host) middle host' stop := by
  rcases h.2.split with ⟨i, rfl, hfiles⟩ | ⟨middle, hfiles, henv⟩
  · exact .inl (env_runs (not_mem_onEnv_files host) hfiles)
  · exact .inr ⟨middle, env_runs (not_mem_onEnv_files host) hfiles, henv⟩

theorem Host.rewrite_eq_some {change : List Char → Option (List Char)} (henv : host.env = some env)
    (h : host.rewrite change = some host') :
    ∃ env', change env = some env' ∧ host' = { host with env := some env' } := by
  obtain ⟨env', hchange, rfl⟩ := Option.map_eq_some_iff.mp h
  rw [henv] at hchange
  exact ⟨env', hchange, rfl⟩

theorem ready_provisioned (hready : Ready env) (h : provisioned kit env = some env') :
    env' = env := by
  have hsame : ensureSecrets kit.tools env = ⟨env, true⟩ :=
    provisionAll_of_filled (ready_iff.mp hready).2
  rw [provisioned, hsame] at h
  exact (Option.some.inj h).symm

theorem ready_of_run (hready : Ready env) (henv : host.env = some env)
    (hsed : kit.sed.Documented) (hspliced : Spliced '/' release.version)
    (h : Run kit release host host' stop) : ∃ env', host'.env = some env' ∧ Ready env' := by
  rcases env_of_run h with hsame | ⟨middle, hmiddle, hruns⟩
  · exact ⟨env, hsame.trans henv, hready⟩
  · rw [envPhases, henv] at hruns
    rw [henv] at hmiddle
    have hlater : ∀ {middle : Host Blob} {env}, middle.env = some env → Ready env →
        Runs (apply kit release) (Spoils kit) [.secrets] middle host' stop →
          ∃ env', host'.env = some env' ∧ Ready env' := by
      intro middle env hmiddle hready hruns
      cases hruns with
      | stops hspoils =>
          obtain ⟨tools, -, rfl⟩ := hspoils
          have hsame : ensureSecrets tools env = ⟨env, true⟩ :=
            provisionAll_of_filled (ready_iff.mp hready).2
          refine ⟨env, ?_, hready⟩
          rw [hmiddle, Option.map_some, hsame]
      | goes happly hrest =>
          obtain ⟨env', hchange, rfl⟩ := Host.rewrite_eq_some hmiddle happly
          cases hrest
          rw [ready_provisioned hready hchange]
          exact ⟨env, rfl, hready⟩
    cases hruns with
    | stops hspoils =>
        obtain rfl : host' = middle := hspoils
        exact ⟨env, hmiddle, hready⟩
    | goes happly hrest =>
        obtain ⟨env', hchange, rfl⟩ := Host.rewrite_eq_some hmiddle happly
        exact hlater rfl (ready_updated hready h.1 hsed hspliced hchange) hrest

/-- The files of a release and those that are kept. -/
def merged (release : Release Blob) : Option (Files Blob) → Files Blob
  | some tak => overlay (itemsOf tak) release.tak
  | none => withoutVendorCerts release.tak

/-- What is in `tak/` after a run. -/
def installed (kit : Kit Blob) (release : Release Blob) (tak : Option (Files Blob)) : Files Blob :=
  overlay kit.scripts (merged release tak)

theorem eq_of_treePhases
    (h : Runs (apply kit release) (Spoils kit) (treePhases host) host host' none) :
    host' = { host with tak := some (installed kit release host.tak) } := by
  obtain ⟨images, tak, aside, env⟩ := host
  cases tak with
  | none => exact (Option.some.inj (runs_none_iff.mp h)).symm
  | some tak => exact (Option.some.inj (runs_none_iff.mp h)).symm

/-- What is in `.env` after a run. -/
def environment (kit : Kit Blob) (release : Release Blob) :
    Option (List Char) → Option (List Char)
  | some env => (updated kit release env).bind (provisioned kit)
  | none =>
      ((kit.sed '/' takVersion release.version kit.template).bind
        (kit.fill webadminPassword kit.password)).bind (provisioned kit)

theorem eq_of_envPhases {middle : Host Blob} (hmiddle : middle.env = host.env)
    (h : Runs (apply kit release) (Spoils kit) (envPhases host) middle host' none) :
    ∃ env', environment kit release host.env = some env' ∧
      host' = { middle with env := some env' } := by
  rw [envPhases] at h
  cases henv : host.env with
  | some env =>
      rw [henv] at h hmiddle
      cases h with
      | goes hversion hrest =>
          obtain ⟨env₁, hchange₁, rfl⟩ := Host.rewrite_eq_some hmiddle hversion
          cases hrest with
          | goes hsecrets hrest =>
              obtain ⟨env₂, hchange₂, rfl⟩ := Host.rewrite_eq_some rfl hsecrets
              cases hrest
              refine ⟨env₂, ?_, rfl⟩
              rw [environment, hchange₁, Option.bind_some, hchange₂]
  | none =>
      rw [henv] at h
      cases h with
      | goes hnew hrest =>
          obtain rfl := Option.some.inj hnew
          cases hrest with
          | goes hversion hrest =>
              obtain ⟨env₁, hchange₁, rfl⟩ := Host.rewrite_eq_some rfl hversion
              cases hrest with
              | goes hwebadmin hrest =>
                  obtain ⟨env₂, hchange₂, rfl⟩ := Host.rewrite_eq_some rfl hwebadmin
                  cases hrest with
                  | goes hsecrets hrest =>
                      obtain ⟨env₃, hchange₃, rfl⟩ := Host.rewrite_eq_some rfl hsecrets
                      cases hrest
                      refine ⟨env₃, ?_, rfl⟩
                      rw [environment, hchange₁, Option.bind_some, hchange₂, Option.bind_some,
                        hchange₃]

/-- What a run that goes to the end makes of a host. -/
theorem eq_of_completed (h : Run kit release host host' none) :
    ∃ images env', (∀ image, images image release.version = some release) ∧
      environment kit release host.env = some env' ∧
      host' = ⟨images, some (installed kit release host.tak), host.aside, some env'⟩ := by
  rcases h.2.split with ⟨i, hstop, -⟩ | ⟨middle, hfiles, hruns⟩
  · cases hstop
  · rcases hfiles.split with ⟨i, hstop, -⟩ | ⟨built, hbuilds, htree⟩
    · cases hstop
    · have hsame : SameFiles host built := sameFiles_runs not_mem_onTree_builds hbuilds
      have hbuilt : built.env = host.env := env_runs not_mem_onEnv_builds hbuilds
      rw [← treePhases_congr hsame] at htree
      have hmiddle := eq_of_treePhases htree
      have henv : middle.env = host.env := by
        rw [hmiddle]
        exact hbuilt
      obtain ⟨env', henvironment, rfl⟩ := eq_of_envPhases henv hruns
      rw [hmiddle]
      refine ⟨built.images, env', fun image => ?_, henvironment, ?_⟩
      · obtain rfl := Option.some.inj (runs_none_iff.mp hbuilds)
        cases image with
        | database => simp
        | server => simp
      · rw [hsame.1, hsame.2]

theorem kept_of_provisioned (hhex : kit.tools.PrintsHex) (h : provisioned kit env = some env') :
    Kept env env' ∧ ∀ secret ∈ secretKeys, envGet env' secret.1 ≠ [] := by
  rw [provisioned] at h
  split_ifs at h with hok
  obtain rfl := Option.some.inj h
  exact ⟨kept_provisionAll hhex (List.Subset.refl _),
    provisionAll_filled hhex (List.Subset.refl _) hok⟩

theorem takVersion_ne_secret : ∀ secret ∈ secretKeys, takVersion ≠ secret.1 := by decide

/-- The version in the file is that of the images, if it was before or `sed` sets it. -/
theorem version_of_updated (hsed : kit.sed.Documented) (hspliced : Spliced '/' release.version)
    (h : updated kit release env = some env') :
    envGet env' takVersion = release.version ↔
      envGet env takVersion = release.version ∨ SedSets env takVersion release.version := by
  rcases updated_cases hsed hspliced h with ⟨rfl, hsame⟩ | ⟨hreported, hrows⟩
  · exact iff_of_true hsame (.inl hsame)
  · have hother : envGet env takVersion ≠ release.version := by
      intro hsame
      rw [setupVersion, if_pos hsame] at hreported
      cases hreported
    rw [or_iff_right hother]
    exact envGet_substitute_iff hrows

/-- After a run that goes to the end the images are those of the release, and so is `tak/` but for
what was preserved in it; nothing more is set aside than before.  A file that was there keeps its
other settings, and names the images exactly if `sed` can set the version. -/
theorem completed_run (hkit : kit.Documented) (hspliced : Spliced '/' release.version)
    (h : Run kit release host host' none) :
    (∀ image, host'.images image release.version = some release) ∧
      host'.aside = host.aside ∧
      (∃ tak', host'.tak = some tak' ∧
        (∀ path, isItem path = false →
          tak' path = (kit.scripts path).or (release.tak path)) ∧
        (∀ tak, host.tak = some tak → ∀ path, isItem path = true →
          tak' path = (tak path).or (release.tak path)) ∧
        (host.tak = none → ∀ path, isItem path = true →
          tak' path = if isVendorCert path then none else release.tak path)) ∧
      ∀ env, host.env = some env → ∃ env', host'.env = some env' ∧
        (envGet env' takVersion = release.version ↔
          envGet env takVersion = release.version ∨ SedSets env takVersion release.version) ∧
        ∀ key, key ≠ takVersion → envGet env key ≠ [] → envGet env' key = envGet env key := by
  obtain ⟨images, env', himages, henvironment, rfl⟩ := eq_of_completed h
  refine ⟨himages, rfl, ⟨_, rfl, fun path hpath => ?_, fun tak htak path hpath => ?_,
    fun hnone path hpath => ?_⟩, fun env henv => ⟨env', rfl, ?_⟩⟩
  · have hvendor : isVendorCert path = false := by
      rw [Bool.eq_false_iff]
      intro hvendor
      exact Bool.eq_false_iff.mp hpath (isItem_of_isVendorCert hvendor)
    rw [installed, overlay]
    cases host.tak with
    | none => rw [merged, withoutVendorCerts, hvendor, if_neg Bool.false_ne_true]
    | some tak => rw [merged, overlay, itemsOf, hpath, if_neg Bool.false_ne_true, Option.none_or]
  · rw [installed, htak, overlay, scripts_of_isItem hpath, Option.none_or, merged, overlay, itemsOf,
      if_pos hpath]
  · rw [installed, hnone, overlay, scripts_of_isItem hpath, Option.none_or, merged,
      withoutVendorCerts]
  · rw [henv] at henvironment
    obtain ⟨env₁, hupdated, hprovisioned⟩ := Option.bind_eq_some_iff.mp henvironment
    have hkept := (kept_of_provisioned hkit.tools hprovisioned).1
    constructor
    · rw [hkept.other takVersion_ne_secret]
      exact version_of_updated hkit.sed hspliced hupdated
    · intro key hkey hne
      have hsame := envGet_updated_other hkit.sed hspliced hupdated hkey
      rw [← hsame] at hne ⊢
      exact hkept.values key hne

/-! ## The first run -/

/-- What `.env.example` is like: the version begins the row that decides, the password of the
administrator is left empty, the address is a placeholder, and the mode is known. -/
structure Template (template : List Char) : Prop where
  version : (lastRow template takVersion).any (anchored takVersion) = true
  webadmin : lastRow template webadminPassword = some (webadminPassword.chars ++ ['='])
  address : Rule.serverAddress.violated template = true
  mode : Rule.deployMode.violated template = false

/-- A version has no blanks and begins with a digit. -/
theorem readsBack_version (hrefusal : release.refusal = none) : ReadsBack release.version := by
  obtain ⟨major, minor, hparsed, -⟩ :=
    meetsFloor_version (Release.meetsFloor_of_refusal hrefusal)
  obtain ⟨hbefore, hmajor, hdigits, -⟩ := takeWhile_of_majorMinor hparsed
  obtain ⟨c, digits, rfl⟩ := List.exists_cons_of_ne_nil hmajor
  have hhead : release.version.head? = some c := by
    have hleads : (c :: digits ++ '.' :: minor) <+: release.version := by
      rw [← hbefore]
      exact List.takeWhile_prefix _
    obtain ⟨rest, hrest⟩ := hleads
    rw [← hrest]
    rfl
  have hc : c.isDigit = true := hdigits c List.mem_cons_self
  refine ⟨?_, ?_, not_any_isSpace fun d hd => ?_⟩
  · rw [hhead]
    exact fun hquote => isDigit_ne hc (by decide) (Option.some.inj hquote)
  · rw [hhead]
    exact fun hquote => isDigit_ne hc (by decide) (Option.some.inj hquote)
  · have hkept := (List.mem_filter.mp (List.mem_of_getLast? hd)).2
    simp only [Bool.not_eq_true', Bool.or_eq_false_iff] at hkept
    exact hkept.1

/-- The first run leaves a file in which the address alone is missing: every launch is refused for
it, and passes when it is set. -/
theorem first_run_ready (hkit : kit.Documented) (htemplate : Template kit.template)
    (hspliced : Spliced '/' release.version) (hnone : host.env = none)
    (h : Run kit release host host' none) :
    ∃ env, host'.env = some env ∧ checkEnv env = some .serverAddress ∧
      envGet env webadminPassword = kit.password ∧
      (envGet env takVersion = release.version ↔ '&' ∉ release.version) ∧
      ∀ env' address, Agrees env env' [(serverAddress, address)] → address ≠ [] →
        address ≠ "tak.example.com".toList → Ready env' := by
  obtain ⟨images, env, -, henvironment, rfl⟩ := eq_of_completed h
  rw [hnone, environment] at henvironment
  obtain ⟨env₂, henv₂, hprovisioned⟩ := Option.bind_eq_some_iff.mp henvironment
  obtain ⟨env₁, hversion, hfill⟩ := Option.bind_eq_some_iff.mp henv₂
  have hpassword := spliced_alphanum hkit.password
  have hrows₁ := hkit.sed _ _ _ _ _ hspliced hversion
  have hrows₂ := hkit.fill _ _ _ _ hpassword.1 hpassword.2 hfill
  obtain ⟨hkept, hfilled⟩ := kept_of_provisioned hkit.tools hprovisioned
  have hkeys : ∀ key ∈ [takVersion, webadminPassword, serverAddress, deployMode],
      ∀ secret ∈ secretKeys, key ≠ secret.1 := by decide
  have hsame : ∀ key ∈ [serverAddress, deployMode], envGet env key = envGet kit.template key := by
    intro key hkey
    have hne : ∀ key ∈ [serverAddress, deployMode], key ≠ webadminPassword ∧ key ≠ takVersion := by
      decide
    rw [hkept.other (hkeys key (by simpa using .inr (.inr (by simpa using hkey)))),
      envGet_fill_other hrows₂ (hne key hkey).1, envGet_substitute_other hrows₁ (hne key hkey).2]
  have hwebadmin : envGet env webadminPassword = kit.password := by
    have hline : lastRow env₁ webadminPassword = some (webadminPassword.chars ++ ['=']) := by
      rw [lastRow_substitute_other hrows₁ (by decide)]
      exact htemplate.webadmin
    rw [hkept.other (hkeys _ (by simp)), envGet_fill hrows₂ hline,
      shellValue_alphanum hkit.password]
  have htakVersion : envGet env takVersion = envGet env₁ takVersion := by
    rw [hkept.other (hkeys _ (by simp)), envGet_fill_other hrows₂ (by decide)]
  refine ⟨env, rfl, ?_, hwebadmin, ?_, fun env' address hagrees hne hplaceholder => ?_⟩
  · have hviolated : Rule.serverAddress.violated env = true := by
      rw [Rule.violated, Rule.key, hsame _ (by simp)]
      exact htemplate.address
    exact List.find?_cons_of_pos hviolated
  · rw [htakVersion, envGet_substitute_iff hrows₁, SedSets, if_pos htemplate.version]
    exact and_iff_left (readsBack_version h.1)
  · have hother : ∀ key, key ≠ serverAddress → envGet env' key = envGet env key := by
      intro key hkey
      apply hagrees.2
      intro set hset
      rw [List.mem_singleton.mp hset]
      exact hkey
    have haddress : envGet env' serverAddress = address :=
      hagrees.1 (serverAddress, address) (by simp)
    have hsecrets : ∀ secret ∈ secretKeys, secret.1 ≠ serverAddress := by decide
    have hall : ∀ secret ∈ secretKeys, envGet env' secret.1 ≠ [] := by
      intro secret hsecret
      rw [hother _ (hsecrets secret hsecret)]
      exact hfilled secret hsecret
    apply ready_iff.mpr
    refine ⟨checkEnv_of_meetsFloor ?_ fun rule hrule => ?_, hall⟩
    · obtain ⟨line, hline⟩ := envGet_substitute_anchored hrows₁ htemplate.version
      rw [hother _ (by decide), htakVersion, hline]
      exact meetsFloor_expand (Release.meetsFloor_of_refusal h.1) line
    · cases rule with
      | serverAddress =>
          rw [Rule.violated, Rule.key, haddress, Rule.rejects, decide_eq_false hne,
            decide_eq_false hplaceholder]
          rfl
      | deployMode =>
          have hmode := htemplate.mode
          rw [Rule.violated, Rule.key] at hmode ⊢
          rw [hother _ (by decide), hsame _ (by simp)]
          exact hmode
      | webadminPassword =>
          rw [Rule.violated, Rule.key, hother _ (by decide), hwebadmin]
          exact decide_eq_false (ne_defaultWebadminPassword hkit.password)
      | tokensApiSecret =>
          exact decide_eq_false (hall (tokensApiSecret, 32) (List.mem_of_getLast? rfl))
      | takVersionSet => exact absurd rfl hrule
      | takVersionForm => exact absurd rfl hrule
      | takVersionFloor => exact absurd rfl hrule

end Environment

/-! ## A deployment -/

theorem rewrite_of_eq {Blob : Type} {host : Host Blob} {env env' : List Char}
    {change : List Char → Option (List Char)} (henv : host.env = some env)
    (h : change env = some env') : host.rewrite change = some { host with env := some env' } := by
  rw [Host.rewrite, henv, Option.bind_some, h, Option.map_some]

/-- A `sed` that ends the last line, as for the version. -/
def endingFill (key : Key) (value file : List Char) : Option (List Char) :=
  if Spliced '|' value then some (printed ((records file).map (fillLine key value))) else none

/-- The settings of `.env.example` that a launch looks at. -/
def exampleEnv : List Char :=
  "SERVER_ADDRESS=tak.example.com\nDEPLOY_MODE=subdomain\nTAK_WEBADMIN_PASSWORD=\n".toList ++
    "TAK_VERSION=5.8-RELEASE-65\nTAK_DB_PASSWORD=\nAPP_DB_PASSWORD=\n".toList ++
      "LDAP_BIND_PASSWORD=\nTOKENS_API_SECRET=\n".toList

def smallKit : Kit ℕ where
  tools := steadyTools
  sed := endingSed
  fill := endingFill
  password := ['p', '1']
  template := exampleEnv
  script := fun _ => 0

theorem smallKit_documented : smallKit.Documented where
  tools := steadyTools_printsHex
  sed := endingSed_documented
  fill := by
    intro key value file file' hspliced _ hrun
    have hfill : endingFill key value file = some file' := hrun
    rw [endingFill, if_pos hspliced] at hfill
    rw [← Option.some.inj hfill]
    apply records_printed
    intro row hrow
    obtain ⟨line, hline, rfl⟩ := List.mem_map.mp hrow
    rw [fillLine]
    split_ifs
    · exact newline_not_mem_row key hspliced.2.2
    · exact not_mem_of_mem_lines (mem_lines_of_mem_records hline)
  password := by decide

def smallRelease : Release ℕ where
  versionText := "5.9-RELEASE-3\n".toList
  hardened := true
  tak := fun path => if path = ["certs", "makeRootCa.sh"] then some 1 else none

/-- The settings of a deployment of an older release. -/
def runningEnv (version : List Char) : List Char :=
  "SERVER_ADDRESS=h\nTAK_VERSION=".toList ++ version ++
    "\nTAK_DB_PASSWORD=a\nAPP_DB_PASSWORD=b\nLDAP_BIND_PASSWORD=c\n".toList ++
      "TOKENS_API_SECRET=d\n".toList

def runningHost : Host ℕ where
  images := fun _ _ => none
  tak := some fun path => if path = ["certs", "files", "ca.pem"] then some 2 else none
  aside := []
  env := some (runningEnv "5.8".toList)

/-- An upgrade that stops while it removes the old files. -/
theorem running_setups : ∃ host, host.tak = none ∧
    Setups (fun kit release => kit.sed.Documented ∧ Spliced '/' release.version) runningHost
      host := by
  refine ⟨_, ?_, Relation.ReflTransGen.single ⟨smallKit, smallRelease, some .remove,
    ⟨endingSed_documented, by decide⟩, by decide,
    .goes rfl (.goes rfl (.goes rfl (.stops ⟨none, rfl⟩)))⟩⟩
  rfl

theorem running_loses_nothing : ∃ host : Host ℕ, host.tak = none ∧
    host.Holds ["certs", "files", "ca.pem"] 2 := by
  obtain ⟨host, hnone, hsetups⟩ := running_setups
  exact ⟨host, hnone, setups_lose_nothing hsetups (by decide) (.inl ⟨_, rfl, rfl⟩)⟩

theorem running_ready : Ready (runningEnv "5.8".toList) := by
  apply ready_iff.mpr
  decide +kernel

theorem running_updated : updated smallKit smallRelease (runningEnv "5.8".toList) =
    some (runningEnv "5.9-RELEASE-3".toList) := by
  decide +kernel

theorem running_provisioned : provisioned smallKit (runningEnv "5.9-RELEASE-3".toList) =
    some (runningEnv "5.9-RELEASE-3".toList) := by
  decide +kernel

theorem running_completes : ∃ host, Run smallKit smallRelease runningHost host none := by
  apply Exists.intro
  exact ⟨by decide, .goes rfl (.goes rfl (.goes rfl (.goes rfl (.goes rfl (.goes rfl (.goes rfl
    (.goes rfl (.goes (rewrite_of_eq rfl running_updated)
      (.goes (rewrite_of_eq rfl running_provisioned) (.done _))))))))))⟩

/-- The certificate of the old deployment is beside the script of the new release. -/
theorem running_completed : ∃ host, Run smallKit smallRelease runningHost host none ∧
    ∃ tak, host.tak = some tak ∧ tak ["certs", "files", "ca.pem"] = some 2 ∧
      tak ["certs", "makeRootCa.sh"] = some 1 := by
  obtain ⟨host, hrun⟩ := running_completes
  obtain ⟨-, -, ⟨tak, htak, -, hitems, -⟩, -⟩ :=
    completed_run smallKit_documented (by decide) hrun
  exact ⟨host, hrun, tak, htak, hitems _ rfl _ rfl, hitems _ rfl _ rfl⟩

/-- A host on which nothing was set up. -/
def emptyHost : Host ℕ where
  images := fun _ _ => none
  tak := none
  aside := []
  env := none

/-- What the first run makes of the settings. -/
def firstEnv (password secret : List Char) : List Char :=
  "SERVER_ADDRESS=tak.example.com\nDEPLOY_MODE=subdomain\nTAK_WEBADMIN_PASSWORD=".toList ++
    password ++ "\nTAK_VERSION=5.9-RELEASE-3\nTAK_DB_PASSWORD=".toList ++ secret ++
      "\nAPP_DB_PASSWORD=".toList ++ secret ++ "\nLDAP_BIND_PASSWORD=".toList ++ secret ++
        "\nTOKENS_API_SECRET=".toList ++ secret ++ ['\n']

theorem empty_completes : ∃ host, Run smallKit smallRelease emptyHost host none := by
  have hversion : endingSed '/' takVersion smallRelease.version exampleEnv =
      some (firstEnv [] []) := by decide +kernel
  have hwebadmin : endingFill webadminPassword ['p', '1'] (firstEnv [] []) =
      some (firstEnv ['p', '1'] []) := by decide +kernel
  have hsecrets : provisioned smallKit (firstEnv ['p', '1'] []) =
      some (firstEnv ['p', '1'] ['0', 'f']) := by decide +kernel
  apply Exists.intro
  exact ⟨by decide, .goes rfl (.goes rfl (.goes rfl (.goes rfl (.goes rfl (.goes rfl
    (.goes (rewrite_of_eq rfl hversion) (.goes (rewrite_of_eq rfl hwebadmin)
      (.goes (rewrite_of_eq rfl hsecrets) (.done _)))))))))⟩

theorem exampleEnv_template : Template exampleEnv where
  version := by decide +kernel
  webadmin := by decide +kernel
  address := by decide +kernel
  mode := by decide +kernel

theorem empty_ready : ∃ host env, Run smallKit smallRelease emptyHost host none ∧
    host.env = some env ∧ checkEnv env = some .serverAddress ∧
      envGet env webadminPassword = ['p', '1'] := by
  obtain ⟨host, hrun⟩ := empty_completes
  obtain ⟨env, henv, hcheck, hpassword, -⟩ :=
    first_run_ready smallKit_documented exampleEnv_template (by decide) rfl hrun
  exact ⟨host, env, hrun, henv, hcheck, hpassword⟩

end FastTAK.Setup
