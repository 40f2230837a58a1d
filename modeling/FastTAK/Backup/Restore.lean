import FastTAK.Backup.AgeIdentity
import FastTAK.Base.Latest
import FastTAK.Base.Redo
import FastTAK.Env.Rewriters
import FastTAK.Stack.Extensions

/-!
# Restoring a backup

A backup stages the parts of the stack and encrypts them together.  `restore.sh` writes them over
a host and stops at the first step that fails; what a failed step leaves of its own part is
anything.  It may then be run again.
-/

namespace FastTAK.Restore

open FastTAK.AgeIdentity FastTAK.Env FastTAK.Extensions FastTAK.Redo

/-! ## Archives -/

/-- What is in a file. -/
inductive Blob
  | text (chars : List Char)
  | lines (dump : List (List Char))
  | tar (files : List (String × Blob))
  | age (recipient : List Char) (plain : Blob)

def Blob.asText : Blob → Option (List Char)
  | text chars => some chars
  | _ => none

def Blob.asLines : Blob → Option (List (List Char))
  | lines dump => some dump
  | _ => none

/-- `tar -x`. -/
def Blob.asTar : Blob → Option (List (String × Blob))
  | tar files => some files
  | _ => none

/-- The lines of an identity file that `age` reads. -/
def identities (keyfile : List Char) : List (List Char) :=
  (Text.splitlines keyfile).filter fun line => line ≠ [] ∧ line.head? ≠ some '#'

/-- `age -d -i`. -/
def decrypt (opens : List Char → List Char → Bool) (keyfile : List Char) : Blob → Option Blob
  | .age recipient plain =>
      if (identities keyfile).any fun identity => opens identity recipient then some plain
      else none
  | _ => none

/-! ## Databases -/

inductive Database
  | cot
  | lldap
  | nodered
  | fastak
deriving DecidableEq

def Database.name : Database → String
  | cot => "cot"
  | lldap => "lldap"
  | nodered => "nodered"
  | fastak => "fastak"

/-- The databases in the order of `_database_dsns`. -/
def databases : List Database := [.cot, .lldap, .nodered, .fastak]

def Database.path (db : Database) : String := "postgres/" ++ db.name ++ ".sql"

def dumpLines (dump : Dump) : List (List Char) := dump.lines.map Line.text

/-- `pg_dump` and `psql` of databases without owners and privileges.  A dump that is loaded into an
empty database gives the database again, if the extensions that it makes are there, and no others;
a superuser makes them. -/
structure Postgres (Db : Type) where
  dump : Db → Dump
  available : List Char → Bool
  load : List (List Char) → List (List Char) → Option Db
  loadAsSuperuser : List (List Char) → Option Db
  load_dump : ∀ db extensions,
    (∀ name, name ∈ extensions ↔ ∃ line ∈ (dump db).lines, line.made = some name) →
      load extensions (dumpLines (dump db)) = some db
  loadAsSuperuser_dump : ∀ db, loadAsSuperuser (dumpLines (dump db)) = some db

section Scripts

variable {Db : Type}

/-! ## The backup -/

/-- What a backup is made of. -/
structure Stack (Db : Type) where
  env : List Char
  certs : List (String × Blob)
  takRoot : List (String × Blob)
  noderedData : List (String × Blob)
  database : Database → Db

def takConfigFiles : List String := ["CoreConfig.xml", "TAKIgniteConfig.xml"]

/-- The files of `_tar_tak_config`, which all have to be there. -/
def takConfig (root : List (String × Blob)) (names : List String) :
    Option (List (String × Blob)) :=
  names.mapM fun name => (root.lookup name).map fun file => (name, file)

/-- `COMPONENTS`. -/
def components : List String :=
  ["postgres/cot.sql", "postgres/lldap.sql", "postgres/nodered.sql", "postgres/fastak.sql",
    "tak-certs.tar", "tak-config.tar", "nodered-data.tar", "env"]

def staging (pg : Postgres Db) (manifest : Blob) (stack : Stack Db)
    (config : List (String × Blob)) : List (String × Blob) :=
  ("MANIFEST.json", manifest) ::
    (databases.map fun db => (db.path, .lines (dumpLines (pg.dump (stack.database db))))) ++
      [("tak-certs.tar", .tar stack.certs), ("tak-config.tar", .tar config),
        ("nodered-data.tar", .tar stack.noderedData), ("env", .text stack.env)]

/-- `_populate_staging`. -/
def populateStaging (pg : Postgres Db) (manifest : Blob) (stack : Stack Db) :
    Option (List (String × Blob)) :=
  (takConfig stack.takRoot takConfigFiles).map (staging pg manifest stack)

/-- `_stream_encrypted_archive` of what is staged. -/
def backup (pg : Postgres Db) (recipient : List Char) (manifest : Blob) (stack : Stack Db) :
    Option Blob :=
  (populateStaging pg manifest stack).map fun staging => .age recipient (.tar staging)

/-! ## The restore -/

/-- What is on a host.  A volume that is not there yet is empty. -/
structure Host (Db : Type) where
  env : List Char
  certs : String → Option Blob
  takRoot : String → Option Blob
  noderedData : String → Option Blob
  database : Database → Option Db

/-- The steps after the archive is unpacked. -/
inductive Phase
  | env
  | certs
  | config
  | noderedData
  | start
  | database (db : Database)
deriving DecidableEq

def phases : List Phase :=
  [.env, .certs, .config, .noderedData, .start] ++ databases.map .database ++ [.start]

/-- A file of the archive. -/
def content {α : Type} (work : List (String × Blob)) (path : String) (form : Blob → Option α) :
    Option α :=
  (work.lookup path).bind form

/-- The file with which `restore-env.sh` replaces the one on the host. -/
def restoredEnv (sed : Sed) (archive host : List Char) : Option (List Char) :=
  match restoreEnv sed archive host with
  | .settled env => some env
  | .reported env => some env
  | _ => none

/-- A dump into a database that was just made.  `cot` is loaded by a user who is no superuser, and
its extensions are made before. -/
def loaded (pg : Postgres Db) (db : Database) (dump : List (List Char)) : Option Db :=
  if db = .cot then
    let names := upgradeDumpExtensions dump
    if names.all pg.available then pg.load names dump else none
  else pg.loadAsSuperuser dump

def write (files : List (String × Blob)) (dir : String → Option Blob) : String → Option Blob :=
  overlay (fun path => files.lookup path) dir

/-- A step that succeeds.  There is no configuration in an archive of an old release. -/
def apply (pg : Postgres Db) (sed : Sed) (work : List (String × Blob)) :
    Phase → Host Db → Option (Host Db)
  | .env, host =>
      ((content work "env" Blob.asText).bind fun archive => restoredEnv sed archive host.env).map
        fun env => { host with env := env }
  | .certs, host =>
      (content work "tak-certs.tar" Blob.asTar).map fun files =>
        { host with certs := write files host.certs }
  | .config, host =>
      if work.lookup "tak-config.tar" = none then some host
      else
        (content work "tak-config.tar" Blob.asTar).map fun files =>
          { host with takRoot := write files host.takRoot }
  | .noderedData, host =>
      (content work "nodered-data.tar" Blob.asTar).map fun files =>
        { host with noderedData := write files host.noderedData }
  | .start, host => some host
  | .database db, host =>
      ((content work db.path Blob.asLines).bind (loaded pg db)).map fun state =>
        { host with database := Function.update host.database db (some state) }

/-- The directory is as it was, but for the files of a tar archive. -/
def Partly (work : List (String × Blob)) (path : String) (dir dir' : String → Option Blob) : Prop :=
  SameOff (fun file => ((content work path Blob.asTar).getD []).lookup file) dir dir'

/-- What a step can leave that fails. -/
def Spoils (work : List (String × Blob)) : Phase → Host Db → Host Db → Prop
  | .env, host, host' => ∃ env, host' = { host with env := env }
  | .certs, host, host' =>
      ∃ certs, Partly work "tak-certs.tar" host.certs certs ∧ host' = { host with certs := certs }
  | .config, host, host' =>
      ∃ root, Partly work "tak-config.tar" host.takRoot root ∧ host' = { host with takRoot := root }
  | .noderedData, host, host' =>
      ∃ files, Partly work "nodered-data.tar" host.noderedData files ∧
        host' = { host with noderedData := files }
  | .start, host, host' => host' = host
  | .database db, host, host' =>
      ∃ state, host' = { host with database := Function.update host.database db state }

/-- What `restore.sh` unpacks. -/
def unpack (opens : List Char → List Char → Bool) (keyfile : List Char) (archive : Blob) :
    Option (List (String × Blob)) :=
  ((decrypt opens keyfile archive).bind Blob.asTar).filter fun work =>
    (work.lookup "MANIFEST.json").isSome

/-- A run of `restore.sh`, with the step that it stops at. -/
def Run (pg : Postgres Db) (sed : Sed) (work : List (String × Blob)) :
    Host Db → Host Db → Option Phase → Prop :=
  Runs (apply pg sed work) (Spoils work) phases

end Scripts

/-! ## What is staged -/

section Staging

variable {Db : Type} {pg : Postgres Db} {manifest : Blob} {stack : Stack Db} {names : List String}
  {root files config : List (String × Blob)} {opens : List Char → List Char → Bool}
  {k : Keypair opens}

theorem lookup_takConfig (h : takConfig root names = some files) (path : String) :
    files.lookup path = if path ∈ names then root.lookup path else none := by
  induction names generalizing files with
  | nil =>
      obtain rfl : [] = files := Option.some.inj h
      rfl
  | cons name names ih =>
      rw [takConfig, List.mapM_cons, Option.bind_eq_bind, Option.bind_eq_some_iff] at h
      obtain ⟨entry, hentry, hrest⟩ := h
      obtain ⟨file, hfile, rfl⟩ := Option.map_eq_some_iff.mp hentry
      obtain ⟨rest, hnames, hfiles⟩ := Option.bind_eq_some_iff.mp hrest
      obtain rfl := Option.some.inj hfiles
      rw [List.lookup_cons, ih hnames]
      by_cases hpath : path = name
      · subst hpath
        simp [hfile]
      · simp [beq_false_of_ne hpath, hpath]

theorem isSome_of_takConfig (h : takConfig root names = some files) {path : String}
    (hpath : path ∈ names) : (root.lookup path).isSome := by
  induction names generalizing files with
  | nil => cases hpath
  | cons name names ih =>
      rw [takConfig, List.mapM_cons, Option.bind_eq_bind, Option.bind_eq_some_iff] at h
      obtain ⟨entry, hentry, hrest⟩ := h
      obtain ⟨rest, hnames, -⟩ := Option.bind_eq_some_iff.mp hrest
      rcases List.mem_cons.mp hpath with rfl | hpath
      · obtain ⟨file, hfile, -⟩ := Option.map_eq_some_iff.mp hentry
        rw [hfile]
        rfl
      · exact ih hnames hpath

theorem paths_staging : (staging pg manifest stack config).map Prod.fst =
    "MANIFEST.json" :: components := by
  rfl

section Apply

variable {sed : Sed} {host : Host Db}

theorem apply_env : apply pg sed (staging pg manifest stack config) .env host =
    (restoredEnv sed stack.env host.env).map fun env => { host with env := env } := by
  rfl

theorem apply_certs : apply pg sed (staging pg manifest stack config) .certs host =
    some { host with certs := write stack.certs host.certs } := by
  rfl

theorem apply_config : apply pg sed (staging pg manifest stack config) .config host =
    some { host with takRoot := write config host.takRoot } := by
  rfl

theorem apply_noderedData : apply pg sed (staging pg manifest stack config) .noderedData host =
    some { host with noderedData := write stack.noderedData host.noderedData } := by
  rfl

theorem apply_database (db : Database) :
    apply pg sed (staging pg manifest stack config) (.database db) host =
      (loaded pg db (dumpLines (pg.dump (stack.database db)))).map fun state =>
        { host with database := Function.update host.database db (some state) } := by
  cases db with
  | cot => rfl
  | lldap => rfl
  | nodered => rfl
  | fastak => rfl

end Apply

theorem identities_text (k : Keypair opens) : identities k.text = [k.identity] := by
  have hlines : Text.splitlines k.text = [k.createdLine, k.recipientLine, k.identity] := by
    have hsolid : ∀ c ∈ k.identity, Text.isLineBreak c = false :=
      fun c hc => isLineBreak_of_not_isBlank (k.identity_solid c hc)
    rw [Keypair.text, Keypair.header_append, Text.splitlines_line k.createdLine_solid,
      Text.splitlines_line k.recipientLine_solid, Text.splitlines_line hsolid]
    rfl
  have hidentity : k.identity.head? = some 'A' := rfl
  rw [identities, hlines]
  simp [k.head?_createdLine, k.head?_recipientLine, hidentity]
  exact List.cons_ne_nil _ _

/-- The key of the backup unpacks it. -/
theorem unpack_backup {archive : Blob} (h : backup pg k.recipient manifest stack = some archive) :
    ∃ config, takConfig stack.takRoot takConfigFiles = some config ∧
      unpack opens k.text archive = some (staging pg manifest stack config) := by
  obtain ⟨work, hwork, rfl⟩ := Option.map_eq_some_iff.mp h
  obtain ⟨config, hconfig, rfl⟩ := Option.map_eq_some_iff.mp hwork
  refine ⟨config, hconfig, ?_⟩
  have hopens : opens k.identity k.recipient = true := (k.opens_iff _ List.prefix_rfl).mpr rfl
  rw [unpack, decrypt, identities_text, List.any_cons, hopens, Bool.true_or, if_pos rfl]
  rfl

theorem mem_upgradeDumpExtensions {dump : Dump} (hclean : Clean dump) (name : List Char) :
    name ∈ upgradeDumpExtensions (dumpLines dump) ↔
      ∃ line ∈ dump.lines, line.made = some name := by
  rw [dumpLines, ← printed_names, printed_eq_iff.mpr hclean, List.mem_map]
  constructor
  · rintro ⟨entry, hentry, rfl⟩
    exact ⟨entry.1, Firsts.mem_of_mem_firsts hentry⟩
  · rintro ⟨line, hline, hmade⟩
    exact Latest.exists_mem_firsts hline hmade List.not_mem_nil

/-- A dump that is loaded gives the database again. -/
theorem eq_of_loaded (hclean : Clean (pg.dump (stack.database .cot))) {db : Database} {state : Db}
    (h : loaded pg db (dumpLines (pg.dump (stack.database db))) = some state) :
    state = stack.database db := by
  by_cases hcot : db = .cot
  · subst hcot
    rw [loaded, if_pos rfl] at h
    dsimp only at h
    split_ifs at h
    rw [pg.load_dump _ _ (mem_upgradeDumpExtensions hclean)] at h
    exact (Option.some.inj h).symm
  · rw [loaded, if_neg hcot, pg.loadAsSuperuser_dump] at h
    exact (Option.some.inj h).symm

end Staging

/-! ## Attempts -/

section Attempts

variable {Db : Type} {pg : Postgres Db} {sed : Sed} {manifest : Blob} {stack : Stack Db}
  {work config : List (String × Blob)} {host host' host'' : Host Db} {phase : Phase}
  {stop : Option Phase}

/-- The files of a host are the same but for those of the archive. -/
structure SameBesides (work : List (String × Blob)) (host host' : Host Db) : Prop where
  certs : Partly work "tak-certs.tar" host.certs host'.certs
  takRoot : Partly work "tak-config.tar" host.takRoot host'.takRoot
  noderedData : Partly work "nodered-data.tar" host.noderedData host'.noderedData

theorem SameBesides.refl (work : List (String × Blob)) (host : Host Db) :
    SameBesides work host host := ⟨fun _ _ => rfl, fun _ _ => rfl, fun _ _ => rfl⟩

theorem SameBesides.trans (h : SameBesides work host host') (h' : SameBesides work host' host'') :
    SameBesides work host host'' :=
  ⟨SameOff.trans h.certs h'.certs, SameOff.trans h.takRoot h'.takRoot,
    SameOff.trans h.noderedData h'.noderedData⟩

theorem partly_write {path : String} {files : List (String × Blob)}
    (hfiles : content work path Blob.asTar = some files) (dir : String → Option Blob) :
    Partly work path dir (write files dir) := by
  rw [Partly, hfiles]
  exact sameOff_overlay _ dir

theorem sameBesides_apply (h : apply pg sed work phase host = some host') :
    SameBesides work host host' := by
  cases phase with
  | env =>
      obtain ⟨env, -, rfl⟩ := Option.map_eq_some_iff.mp h
      exact ⟨fun _ _ => rfl, fun _ _ => rfl, fun _ _ => rfl⟩
  | certs =>
      obtain ⟨files, hfiles, rfl⟩ := Option.map_eq_some_iff.mp h
      exact ⟨partly_write hfiles _, fun _ _ => rfl, fun _ _ => rfl⟩
  | config =>
      rw [apply] at h
      split_ifs at h with hnone
      · obtain rfl := Option.some.inj h
        exact SameBesides.refl work host
      · obtain ⟨files, hfiles, rfl⟩ := Option.map_eq_some_iff.mp h
        exact ⟨fun _ _ => rfl, partly_write hfiles _, fun _ _ => rfl⟩
  | noderedData =>
      obtain ⟨files, hfiles, rfl⟩ := Option.map_eq_some_iff.mp h
      exact ⟨fun _ _ => rfl, fun _ _ => rfl, partly_write hfiles _⟩
  | start =>
      obtain rfl := Option.some.inj h
      exact SameBesides.refl work host
  | database db =>
      obtain ⟨state, -, rfl⟩ := Option.map_eq_some_iff.mp h
      exact ⟨fun _ _ => rfl, fun _ _ => rfl, fun _ _ => rfl⟩

theorem sameBesides_spoils (h : Spoils work phase host host') : SameBesides work host host' := by
  cases phase with
  | env =>
      obtain ⟨env, rfl⟩ := h
      exact ⟨fun _ _ => rfl, fun _ _ => rfl, fun _ _ => rfl⟩
  | certs =>
      obtain ⟨certs, hcerts, rfl⟩ := h
      exact ⟨hcerts, fun _ _ => rfl, fun _ _ => rfl⟩
  | config =>
      obtain ⟨root, hroot, rfl⟩ := h
      exact ⟨fun _ _ => rfl, hroot, fun _ _ => rfl⟩
  | noderedData =>
      obtain ⟨files, hfiles, rfl⟩ := h
      exact ⟨fun _ _ => rfl, fun _ _ => rfl, hfiles⟩
  | start =>
      obtain rfl : host' = host := h
      exact SameBesides.refl work host'
  | database db =>
      obtain ⟨state, rfl⟩ := h
      exact ⟨fun _ _ => rfl, fun _ _ => rfl, fun _ _ => rfl⟩

theorem sameBesides_attempts {kind : Phase → Host Db → Host Db → Prop}
    (h : Attempts (apply pg sed work) (Spoils work) phases kind host host') :
    SameBesides work host host' := by
  apply Attempts.keeps h (SameBesides.refl work) SameBesides.trans
  · exact fun _ _ _ _ happly => sameBesides_apply happly
  · exact fun _ _ _ _ hspoils => sameBesides_spoils hspoils

/-- What a restore makes of a host. -/
structure Restored (stack : Stack Db) (host restored : Host Db) : Prop where
  certs : restored.certs = write stack.certs host.certs
  takRoot : ∀ path, restored.takRoot path =
    if path ∈ takConfigFiles then stack.takRoot.lookup path else host.takRoot path
  noderedData : restored.noderedData = write stack.noderedData host.noderedData
  database : ∀ db, restored.database db = some (stack.database db)

/-- A run that goes to the end has written everything. -/
theorem restored_of_run (hconfig : takConfig stack.takRoot takConfigFiles = some config)
    (hclean : Clean (pg.dump (stack.database .cot)))
    (hrun : Run pg sed (staging pg manifest stack config) host host' none) :
    Restored stack host host' := by
  have hsteps := runs_none_iff.mp hrun
  simp only [phases, databases, List.map_cons, List.map_nil, List.cons_append, List.nil_append,
    List.foldlM_cons, List.foldlM_nil, Option.bind_eq_bind, Option.bind_eq_some_iff, apply_env,
    apply_certs, apply_config, apply_noderedData, apply_database, Option.map_eq_some_iff] at hsteps
  obtain ⟨_, ⟨env, -, rfl⟩, _, hcerts, _, hroot, _, hnodered, _, hstart, _, ⟨cot, hcot, rfl⟩, _,
    ⟨lldap, hlldap, rfl⟩, _, ⟨flows, hflows, rfl⟩, _, ⟨fastak, hfastak, rfl⟩, _, hrest,
    hend⟩ := hsteps
  obtain rfl := Option.some.inj hcerts
  obtain rfl := Option.some.inj hroot
  obtain rfl := Option.some.inj hnodered
  obtain rfl := Option.some.inj hstart
  obtain rfl := Option.some.inj hrest
  obtain rfl := Option.some.inj hend
  refine ⟨rfl, ?_, rfl, ?_⟩
  · intro path
    have hwrite : write config host.takRoot path =
        (if path ∈ takConfigFiles then stack.takRoot.lookup path else none).or
          (host.takRoot path) := by
      rw [← lookup_takConfig hconfig path]
      rfl
    apply hwrite.trans
    split_ifs with hpath
    · obtain ⟨file, hfile⟩ := Option.isSome_iff_exists.mp (isSome_of_takConfig hconfig hpath)
      rw [hfile, Option.some_or]
    · rw [Option.none_or]
  · intro db
    cases db with
    | cot => exact congrArg some (eq_of_loaded hclean hcot)
    | lldap => exact congrArg some (eq_of_loaded hclean hlldap)
    | nodered => exact congrArg some (eq_of_loaded hclean hflows)
    | fastak => exact congrArg some (eq_of_loaded hclean hfastak)

/-- What earlier attempts have left makes no difference. -/
theorem Restored.of_sameBesides (hconfig : takConfig stack.takRoot takConfigFiles = some config)
    (h : Restored stack host' host'')
    (hsame : SameBesides (staging pg manifest stack config) host host') :
    Restored stack host host'' := by
  constructor
  · rw [h.certs]
    exact (overlay_congr hsame.certs).symm
  · intro path
    rw [h.takRoot path]
    split_ifs with hpath
    · rfl
    · have hnone : config.lookup path = none := by rw [lookup_takConfig hconfig, if_neg hpath]
      exact (hsame.takRoot path hnone).symm
  · rw [h.noderedData]
    exact (overlay_congr hsame.noderedData).symm
  · exact h.database

/-! ## The environment -/

/-- An attempt that stops at the environment leaves it as it was. -/
def Calm (phase : Phase) (host host' : Host Db) : Prop := phase = .env → host'.env = host.env

/-- The version of the host can be kept: the archive has it, or takes it. -/
def Keeps (archive version : List Char) : Prop :=
  envGet archive takVersion = version ∨ Spliced '/' version ∧ RestoreSets archive version

theorem agrees_of_restoredEnv (hsed : sed.Documented) {archive env hostEnv : List Char}
    (hne : envGet hostEnv takVersion ≠ []) (hkeeps : Keeps archive (envGet hostEnv takVersion))
    (h : restoredEnv sed archive hostEnv = some env) :
    Agrees archive env [(takVersion, envGet hostEnv takVersion)] := by
  cases hrun : restoreEnv sed archive hostEnv with
  | refused =>
      rw [restoredEnv, hrun] at h
      cases h
  | failed =>
      rw [restoredEnv, hrun] at h
      cases h
  | settled file =>
      rw [restoredEnv, hrun] at h
      obtain rfl := Option.some.inj h
      rw [restoreEnv] at hrun
      split_ifs at hrun with hfloor hsame hhas
      · obtain rfl := Rewrite.settled.inj hrun
        rw [← hsame]
        exact (agrees_single_iff fun _ _ _ => rfl).mpr rfl
      · cases hnew : sed '/' takVersion (envGet hostEnv takVersion) archive with
        | none =>
            simp only [hnew] at hrun
            cases hrun
        | some file =>
            simp only [hnew] at hrun
            cases hrun
  | reported file =>
      rw [restoredEnv, hrun] at h
      obtain rfl := Option.some.inj h
      have hother : envGet archive takVersion ≠ envGet hostEnv takVersion := by
        intro hsame
        rw [restoreEnv] at hrun
        split_ifs at hrun
      obtain ⟨hspliced, hsets⟩ := hkeeps.resolve_left hother
      exact (restoreEnv_agrees_iff hsed (fun _ => hspliced) hrun).mpr hsets

theorem env_of_apply (hphase : phase ≠ .env) (h : apply pg sed work phase host = some host') :
    host.env = host'.env := by
  cases phase with
  | env => exact absurd rfl hphase
  | certs =>
      obtain ⟨files, -, rfl⟩ := Option.map_eq_some_iff.mp h
      rfl
  | config =>
      rw [apply] at h
      split_ifs at h
      · obtain rfl := Option.some.inj h
        rfl
      · obtain ⟨files, -, rfl⟩ := Option.map_eq_some_iff.mp h
        rfl
  | noderedData =>
      obtain ⟨files, -, rfl⟩ := Option.map_eq_some_iff.mp h
      rfl
  | start =>
      obtain rfl := Option.some.inj h
      rfl
  | database db =>
      obtain ⟨state, -, rfl⟩ := Option.map_eq_some_iff.mp h
      rfl

theorem env_of_spoils (hphase : phase ≠ .env) (h : Spoils work phase host host') :
    host.env = host'.env := by
  cases phase with
  | env => exact absurd rfl hphase
  | certs =>
      obtain ⟨certs, -, rfl⟩ := h
      rfl
  | config =>
      obtain ⟨root, -, rfl⟩ := h
      rfl
  | noderedData =>
      obtain ⟨files, -, rfl⟩ := h
      rfl
  | start => exact congrArg Host.env (Eq.symm h)
  | database db =>
      obtain ⟨state, rfl⟩ := h
      rfl

/-- A run that gets past the environment has replaced it. -/
theorem env_of_run (hrun : Run pg sed (staging pg manifest stack config) host host' stop) :
    stop = some .env ∨ restoredEnv sed stack.env host.env = some host'.env := by
  cases hrun with
  | stops hspoils => exact .inl rfl
  | goes happly hrest =>
      right
      rw [apply_env] at happly
      obtain ⟨env, henv, rfl⟩ := Option.map_eq_some_iff.mp happly
      have hlater : ∀ phase ∈ phases.tail, phase ≠ .env := by decide
      have hsame : env = host'.env := by
        apply hrest.keeps (R := fun host host' : Host Db => host.env = host'.env)
        · exact fun _ => rfl
        · exact Eq.trans
        · exact fun phase hphase _ _ => env_of_apply (hlater phase hphase)
        · exact fun phase hphase _ _ => env_of_spoils (hlater phase hphase)
      exact henv.trans (congrArg some hsame)

/-- The version of the host goes through the attempts. -/
theorem version_of_attempts (hsed : sed.Documented) (hne : envGet host.env takVersion ≠ [])
    (hkeeps : Keeps stack.env (envGet host.env takVersion))
    (h : Attempts (apply pg sed (staging pg manifest stack config))
      (Spoils (staging pg manifest stack config)) phases Calm host host') :
    envGet host'.env takVersion = envGet host.env takVersion := by
  induction h with
  | refl => rfl
  | tail _ hattempt ih =>
      obtain ⟨phase, hruns, hcalm⟩ := hattempt
      rw [← ih] at hne hkeeps ⊢
      rcases env_of_run hruns with hstop | henv
      · rw [hcalm (Option.some.inj hstop)]
      · exact (agrees_of_restoredEnv hsed hne hkeeps henv).1 _ (List.mem_singleton.mpr rfl)

end Attempts

/-! ## Backups that are restored -/

section Restore

variable {Db : Type} {pg : Postgres Db} {sed : Sed} {manifest archive : Blob} {stack : Stack Db}
  {work : List (String × Blob)} {host host₁ host₂ : Host Db}
  {opens : List Char → List Char → Bool} {k : Keypair opens}
  {kind : Phase → Host Db → Host Db → Prop}

/-- A database of one table without extensions. -/
def rowsDump (rows : List (List Char)) : Dump where
  preData := []
  blocks := [{
    heading := "public.cot_router (id) FROM stdin;".toList
    continued := []
    rows := rows
    heading_closed := by decide }]
  postData := []

theorem dumpLines_rowsDump (rows : List (List Char)) :
    dumpLines (rowsDump rows) =
      ("COPY ".toList ++ "public.cot_router (id) FROM stdin;".toList) :: rows := by
  simp [dumpLines, rowsDump, Dump.lines, Block.lines, Line.text, Function.comp_def]

def rowsPostgres : Postgres (List (List Char)) where
  dump := rowsDump
  available := fun _ => true
  load := fun _ dump => some dump.tail
  loadAsSuperuser := fun dump => some dump.tail
  load_dump := by
    intro rows extensions _
    rw [dumpLines_rowsDump, List.tail_cons]
  loadAsSuperuser_dump := by
    intro rows
    rw [dumpLines_rowsDump, List.tail_cons]

def smallStack : Stack (List (List Char)) where
  env := versionFile
  certs := [("ca.pem", .text ['c'])]
  takRoot := [("TAKIgniteConfig.xml", .text ['i']), ("CoreConfig.xml", .text ['x'])]
  noderedData := [("flows.json", .text ['f'])]
  database := fun _ => [['1']]

/-- A host of another release. -/
def freshHost : Host (List (List Char)) where
  env := versionFile'
  certs := fun _ => none
  takRoot := fun path => if path = "CoreConfig.example.xml" then some (.text ['e']) else none
  noderedData := fun _ => none
  database := fun _ => none

def smallWork : List (String × Blob) :=
  staging rowsPostgres (.text []) smallStack
    [("CoreConfig.xml", .text ['x']), ("TAKIgniteConfig.xml", .text ['i'])]

/-- The host after an attempt that stopped while it wrote the configuration. -/
def stoppedHost : Host (List (List Char)) :=
  { freshHost with
    certs := write smallStack.certs freshHost.certs
    takRoot := fun path =>
      if path = "CoreConfig.xml" then some (.text []) else freshHost.takRoot path }

theorem restoredEnv_small : restoredEnv endingSed versionFile versionFile' = some versionFile' := by
  decide +kernel

theorem small_env {host : Host (List (List Char))} (hhost : host.env = versionFile') :
    apply rowsPostgres endingSed smallWork .env host = some host := by
  have henv : restoredEnv endingSed smallStack.env host.env = some host.env := by
    rw [hhost]
    exact restoredEnv_small
  rw [smallWork, apply_env, henv]
  rfl

theorem small_database (db : Database) (host : Host (List (List Char))) :
    apply rowsPostgres endingSed smallWork (.database db) host =
      some { host with database := Function.update host.database db (some [['1']]) } := by
  have hloaded : loaded rowsPostgres db (dumpLines (rowsDump [['1']])) = some [['1']] := by
    cases db with
    | cot => rfl
    | lldap => rfl
    | nodered => rfl
    | fastak => rfl
  have hdump : dumpLines (rowsPostgres.dump (smallStack.database db)) =
      dumpLines (rowsDump [['1']]) := rfl
  rw [smallWork, apply_database, hdump, hloaded]
  rfl

theorem small_stops : Attempts (apply rowsPostgres endingSed smallWork) (Spoils smallWork) phases
    Calm freshHost stoppedHost := by
  have hpartly : Partly smallWork "tak-config.tar" freshHost.takRoot stoppedHost.takRoot := by
    intro path hnone
    have hpath : path ≠ "CoreConfig.xml" := by
      rintro rfl
      cases hnone
    exact (if_neg hpath).symm
  apply Relation.ReflTransGen.single
  use .config
  constructor
  · exact .goes (small_env rfl) (.goes apply_certs (.stops ⟨_, hpartly, rfl⟩))
  · exact fun h => absurd h (by decide)

theorem small_goes : ∃ host, Run rowsPostgres endingSed smallWork stoppedHost host none := by
  apply Exists.intro
  exact .goes (small_env rfl) (.goes apply_certs (.goes apply_config (.goes apply_noderedData
    (.goes rfl (.goes (small_database .cot _) (.goes (small_database .lldap _)
      (.goes (small_database .nodered _) (.goes (small_database .fastak _)
        (.goes rfl (.done _))))))))))

theorem small_clean : Clean (rowsPostgres.dump (smallStack.database .cot)) := by
  apply printed_eq_iff.mp
  rfl

def smallArchive : Blob := .age plainKey.recipient (.tar smallWork)

theorem small_backup :
    backup rowsPostgres plainKey.recipient (.text []) smallStack = some smallArchive := by
  rfl

theorem small_unpack : unpack completeOpens plainKey.text smallArchive = some smallWork := by
  rfl

end Restore

end FastTAK.Restore
