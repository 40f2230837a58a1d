import FastTAK.Base.Fields
import FastTAK.Base.PyJson

/-!
# Overrides of the monitoring configuration

`load_config` walks the tree of `thresholds.yml` once for every variable of the environment
that starts with its marker.  The walk tests for a key wherever it is, also in a number or a
text.
-/

namespace FastTAK.Overrides

open FastTAK.Fields FastTAK.PyJson

/-! ## The tree -/

/-- A node of the configuration. -/
inductive Node where
  | dict (fields : List (Str × Node))
  | int (n : ℤ)
  | float (x : PyFloat)
  | str (text : Str)

abbrev Config := List (Str × Node)

/-- What Python makes of a text: `text.lower()`, `int(text)` and `float(text)`, the latter two
where they do not raise. -/
structure Builtins where
  lower : Str → Str
  int : Str → Option ℤ
  float : Str → Option PyFloat

inductive Raised where
  | typeError
  | valueError
deriving DecidableEq

/-! ## One variable -/

/-- `obj[key] if key in obj`.  A number cannot be searched, and a text that contains the key
cannot be indexed by it. -/
def index (key : Str) : Node → Except Raised (Option Node)
  | .dict fields => .ok (fields.lookup key)
  | .str text => if key <:+: text then .error .typeError else .ok none
  | .int _ => .error .typeError
  | .float _ => .error .typeError

/-- `obj[key] = child`, for a key that was found. -/
def Node.set (obj : Node) (key : Str) (child : Node) : Node :=
  match obj with
  | .dict fields => .dict (put key child fields)
  | node => node

/-- The new value of an entry, of the type of the one that is there. -/
def coerce (py : Builtins) (value : Str) : Node → Except Raised Node
  | .int _ => (py.int value).elim (.error .valueError) (fun n => .ok (.int n))
  | .float _ => (py.float value).elim (.error .valueError) (fun x => .ok (.float x))
  | .str _ => .ok (.str value)
  | .dict _ => .ok (.str value)

/-- `_apply_override`. -/
def applyOverride (py : Builtins) (value : Str) : List Str → Node → Except Raised Node
  | [], obj => .ok obj
  | [final], obj => do
      match ← index (py.lower final) obj with
      | none => return obj
      | some existing => return obj.set (py.lower final) (← coerce py value existing)
  | part :: next :: path, obj => do
      match ← index (py.lower part) obj with
      | none => return obj
      | some child =>
          return obj.set (py.lower part) (← applyOverride py value (next :: path) child)

/-- `text.split("__")`. -/
def splitPath : Str → List Str
  | [] => [[]]
  | 0x5f :: 0x5f :: rest => [] :: splitPath rest
  | c :: rest =>
      match splitPath rest with
      | [] => [[c]]
      | part :: parts => (c :: part) :: parts

/-- `_ENV_PREFIX`. -/
def envMarker : Str := str "FASTAK_MON_"

/-- The parts of the name of a variable that `load_config` looks at. -/
def parts (name : Str) : Option (List Str) :=
  if envMarker <+: name then some (splitPath (name.drop envMarker.length)) else none

/-- One round of the loop of `load_config`. -/
def override (py : Builtins) (config : Config) (entry : Str × Str) : Except Raised Config :=
  match parts entry.1 with
  | some (service :: part :: path) =>
      match config.lookup (py.lower service) with
      | none => .ok config
      | some node => do
          let node' ← applyOverride py entry.2 (part :: path) node
          return put (py.lower service) node' config
  | _ => .ok config

/-- `load_config`, given what is read from the file. -/
def loadConfig (py : Builtins) (config : Config) (environ : List (Str × Str)) :
    Except Raised Config := environ.foldlM (override py) config

/-! ## What an override should do -/

/-- Change the leaf at the path, if the path leads to a leaf and the value is of its type. -/
def setLeaf (py : Builtins) (value : Str) : List Str → Node → Node
  | [], .int n => .int ((py.int value).getD n)
  | [], .float x => .float ((py.float value).getD x)
  | [], .str _ => .str value
  | [], .dict fields => .dict fields
  | part :: path, .dict fields =>
      match fields.lookup (py.lower part) with
      | none => .dict fields
      | some child => .dict (put (py.lower part) (setLeaf py value path child) fields)
  | _ :: _, node => node

/-- The same for a variable of the environment. -/
def intended (py : Builtins) (config : Config) (entry : Str × Str) : Config :=
  match parts entry.1 with
  | some (service :: part :: path) =>
      match config.lookup (py.lower service) with
      | none => config
      | some node => put (py.lower service) (setLeaf py entry.2 (part :: path) node) config
  | _ => config

/-- The walk stops at a key that is missing, or ends at a leaf that takes the value. -/
def HarmlessAt (py : Builtins) (value : Str) : List Str → Node → Prop
  | [], .int _ => (py.int value).isSome
  | [], .float _ => (py.float value).isSome
  | [], .str _ => True
  | [], .dict _ => False
  | part :: path, .dict fields =>
      ∀ child ∈ fields.lookup (py.lower part), HarmlessAt py value path child
  | part :: _, .str text => ¬ py.lower part <:+: text
  | _ :: _, .int _ => False
  | _ :: _, .float _ => False

/-- The variable does only what it should. -/
def Harmless (py : Builtins) (config : Config) (entry : Str × Str) : Prop :=
  match parts entry.1 with
  | some (service :: part :: path) =>
      ∀ node ∈ config.lookup (py.lower service), HarmlessAt py entry.2 (part :: path) node
  | _ => True

/-- All variables do, each in the configuration that it finds. -/
def AllHarmless (py : Builtins) : Config → List (Str × Str) → Prop
  | _, [] => True
  | config, entry :: rest =>
      Harmless py config entry ∧ AllHarmless py (intended py config entry) rest

/-! ## Places in the tree -/

/-- What is at a path of keys. -/
def nodeAt : List Str → Node → Option Node
  | [], node => some node
  | key :: path, .dict fields => (fields.lookup key).bind (nodeAt path)
  | _ :: _, _ => none

/-- The type of a node, with the keys of a dictionary. -/
inductive Kind where
  | dict (keys : List Str)
  | int
  | float
  | str
deriving DecidableEq

def Node.kind : Node → Kind
  | .dict fields => .dict (keys fields)
  | .int _ => .int
  | .float _ => .float
  | .str _ => .str

/-- The same keys everywhere, and values of the same types. -/
def SameTree (config config' : Config) : Prop :=
  ∀ path, (nodeAt path (.dict config)).map Node.kind = (nodeAt path (.dict config')).map Node.kind

/-- The leaf that the name of a variable leads to. -/
def address (py : Builtins) (name : Str) : Option (List Str) :=
  match parts name with
  | some (service :: part :: path) => some ((service :: part :: path).map py.lower)
  | _ => none

section Places

variable {key : Str} {path : List Str} {child : Node} {fields : List (Str × Node)}

theorem nodeAt_cons_dict :
    nodeAt (key :: path) (.dict fields) = (fields.lookup key).bind (nodeAt path) := rfl

theorem nodeAt_put_self :
    nodeAt (key :: path) (.dict (put key child fields)) = nodeAt path child := by
  rw [nodeAt_cons_dict, lookup_put_self, Option.bind_some]

theorem nodeAt_put_of_ne {other : Str} (hne : other ≠ key) :
    nodeAt (other :: path) (.dict (put key child fields)) =
      nodeAt (other :: path) (.dict fields) := by
  rw [nodeAt_cons_dict, nodeAt_cons_dict, lookup_put_of_ne hne]

/-- There is a dictionary at the path. -/
def DictAt (path : List Str) (node : Node) : Prop :=
  ∃ fields, nodeAt path node = some (.dict fields)

theorem dictAt_put_self :
    DictAt (key :: path) (.dict (put key child fields)) ↔ DictAt path child := by
  rw [DictAt, nodeAt_put_self, DictAt]

theorem dictAt_put_of_ne {other : Str} (hne : other ≠ key) :
    DictAt (other :: path) (.dict (put key child fields)) ↔
      DictAt (other :: path) (.dict fields) := by
  rw [DictAt, nodeAt_put_of_ne hne, DictAt]

theorem dictAt_of_lookup (hchild : fields.lookup key = some child) :
    DictAt (key :: path) (.dict fields) ↔ DictAt path child := by
  rw [DictAt, nodeAt_cons_dict, hchild, Option.bind_some, DictAt]

/-- A child that makes no dictionary makes none where it is put. -/
theorem dictAt_of_put {old : Node} (hold : fields.lookup key = some old)
    (hchild : ∀ path, DictAt path child → DictAt path old) :
    DictAt path (.dict (put key child fields)) → DictAt path (.dict fields) := by
  intro hdict
  cases path with
  | nil => exact ⟨fields, rfl⟩
  | cons first path =>
      by_cases hsame : first = key
      · subst hsame
        rw [dictAt_put_self] at hdict
        exact (dictAt_of_lookup hold).mpr (hchild path hdict)
      · exact (dictAt_put_of_ne hsame).mp hdict

/-- The kinds of nodes stay where a child with the same kinds is put. -/
theorem kindAt_put {old : Node} (hold : fields.lookup key = some old)
    (hchild : ∀ path, (nodeAt path child).map Node.kind = (nodeAt path old).map Node.kind) :
    (nodeAt path (.dict (put key child fields))).map Node.kind =
      (nodeAt path (.dict fields)).map Node.kind := by
  cases path with
  | nil =>
      simp only [nodeAt, Option.map_some, Node.kind]
      rw [keys_put_of_lookup hold]
  | cons first path =>
      by_cases hsame : first = key
      · subst hsame
        rw [nodeAt_put_self, nodeAt_cons_dict, hold, Option.bind_some]
        exact hchild path
      · rw [nodeAt_put_of_ne hsame]

end Places

/-! ## One override -/

section Override

variable {py : Builtins} {value part : Str} {path : List Str} {node node' child : Node}

/-- The rest of the walk, from an entry that was found. -/
def descend (py : Builtins) (value : Str) (path : List Str) (child : Node) :
    Except Raised Node :=
  if path = [] then coerce py value child else applyOverride py value path child

theorem applyOverride_missing (hindex : index (py.lower part) node = .ok none) :
    applyOverride py value (part :: path) node = .ok node := by
  cases path <;> rw [applyOverride, hindex] <;> rfl

theorem applyOverride_error {e : Raised} (hindex : index (py.lower part) node = .error e) :
    applyOverride py value (part :: path) node = .error e := by
  cases path <;> rw [applyOverride, hindex] <;> rfl

theorem applyOverride_found (hindex : index (py.lower part) node = .ok (some child)) :
    applyOverride py value (part :: path) node =
      (descend py value path child).map (node.set (py.lower part)) := by
  cases path with
  | nil =>
      rw [applyOverride, hindex, descend, if_pos rfl]
      change (coerce py value child >>= fun child' =>
        pure (node.set (py.lower part) child')) = _
      cases coerce py value child <;> rfl
  | cons next path =>
      rw [applyOverride, hindex, descend, if_neg (List.cons_ne_nil next path)]
      change (applyOverride py value (next :: path) child >>= fun child' =>
        pure (node.set (py.lower part) child')) = _
      cases applyOverride py value (next :: path) child <;> rfl

theorem index_dict {fields : List (Str × Node)} {key : Str} :
    index key (.dict fields) = .ok (fields.lookup key) := rfl

/-- Where a leaf takes the value. -/
theorem coerce_of_harmless (hharmless : HarmlessAt py value [] node) :
    coerce py value node = .ok (setLeaf py value [] node) := by
  cases node with
  | int n =>
      obtain ⟨m, hm⟩ := Option.isSome_iff_exists.mp hharmless
      simp [coerce, setLeaf, hm]
  | float x =>
      obtain ⟨y, hy⟩ := Option.isSome_iff_exists.mp hharmless
      simp [coerce, setLeaf, hy]
  | str text => rfl
  | dict fields => exact hharmless.elim

/-- A harmless walk does what it should. -/
theorem descend_of_harmless (hharmless : HarmlessAt py value path node) :
    descend py value path node = .ok (setLeaf py value path node) := by
  induction path generalizing node with
  | nil =>
      rw [descend, if_pos rfl]
      exact coerce_of_harmless hharmless
  | cons part path ih =>
      rw [descend, if_neg (List.cons_ne_nil part path)]
      cases node with
      | int n => exact hharmless.elim
      | float x => exact hharmless.elim
      | str text => exact applyOverride_missing (if_neg hharmless)
      | dict fields =>
          have hindex : index (py.lower part) (.dict fields) = _ := index_dict
          rw [setLeaf]
          cases hlookup : fields.lookup (py.lower part) with
          | none =>
              rw [hlookup] at hindex
              exact applyOverride_missing hindex
          | some child =>
              rw [hlookup] at hindex
              rw [applyOverride_found hindex, ih (hharmless child hlookup)]
              rfl

/-- A walk that does harm and returns has replaced a dictionary. -/
theorem dict_lost_of_descend (hreturns : descend py value path node = .ok node')
    (hharm : ¬ HarmlessAt py value path node) :
    ∃ place, DictAt place node ∧ ¬ DictAt place node' := by
  induction path generalizing node node' with
  | nil =>
      rw [descend, if_pos rfl] at hreturns
      cases node with
      | int n =>
          cases hint : py.int value with
          | none => simp [coerce, hint] at hreturns
          | some m => exact absurd (Option.isSome_of_eq_some hint) hharm
      | float x =>
          cases hfloat : py.float value with
          | none => simp [coerce, hfloat] at hreturns
          | some y => exact absurd (Option.isSome_of_eq_some hfloat) hharm
      | str text => exact absurd trivial hharm
      | dict fields =>
          cases hreturns
          refine ⟨[], ⟨fields, rfl⟩, ?_⟩
          intro hdict
          obtain ⟨fields', hfields⟩ := hdict
          cases hfields
  | cons part path ih =>
      rw [descend, if_neg (List.cons_ne_nil part path)] at hreturns
      cases node with
      | int n =>
          rw [applyOverride_error rfl] at hreturns
          cases hreturns
      | float x =>
          rw [applyOverride_error rfl] at hreturns
          cases hreturns
      | str text =>
          have hindex : index (py.lower part) (.str text) = .error .typeError :=
            if_pos (not_not.mp hharm)
          rw [applyOverride_error hindex] at hreturns
          cases hreturns
      | dict fields =>
          have hindex : index (py.lower part) (.dict fields) = _ := index_dict
          cases hlookup : fields.lookup (py.lower part) with
          | none =>
              apply absurd _ hharm
              intro child hchild
              rw [hlookup] at hchild
              cases hchild
          | some child =>
              rw [hlookup] at hindex
              rw [applyOverride_found hindex] at hreturns
              have hbelow : ¬ HarmlessAt py value path child := by
                intro hchild
                apply hharm
                intro other hother
                rw [hlookup] at hother
                obtain rfl := Option.some.inj hother
                exact hchild
              cases hdescend : descend py value path child with
              | error e =>
                  rw [hdescend] at hreturns
                  cases hreturns
              | ok child' =>
                  rw [hdescend] at hreturns
                  cases hreturns
                  obtain ⟨place, hbefore, hafter⟩ := ih hdescend hbelow
                  refine ⟨py.lower part :: place, (dictAt_of_lookup hlookup).mpr hbefore, ?_⟩
                  intro hdict
                  exact hafter (dictAt_put_self.mp hdict)

/-- No walk makes a dictionary. -/
theorem dictAt_of_descend (hreturns : descend py value path node = .ok node')
    {place : List Str} (hdict : DictAt place node') : DictAt place node := by
  induction path generalizing node node' place with
  | nil =>
      have hplain : ∀ leaf : Node, (∀ fields, leaf ≠ .dict fields) → ¬ DictAt place leaf := by
        intro leaf hleaf hat
        obtain ⟨fields, hfields⟩ := hat
        cases place with
        | nil => exact hleaf fields (Option.some.inj hfields)
        | cons key place =>
            cases leaf with
            | dict fields => exact hleaf fields rfl
            | _ => cases hfields
      rw [descend, if_pos rfl] at hreturns
      have hleaf : ∀ fields, node' ≠ .dict fields := by
        rintro fields rfl
        cases node with
        | int n => cases hint : py.int value <;> simp [coerce, hint] at hreturns
        | float x => cases hfloat : py.float value <;> simp [coerce, hfloat] at hreturns
        | str text => cases hreturns
        | dict fields => cases hreturns
      exact absurd hdict (hplain node' hleaf)
  | cons part path ih =>
      rw [descend, if_neg (List.cons_ne_nil part path)] at hreturns
      cases hindex : index (py.lower part) node with
      | error e =>
          rw [applyOverride_error hindex] at hreturns
          cases hreturns
      | ok found =>
          cases found with
          | none =>
              rw [applyOverride_missing hindex] at hreturns
              cases hreturns
              exact hdict
          | some child =>
              rw [applyOverride_found hindex] at hreturns
              cases hdescend : descend py value path child with
              | error e =>
                  rw [hdescend] at hreturns
                  cases hreturns
              | ok child' =>
                  rw [hdescend] at hreturns
                  cases hreturns
                  cases node with
                  | dict fields =>
                      rw [index_dict, Except.ok.injEq] at hindex
                      exact dictAt_of_put hindex (fun place => ih hdescend) hdict
                  | _ => exact hdict

/-- What an override should do changes no key and no type. -/
theorem kindAt_setLeaf (place : List Str) :
    (nodeAt place (setLeaf py value path node)).map Node.kind =
      (nodeAt place node).map Node.kind := by
  induction path generalizing node place with
  | nil =>
      cases node with
      | dict fields => rfl
      | _ => cases place <;> rfl
  | cons part path ih =>
      cases node with
      | dict fields =>
          rw [setLeaf]
          cases hlookup : fields.lookup (py.lower part) with
          | none => rfl
          | some child => exact kindAt_put hlookup ih
      | _ => rfl

/-- It leaves the leaves at other places alone. -/
theorem nodeAt_setLeaf {place : List Str} {leaf : Node} (hleaf : ∀ fields, leaf ≠ .dict fields)
    (hplace : path.map py.lower ≠ place) (hat : nodeAt place node = some leaf) :
    nodeAt place (setLeaf py value path node) = some leaf := by
  induction path generalizing node place with
  | nil =>
      cases place with
      | nil => exact absurd rfl hplace
      | cons key place =>
          cases node with
          | dict fields => exact hat
          | _ => cases hat
  | cons part path ih =>
      cases node with
      | dict fields =>
          rw [setLeaf]
          cases hlookup : fields.lookup (py.lower part) with
          | none => exact hat
          | some child =>
              cases place with
              | nil => exact absurd (Option.some.inj hat).symm (hleaf fields)
              | cons key place =>
                  by_cases hsame : key = py.lower part
                  · subst hsame
                    rw [nodeAt_put_self]
                    rw [nodeAt_cons_dict, hlookup, Option.bind_some] at hat
                    apply ih _ hat
                    intro hrest
                    apply hplace
                    rw [List.map_cons, hrest]
                  · rw [nodeAt_put_of_ne hsame]
                    exact hat
      | _ => exact hat

end Override

/-! ## The environment -/

section Environ

variable {py : Builtins} {config config' : Config} {entry : Str × Str}
  {environ : List (Str × Str)}

/-- A variable is passed over, or its walk starts at a service that there is. -/
theorem override_cases (py : Builtins) (config : Config) (entry : Str × Str) :
    override py config entry = .ok config ∧ intended py config entry = config ∧
        Harmless py config entry ∨
      ∃ service path node, path ≠ [] ∧ config.lookup (py.lower service) = some node ∧
        address py entry.1 = some ((service :: path).map py.lower) ∧
        override py config entry =
          (descend py entry.2 path node).map (fun node' => put (py.lower service) node' config) ∧
        intended py config entry =
          put (py.lower service) (setLeaf py entry.2 path node) config ∧
        (Harmless py config entry ↔ HarmlessAt py entry.2 path node) := by
  unfold override intended Harmless address
  rcases hparts : parts entry.1 with _ | (_ | ⟨service, _ | ⟨part, path⟩⟩)
  · exact .inl ⟨rfl, rfl, trivial⟩
  · exact .inl ⟨rfl, rfl, trivial⟩
  · exact .inl ⟨rfl, rfl, trivial⟩
  · cases hlookup : config.lookup (py.lower service) with
    | none => exact .inl ⟨by simp [hlookup], by simp [hlookup], by simp [hlookup]⟩
    | some node =>
        refine .inr ⟨service, part :: path, node, List.cons_ne_nil part path, hlookup, rfl, ?_, ?_,
          ?_⟩
        · simp only [hlookup, descend, if_neg (List.cons_ne_nil part path)]
          cases applyOverride py entry.2 (part :: path) node <;> rfl
        · simp only [hlookup]
        · simp [hlookup]

theorem override_of_harmless (hharmless : Harmless py config entry) :
    override py config entry = .ok (intended py config entry) := by
  rcases override_cases py config entry with hpassed | hwalk
  · rw [hpassed.1, hpassed.2.1]
  · obtain ⟨service, path, node, -, -, -, hoverride, hintended, hiff⟩ := hwalk
    rw [hoverride, hintended, descend_of_harmless (hiff.mp hharmless)]
    rfl

theorem dict_lost_of_override (hreturns : override py config entry = .ok config')
    (hharm : ¬ Harmless py config entry) :
    ∃ place, DictAt place (.dict config) ∧ ¬ DictAt place (.dict config') := by
  rcases override_cases py config entry with hpassed | hwalk
  · exact absurd hpassed.2.2 hharm
  · obtain ⟨service, path, node, -, hlookup, -, hoverride, -, hiff⟩ := hwalk
    rw [hoverride] at hreturns
    cases hdescend : descend py entry.2 path node with
    | error e =>
        rw [hdescend] at hreturns
        cases hreturns
    | ok node' =>
        rw [hdescend] at hreturns
        cases hreturns
        obtain ⟨place, hbefore, hafter⟩ := dict_lost_of_descend hdescend (mt hiff.mpr hharm)
        refine ⟨py.lower service :: place, (dictAt_of_lookup hlookup).mpr hbefore, ?_⟩
        exact fun hdict => hafter (dictAt_put_self.mp hdict)

theorem dictAt_of_override (hreturns : override py config entry = .ok config') {place : List Str}
    (hdict : DictAt place (.dict config')) : DictAt place (.dict config) := by
  rcases override_cases py config entry with hpassed | hwalk
  · rw [hpassed.1] at hreturns
    cases hreturns
    exact hdict
  · obtain ⟨service, path, node, -, hlookup, -, hoverride, -, -⟩ := hwalk
    rw [hoverride] at hreturns
    cases hdescend : descend py entry.2 path node with
    | error e =>
        rw [hdescend] at hreturns
        cases hreturns
    | ok node' =>
        rw [hdescend] at hreturns
        cases hreturns
        exact dictAt_of_put hlookup (fun place => dictAt_of_descend hdescend) hdict

theorem sameTree_intended (config : Config) (entry : Str × Str) :
    SameTree config (intended py config entry) := by
  intro place
  rcases override_cases py config entry with hpassed | hwalk
  · rw [hpassed.2.1]
  · obtain ⟨service, path, node, -, hlookup, -, -, hintended, -⟩ := hwalk
    rw [hintended, kindAt_put hlookup kindAt_setLeaf]

theorem nodeAt_intended {place : List Str} {leaf : Node} (hleaf : ∀ fields, leaf ≠ .dict fields)
    (hplace : address py entry.1 ≠ some place) (hat : nodeAt place (.dict config) = some leaf) :
    nodeAt place (.dict (intended py config entry)) = some leaf := by
  rcases override_cases py config entry with hpassed | hwalk
  · rw [hpassed.2.1]
    exact hat
  · obtain ⟨service, path, node, -, hlookup, haddress, -, hintended, -⟩ := hwalk
    have hroot : setLeaf py entry.2 (service :: path) (.dict config) =
        .dict (intended py config entry) := by
      rw [setLeaf, hlookup, hintended]
    rw [← hroot]
    apply nodeAt_setLeaf hleaf _ hat
    intro hsame
    apply hplace
    rw [haddress, hsame]

theorem SameTree.dictAt (h : SameTree config config') {place : List Str}
    (hdict : DictAt place (.dict config)) : DictAt place (.dict config') := by
  obtain ⟨fields, hfields⟩ := hdict
  have hkind := h place
  rw [hfields] at hkind
  obtain ⟨node, hnode, hdict⟩ := Option.map_eq_some_iff.mp hkind.symm
  cases node with
  | dict fields' => exact ⟨fields', hnode⟩
  | _ => cases hdict

theorem dictAt_of_loadConfig (hreturns : loadConfig py config environ = .ok config')
    {place : List Str} (hdict : DictAt place (.dict config')) : DictAt place (.dict config) := by
  induction environ generalizing config with
  | nil =>
      cases hreturns
      exact hdict
  | cons entry environ ih =>
      rw [loadConfig, List.foldlM_cons] at hreturns
      cases hround : override py config entry with
      | error e =>
          rw [hround] at hreturns
          cases hreturns
      | ok next =>
          rw [hround] at hreturns
          exact dictAt_of_override hround (ih hreturns)

end Environ

/-- What the overrides should make of the configuration: the same keys and types, only leaves
that a variable addresses differ, and a variable that fits no leaf changes nothing. -/
structure Contained (py : Builtins) (config : Config) (environ : List (Str × Str))
    (config' : Config) : Prop where
  tree : SameTree config config'
  others : ∀ place leaf, (∀ fields, leaf ≠ Node.dict fields) →
    (∀ entry ∈ environ, address py entry.1 ≠ some place) →
    nodeAt place (.dict config) = some leaf → nodeAt place (.dict config') = some leaf
  result : config' = environ.foldl (intended py) config

theorem contained_intended (py : Builtins) (config : Config) (environ : List (Str × Str)) :
    Contained py config environ (environ.foldl (intended py) config) := by
  induction environ generalizing config with
  | nil => exact ⟨fun _ => rfl, fun _ _ _ _ hat => hat, rfl⟩
  | cons entry environ ih =>
      have hrest := ih (intended py config entry)
      refine ⟨fun place => (sameTree_intended config entry place).trans (hrest.tree place), ?_, rfl⟩
      intro place leaf hleaf hnone hat
      apply hrest.others place leaf hleaf (fun other hother => hnone other (.tail _ hother))
      exact nodeAt_intended hleaf (hnone entry (.head _)) hat

/-- The overrides are contained exactly if every variable, in the configuration that it finds,
stops at a key that is missing or ends at a leaf that takes its value. -/
theorem overrides_contained_iff (py : Builtins) (config : Config) (environ : List (Str × Str)) :
    (∃ config', loadConfig py config environ = .ok config' ∧
        Contained py config environ config') ↔
      AllHarmless py config environ := by
  constructor
  · intro hcontained
    obtain ⟨config', hreturns, hcontained⟩ := hcontained
    have htree := hcontained.tree
    clear hcontained
    induction environ generalizing config with
    | nil => trivial
    | cons entry environ ih =>
        rw [loadConfig, List.foldlM_cons] at hreturns
        cases hround : override py config entry with
        | error e =>
            rw [hround] at hreturns
            cases hreturns
        | ok next =>
            rw [hround] at hreturns
            have hharmless : Harmless py config entry := by
              by_contra hharm
              obtain ⟨place, hbefore, hafter⟩ := dict_lost_of_override hround hharm
              exact hafter (dictAt_of_loadConfig hreturns (htree.dictAt hbefore))
            rw [override_of_harmless hharmless] at hround
            cases hround
            use hharmless
            apply ih _ hreturns
            intro place
            rw [← sameTree_intended config entry place, htree place]
  · intro hharmless
    use environ.foldl (intended py) config
    refine ⟨?_, contained_intended py config environ⟩
    induction environ generalizing config with
    | nil => rfl
    | cons entry environ ih =>
        rw [loadConfig, List.foldlM_cons, override_of_harmless hharmless.1]
        exact ih _ hharmless.2

/-! ## The shipped configuration -/

def leaves (entries : List (String × Node)) : Node :=
  .dict (entries.map (fun entry => (str entry.1, entry.2)))

/-- A service with its numbers and thresholds. -/
def service (interval : ℤ) (alertMinLevel : String) (thresholds : List (String × Node)) : Node :=
  leaves [("interval", .int interval), ("alert_min_level", .str (str alertMinLevel)),
    ("thresholds", leaves thresholds)]

def levels (warning critical : Node) : Node :=
  leaves [("warning", warning), ("critical", critical)]

def statuses (entries : List (String × String)) : Node :=
  leaves (entries.map (fun entry => (entry.1, .str (str entry.2))))

/-- `thresholds.yml`. -/
def shippedConfig : Config :=
  [(str "alert_cooldown", .int 300),
    (str "database", service 60 "warning"
      [("size_bytes", levels (.int 25000000000) (.int 40000000000))]),
    (str "autovacuum", service 60 "warning"
      [("dead_pct", levels (.float (.finite 5)) (.float (.finite 15))),
        ("min_dead_tuples", .int 1000)]),
    (str "disk", service 300 "warning" [("percent", levels (.int 80) (.int 90))]),
    (str "certs", service 3600 "warning" [("days_left", levels (.int 30) (.int 7))]),
    (str "tls", service 3600 "warning" [("days_left", levels (.int 30) (.int 7))]),
    (str "containers", service 60 "warning"
      [("default_status", .str (str "warning")),
        ("health", statuses [("healthy", "ok"), ("starting", "note"), ("unhealthy", "critical")]),
        ("status", statuses
          [("running", "ok"), ("exited", "critical"), ("not_found", "critical")])]),
    (str "config", service 60 "note" [("changed", statuses [("true", "note"), ("false", "ok")])]),
    (str "updates", service 21600 "note"
      [("update_available", statuses [("true", "note"), ("false", "ok")]),
        ("error_status", .str (str "note"))])]

/-- The builtins, as far as letters of ASCII and plain decimal numbers go. -/
def plainBuiltins : Builtins where
  lower := List.map (fun c => if 0x41 ≤ c ∧ c ≤ 0x5a then c + 0x20 else c)
  int text :=
    match number text with
    | some (.int n) => some n
    | _ => none
  float text :=
    match number text with
    | some (.int n) => some (.finite n)
    | some (.float x) => some x
    | _ => none

/-- An interval with a unit stops the monitor from starting. -/
theorem interval_with_unit :
    ¬ ∃ config', loadConfig plainBuiltins shippedConfig
        [(str "FASTAK_MON_DISK__INTERVAL", str "5m")] = .ok config' ∧
      Contained plainBuiltins shippedConfig
        [(str "FASTAK_MON_DISK__INTERVAL", str "5m")] config' := by
  have hraises : loadConfig plainBuiltins shippedConfig
      [(str "FASTAK_MON_DISK__INTERVAL", str "5m")] = .error .valueError := by
    rfl
  intro hcontained
  obtain ⟨config', hreturns, -⟩ := hcontained
  rw [hraises] at hreturns
  cases hreturns

end FastTAK.Overrides
