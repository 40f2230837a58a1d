import FastTAK.Base.Comm
import FastTAK.Base.Triples

/-!
# Containers

The monitor asks Docker for the containers of its Compose project, which it learns from its own
container and keeps for a while.  Its endpoints run in threads that share what is kept, and Docker
changes meanwhile.
-/

namespace FastTAK.Containers

open FastTAK.Comm FastTAK.Effect FastTAK.Effect.Prog

/-! ## Docker -/

/-- A container as it is found: its labels, and what is asked of it. -/
structure Container where
  id : String
  service : Option String
  project : Option String
  up : Bool
  status : String
  exitCode : Option ℤ
  health : Option String
  image : Option String
deriving DecidableEq

/-- What an endpoint has answered, with the containers that it was about. -/
inductive Answer
  | services (names : List String)
  | health (entries : List (String × Option Container))
  | resources (containers : List Container)
  | logs (name : String) (container : Container)
  | execIn (container : Container)
  | failed (status : ℕ) (detail : String)
deriving DecidableEq

/-- Docker, the module's variables, the clock, and the answers so far. -/
structure State where
  containers : List Container
  reachable : Bool
  cachedServices : List String
  cachedProject : String
  cacheTime : ℚ
  now : ℚ
  answers : List Answer
deriving DecidableEq

/-- `docker.errors.DockerException`, or an `HTTPException`. -/
inductive Exn
  | docker
  | http (status : ℕ) (detail : String)
deriving DecidableEq

abbrev M (α : Type) := Prog Exn State α

/-- The containers that are up, or all, with the labels asked for. -/
def State.listed (s : State) (all : Bool) (labelled : Container → Bool) : List Container :=
  s.containers.filter fun c => (all || c.up) && labelled c

/-- `client.containers.list`. -/
def list (all : Bool) (labelled : Container → Bool) : M (List Container) :=
  atomic fun s => (if s.reachable then .ok (s.listed all labelled) else .error .docker, s)

/-! ## `docker_client.py` -/

def cacheTtl : ℚ := 30

/-- `_cached_project`, if it is fresh. -/
def freshProject : M (Option String) :=
  atomic fun s =>
    (.ok (if s.cachedProject ≠ "" ∧ s.now - s.cacheTime < cacheTtl then some s.cachedProject
      else none), s)

def freshServices : M (Option (List String)) :=
  atomic fun s =>
    (.ok (if s.cachedServices ≠ [] ∧ s.now - s.cacheTime < cacheTtl then some s.cachedServices
      else none), s)

def storeCache (services : List String) (project : String) : M Unit :=
  atomic fun s =>
    (.ok (), { s with cachedServices := services, cachedProject := project, cacheTime := s.now })

/-- The services of the containers of the project that `self` is in. -/
def refreshFrom (self : Container) : M (List String) :=
  list true (fun c => c.project = some (self.project.getD "")) >>= fun containers =>
    storeCache (sortUnique (containers.filterMap Container.service)) (self.project.getD "") >>=
      fun _ => pure (sortUnique (containers.filterMap Container.service))

/-- `_refresh_cache`. -/
def refreshCache : M (List String) :=
  list false (fun c => c.service = some "monitor") >>= fun selves =>
    (selves.head?.map refreshFrom).getD (pure [])

/-- `_get_project`. -/
def getProject : M String :=
  freshProject >>= fun fresh =>
    (fresh.map pure).getD
      (refreshCache >>= fun _ => atomic fun s => (.ok s.cachedProject, s))

def discoverServices : M (List String) :=
  freshServices >>= fun fresh => (fresh.map pure).getD refreshCache

/-- The filter is not scoped if there is no project. -/
def findContainer (name : String) : M (Option Container) :=
  getProject >>= fun project =>
    list true (fun c => c.service = some name && (project = "" || c.project = some project)) >>=
      fun found => pure found.head?

def isRunning (name : String) : M Bool :=
  findContainer name >>= fun found => pure (found.any fun c => c.status = "running")

/-- The elements for which `test` answers yes. -/
def filterList (test : String → M Bool) : List String → M (List String)
  | [] => pure []
  | name :: names =>
      test name >>= fun keeps => filterList test names >>= fun kept =>
        pure (if keeps then name :: kept else kept)

def discoverRunningServices : M (List String) :=
  discoverServices >>= fun names => filterList isRunning names

/-! ## The endpoints -/

structure Item where
  name : String
  status : String
  health : String
  image : Option String
deriving DecidableEq

/-- The entry for a service, unless it has done its work and exited. -/
def healthItem (name : String) : Option Container → Option Item
  | none => some ⟨name, "not_found", "unknown", none⟩
  | some c =>
      if c.status = "exited" ∧ c.exitCode.getD (-1) = 0 then none
      else some ⟨name, c.status, c.health.getD "unknown", some (c.image.getD "")⟩

/-- The items of `get_all_container_health`. -/
def Answer.items : Answer → List Item
  | .health entries => entries.filterMap fun entry => healthItem entry.1 entry.2
  | _ => []

/-- What `get_all_container_health` looks at. -/
def lookUpAll : M (List (String × Option Container)) :=
  discoverServices >>= fun names =>
    mapList (fun name => findContainer name >>= fun found => pure (name, found)) names

/-- The container whose statistics `get_container_stats` computes. -/
def statsContainer (name : String) : M (Option Container) :=
  findContainer name >>= fun found => pure (found.filter fun c => c.status = "running")

def lookUpRunning : M (List Container) :=
  discoverRunningServices >>= fun names =>
    mapList statsContainer names >>= fun found => pure found.reduceOption

/-- `svc_logs` after its check of the name. -/
def logsOf (name : String) : M Container :=
  findContainer name >>= fun found =>
    (found.map pure).getD (raise (.http 404 ("Container '" ++ name ++ "' not found")))

def validated (name : String) : M Unit :=
  discoverServices >>= fun names =>
    if name ∈ names then pure () else raise (.http 400 ("Unknown container: " ++ name))

inductive Request
  | logsPage
  | health
  | resources
  | logs (name : String)
  | takServer

/-- The answer to a request. -/
def Request.answer : Request → M Answer
  | .logsPage => discoverServices >>= fun names => pure (.services names)
  | .health =>
      (lookUpAll >>= fun entries => pure (.health entries)).tryExcept fun _ =>
        pure (.failed 200 "Docker not available")
  | .resources => lookUpRunning >>= fun containers => pure (.resources containers)
  | .logs name =>
      validated name >>= fun _ => logsOf name >>= fun container => pure (.logs name container)
  | .takServer =>
      findContainer "tak-server" >>= fun found =>
        pure ((found.map Answer.execIn).getD (.failed 200 "tak-server container not found"))

def Exn.answer : Exn → Answer
  | .docker => .failed 500 "Internal Server Error"
  | .http status detail => .failed status detail

/-- A request that is handled to its end. -/
def Request.handle (request : Request) : M Unit :=
  (request.answer.tryExcept fun e => pure e.answer) >>= fun answer =>
    atomic fun s => (.ok (), { s with answers := answer :: s.answers })

/-! ## The project of the monitor -/

section Own

variable {P : String} {S : List String} {name : String} {c : Container}

/-- The container of a service of the project. -/
def Owned (P name : String) (c : Container) : Prop := c.project = some P ∧ c.service = some name

/-- The first monitor that Docker lists is in the project, whose services are known. -/
structure Owns (P : String) (S : List String) (s : State) : Prop where
  monitor : (s.listed false fun c => c.service = some "monitor").head?.map Container.project =
    some (some P)
  services : ∀ c ∈ s.containers, ∀ name, Owned P name c → name ∈ S

def EntryOwn (P : String) (S : List String) (entry : String × Option Container) : Prop :=
  entry.1 ∈ S ∧ ∀ c, entry.2 = some c → Owned P entry.1 c

def RunningOwn (P : String) (S : List String) (c : Container) : Prop :=
  c.status = "running" ∧ ∃ name ∈ S, Owned P name c

/-- An answer is about containers of the project. -/
def Answer.Own (P : String) (S : List String) : Answer → Prop
  | .services names => names ⊆ S
  | .health entries => ∀ entry ∈ entries, EntryOwn P S entry
  | .resources containers => ∀ c ∈ containers, RunningOwn P S c
  | .logs name c => name ∈ S ∧ Owned P name c
  | .execIn c => Owned P "tak-server" c
  | .failed _ _ => True

/-- What is kept is of the project, if anything is, and so are the answers. -/
structure Good (P : String) (S : List String) (s : State) : Prop extends Owns P S s where
  project : s.cachedProject = "" ∨ s.cachedProject = P
  cached : s.cachedServices ⊆ S
  answers : ∀ answer ∈ s.answers, answer.Own P S

/-- The project is not forgotten. -/
def discipline (P : String) (S : List String) : Discipline State where
  inv := Good P S
  steps s s' := s.cachedProject = P → s'.cachedProject = P
  refl _ := id
  trans _ _ _ h h' := h' ∘ h

theorem stable_project : (discipline P S).Stable fun s => s.cachedProject = P :=
  fun _ _ _ hsteps h => hsteps h

theorem triple_list {all : Bool} {labelled : Container → Bool} {holds : List Container → Prop}
    (h : ∀ s, Good P S s → holds (s.listed all labelled)) :
    (discipline P S).Triple (fun _ => True) (fun cs _ => holds cs) (list all labelled) := by
  apply triple_read (fun cs => stable_const (holds cs)) fun _ => rfl
  intro s hgood cs hcs
  dsimp only at hcs
  split_ifs at hcs
  rw [← Except.ok.inj hcs]
  exact h s hgood

theorem triple_storeCache {names : List String} (hnames : names ⊆ S) :
    (discipline P S).Triple (fun _ => True) (fun _ s => s.cachedProject = P)
      (storeCache names P) := by
  apply triple_atomic (stable_const True) (fun _ => stable_project)
  intro s hgood _
  exact ⟨⟨⟨hgood.monitor, hgood.services⟩, .inr rfl, hnames, hgood.answers⟩, fun _ => rfl,
    fun _ _ => rfl⟩

def ServicesIn (S : List String) (cs : List Container) : Prop :=
  cs.filterMap Container.service ⊆ S

/-- The first one is in the project. -/
def FirstIn (P : String) (cs : List Container) : Prop :=
  cs.head?.map Container.project = some (some P)

def AllOwned (P name : String) (cs : List Container) : Prop := ∀ c ∈ cs, Owned P name c

theorem triple_refreshFrom {self : Container} (hself : self.project = some P) :
    (discipline P S).Triple (fun _ => True) (fun names s => s.cachedProject = P ∧ names ⊆ S)
      (refreshFrom self) := by
  have hproject : self.project.getD "" = P := by rw [hself, Option.getD_some]
  rw [refreshFrom, hproject]
  have hlist : ∀ s, Good P S s →
      ServicesIn S (s.listed true fun c => c.project = some P) := by
    intro s hgood name hname
    obtain ⟨c, hc, hservice⟩ := List.mem_filterMap.mp hname
    obtain ⟨hmem, hlabelled⟩ := List.mem_filter.mp hc
    exact hgood.services c hmem name ⟨by simpa using hlabelled, hservice⟩
  apply triple_bind_of (triple_list hlist)
  intro cs hcs
  have hnames : sortUnique (cs.filterMap Container.service) ⊆ S :=
    fun name hname => hcs (mem_sortUnique.mp hname)
  apply triple_bind (triple_storeCache hnames)
  intro _
  apply triple_pure stable_project
  exact fun _ _ hproject => ⟨hproject, hnames⟩

theorem triple_refreshCache :
    (discipline P S).Triple (fun _ => True) (fun names s => s.cachedProject = P ∧ names ⊆ S)
      refreshCache := by
  have hself : ∀ s, Good P S s →
      FirstIn P (s.listed false fun c => c.service = some "monitor") := fun s hgood => hgood.monitor
  apply triple_bind_of (triple_list hself)
  intro cs hcs
  obtain ⟨self, hhead, hproject⟩ := Option.map_eq_some_iff.mp hcs
  rw [hhead]
  exact triple_refreshFrom hproject

theorem triple_getProject :
    (discipline P S).Triple (fun _ => True) (fun project _ => project = P) getProject := by
  have hfresh : (discipline P S).Triple (fun _ => True)
      (fun fresh _ => ∀ project, fresh = some project → project = P) freshProject := by
    apply triple_read (fun _ => stable_const _) fun _ => rfl
    intro s hgood fresh hfresh project hsome
    obtain rfl := Except.ok.inj hfresh
    split_ifs at hsome with hkept
    obtain rfl := Option.some.inj hsome
    exact hgood.project.resolve_left hkept.1
  apply triple_bind_of hfresh
  intro fresh hsome
  cases fresh with
  | some project => exact triple_pure (stable_const True) fun _ _ _ => hsome project rfl
  | none =>
      have hread : (discipline P S).Triple (fun s => s.cachedProject = P)
          (fun project _ => project = P) (atomic fun s => (.ok s.cachedProject, s) : M String) := by
        apply triple_atomic stable_project fun _ => stable_const _
        intro s hgood hproject
        exact ⟨hgood, id, fun project h => (Except.ok.inj h).symm.trans hproject⟩
      apply triple_bind triple_refreshCache
      exact fun _ => hread.weaken fun _ h => h.1

theorem triple_discoverServices :
    (discipline P S).Triple (fun _ => True) (fun names _ => names ⊆ S) discoverServices := by
  have hfresh : (discipline P S).Triple (fun _ => True)
      (fun fresh _ => ∀ names, fresh = some names → names ⊆ S) freshServices := by
    apply triple_read (fun _ => stable_const _) fun _ => rfl
    intro s hgood fresh hfresh names hsome
    obtain rfl := Except.ok.inj hfresh
    split_ifs at hsome
    obtain rfl := Option.some.inj hsome
    exact hgood.cached
  apply triple_bind_of hfresh
  intro fresh hsome
  cases fresh with
  | some names => exact triple_pure (stable_const True) fun _ _ _ => hsome names rfl
  | none => exact triple_refreshCache.mono fun _ _ h => h.2

/-- A container that is found is that of the service of the project. -/
theorem triple_findContainer (hP : P ≠ "") (name : String) :
    (discipline P S).Triple (fun _ => True) (fun found _ => ∀ c, found = some c → Owned P name c)
      (findContainer name) := by
  apply triple_bind_of triple_getProject
  rintro project rfl
  have hlist : ∀ s, Good project S s → AllOwned project name
      (s.listed true fun c => c.service = some name &&
        (project = "" || c.project = some project)) := by
    intro s _ c hc
    have hlabelled := (List.mem_filter.mp hc).2
    simp only [Bool.true_or, Bool.true_and, Bool.and_eq_true, Bool.or_eq_true,
      decide_eq_true_eq, hP, false_or] at hlabelled
    exact ⟨hlabelled.2, hlabelled.1⟩
  apply triple_bind (triple_list hlist)
  intro cs
  apply triple_pure (stable_const _)
  exact fun _ _ hcs c hc => hcs c (List.mem_of_head? hc)

theorem triple_isRunning (hP : P ≠ "") (name : String) :
    (discipline P S).Triple (fun _ => True) (fun _ _ => True) (isRunning name) := by
  apply triple_bind (triple_findContainer hP name)
  intro found
  exact triple_pure (stable_const _) fun _ _ _ => trivial

theorem triple_filterList {test : String → M Bool} (names : List String)
    (htest : ∀ name, (discipline P S).Triple (fun _ => True) (fun _ _ => True) (test name)) :
    (discipline P S).Triple (fun _ => True) (fun kept _ => kept ⊆ names)
      (filterList test names) := by
  induction names with
  | nil =>
      apply triple_pure (stable_const True)
      exact fun _ _ _ => List.Subset.refl []
  | cons name names ih =>
      apply triple_bind (htest name)
      intro keeps
      apply triple_bind ih
      intro kept
      apply triple_pure (stable_const _)
      intro _ _ hkept
      split_ifs
      · exact List.cons_subset_cons name hkept
      · exact fun x hx => List.mem_cons_of_mem name (hkept hx)

theorem triple_discoverRunningServices (hP : P ≠ "") :
    (discipline P S).Triple (fun _ => True) (fun names _ => names ⊆ S)
      discoverRunningServices := by
  apply triple_bind_of triple_discoverServices
  intro names hnames
  apply (triple_filterList names (triple_isRunning hP)).mono
  exact fun _ _ hkept => List.Subset.trans hkept hnames

theorem triple_lookUpAll (hP : P ≠ "") :
    (discipline P S).Triple (fun _ => True) (fun entries _ => ∀ entry ∈ entries, EntryOwn P S entry)
      lookUpAll := by
  apply triple_bind_of triple_discoverServices
  intro names hnames
  have hbody : ∀ name ∈ names, (discipline P S).Triple (fun _ => True)
      (fun entry _ => EntryOwn P S entry)
      (findContainer name >>= fun found => pure (name, found)) := by
    intro name hname
    apply triple_bind (triple_findContainer hP name)
    intro found
    apply triple_pure (stable_const _)
    exact fun _ _ hfound => ⟨hnames hname, hfound⟩
  exact triple_mapList names hbody

theorem triple_statsContainer (hP : P ≠ "") (hname : name ∈ S) :
    (discipline P S).Triple (fun _ => True) (fun found _ => ∀ c, found = some c → RunningOwn P S c)
      (statsContainer name) := by
  apply triple_bind (triple_findContainer hP name)
  intro found
  apply triple_pure (stable_const _)
  intro _ _ hfound c hc
  obtain ⟨hsome, hrunning⟩ := Option.filter_eq_some_iff.mp hc
  exact ⟨of_decide_eq_true hrunning, name, hname, hfound c hsome⟩

theorem triple_lookUpRunning (hP : P ≠ "") :
    (discipline P S).Triple (fun _ => True) (fun containers _ => ∀ c ∈ containers, RunningOwn P S c)
      lookUpRunning := by
  apply triple_bind_of (triple_discoverRunningServices hP)
  intro names hnames
  apply triple_bind (triple_mapList names fun name hname => triple_statsContainer hP (hnames hname))
  intro found
  apply triple_pure (stable_const _)
  intro _ _ hfound c hc
  exact hfound _ (List.reduceOption_mem_iff.mp hc) c rfl

/-- Logs are shown of the services of the project only. -/
theorem triple_validated (name : String) :
    (discipline P S).Triple (fun _ => True) (fun _ _ => name ∈ S) (validated name) := by
  apply triple_bind_of triple_discoverServices
  intro names hnames
  by_cases hname : name ∈ names
  · rw [if_pos hname]
    exact triple_pure (stable_const True) fun _ _ _ => hnames hname
  · rw [if_neg hname]
    exact triple_raise _

theorem triple_logsOf (hP : P ≠ "") (name : String) :
    (discipline P S).Triple (fun _ => True) (fun c _ => Owned P name c) (logsOf name) := by
  apply triple_bind (triple_findContainer hP name)
  intro found
  cases found with
  | none => exact triple_raise _
  | some c => exact triple_pure (stable_const _) fun _ _ hfound => hfound c rfl

theorem triple_answer (hP : P ≠ "") (request : Request) :
    (discipline P S).Triple (fun _ => True) (fun answer _ => answer.Own P S) request.answer := by
  cases request with
  | logsPage =>
      apply triple_bind triple_discoverServices
      exact fun names => triple_pure (stable_const _) fun _ _ hnames => hnames
  | health =>
      apply triple_tryExcept
      · apply triple_bind (triple_lookUpAll hP)
        exact fun entries => triple_pure (stable_const _) fun _ _ hentries => hentries
      · exact fun _ => triple_pure (stable_const True) fun _ _ _ => trivial
  | resources =>
      apply triple_bind (triple_lookUpRunning hP)
      exact fun containers => triple_pure (stable_const _) fun _ _ hcontainers => hcontainers
  | logs name =>
      apply triple_bind_of (triple_validated name)
      intro _ hname
      apply triple_bind (triple_logsOf hP name)
      exact fun c => triple_pure (stable_const _) fun _ _ hc => ⟨hname, hc⟩
  | takServer =>
      apply triple_bind (triple_findContainer hP "tak-server")
      intro found
      apply triple_pure (stable_const _)
      intro _ _ hfound
      cases found with
      | none => trivial
      | some c => exact hfound c rfl

theorem Exn.own_answer (e : Exn) : e.answer.Own P S := by
  cases e with
  | docker => trivial
  | http status detail => trivial

theorem healthItem_name {found : Option Container} {item : Item}
    (hitem : healthItem name found = some item) : item.name = name := by
  cases found with
  | none => rw [← Option.some.inj hitem]
  | some c =>
      rw [healthItem] at hitem
      split_ifs at hitem
      rw [← Option.some.inj hitem]

/-- The health page shows services of the project. -/
theorem Answer.Own.items {answer : Answer} (hown : answer.Own P S) :
    ∀ item ∈ answer.items, item.name ∈ S := by
  cases answer with
  | health entries =>
      intro item hitem
      obtain ⟨entry, hentry, hshown⟩ := List.mem_filterMap.mp hitem
      rw [healthItem_name hshown]
      exact (hown entry hentry).1
  | services _ => exact List.forall_mem_nil _
  | resources _ => exact List.forall_mem_nil _
  | logs _ _ => exact List.forall_mem_nil _
  | execIn _ => exact List.forall_mem_nil _
  | failed _ _ => exact List.forall_mem_nil _

theorem triple_handle (hP : P ≠ "") (request : Request) :
    (discipline P S).Triple (fun _ => True) (fun _ _ => True) request.handle := by
  apply triple_bind (triple_tryExcept (triple_answer hP request) fun e =>
    triple_pure (stable_const True) fun _ _ _ => e.own_answer)
  intro answer
  apply triple_atomic (stable_const _) fun _ => stable_const True
  intro s hgood hanswer
  exact ⟨⟨⟨hgood.monitor, hgood.services⟩, hgood.project, hgood.cached,
    List.forall_mem_cons.mpr ⟨hanswer, hgood.answers⟩⟩, id, fun _ _ => trivial⟩

/-! ## Every interleaving -/

/-- The monitor has just started. -/
def booted (containers : List Container) (now : ℚ) : State :=
  ⟨containers, true, [], "", 0, now, []⟩

/-- Containers come and go, Docker may not be reachable, and time passes. -/
structure Changes (P : String) (S : List String) (s s' : State) : Prop where
  owns : Owns P S s'
  now : s.now ≤ s'.now
  kept : s'.cachedServices = s.cachedServices ∧ s'.cachedProject = s.cachedProject ∧
    s'.cacheTime = s.cacheTime
  answers : s'.answers = s.answers

/-- However requests take turns, and whatever becomes of the containers meanwhile, all answers are
about containers of the project of the monitor that Docker lists first, and each about the service
that was asked for. -/
theorem answers_own (hP : P ≠ "") {containers : List Container} {now : ℚ}
    {pool : Pool Exn State Unit} (howns : Owns P S (booted containers now))
    (hruns : Pool.Runs (fun _ p => ∃ request : Request, p = request.handle) (Changes P S)
      (fun _ _ _ => True) (Pool.idle (booted containers now)) pool) :
    ∀ answer ∈ pool.state.answers, answer.Own P S ∧ ∀ item ∈ answer.items, item.name ∈ S := by
  have hgood : Good P S (booted containers now) := by
    refine ⟨howns, .inl rfl, List.nil_subset S, fun answer hanswer => ?_⟩
    cases hanswer
  have hstarts : ∀ (i : ℕ) p, (∃ request : Request, p = request.handle) →
      (discipline P S).Triple (fun _ => True) (fun _ _ => True) p := by
    rintro _ _ ⟨request, rfl⟩
    exact triple_handle hP request
  have hchanges : ∀ s s', Changes P S s s' → (discipline P S).Moves s s' := by
    intro s s' h hgood
    constructor
    · refine ⟨h.owns, ?_, ?_, ?_⟩
      · rw [h.kept.2.1]
        exact hgood.project
      · rw [h.kept.1]
        exact hgood.cached
      · rw [h.answers]
        exact hgood.answers
    · exact h.kept.2.1.trans
  have hown := (Pool.invariant_of_triples hstarts hchanges hgood hruns).answers
  exact fun answer hanswer => ⟨hown answer hanswer, (hown answer hanswer).items⟩

/-- A monitor, and a TAK Server each of its project and of another one, which is listed first. -/
def twoProjects : List Container :=
  [⟨"9c1e", some "tak-server", some "other", true, "running", none, none, none⟩,
    ⟨"4f07", some "monitor", some "own", true, "running", none, none, none⟩,
    ⟨"b2d8", some "tak-server", some "own", true, "running", none, none, none⟩]

/-- A request for the logs of the TAK Server that is handled to its end. -/
def logsPool : Pool Exn State Unit :=
  Pool.play (List.replicate 12 0)
    ((Pool.idle (booted twoProjects 0)).setThread 0 (Request.logs "tak-server").handle)

theorem twoProjects_own : logsPool.state.answers.length = 1 ∧
    ∀ answer ∈ logsPool.state.answers, answer.Own "own" ["monitor", "tak-server"] ∧
      ∀ item ∈ answer.items, item.name ∈ ["monitor", "tak-server"] := by
  constructor
  · decide +kernel
  · have howns : Owns "own" ["monitor", "tak-server"] (booted twoProjects 0) := by
      constructor
      · rfl
      · intro c hc name howned
        rcases List.mem_cons.mp hc with rfl | hc
        · exact absurd howned.1 (by decide)
        · rcases List.mem_cons.mp hc with rfl | hc
          · obtain rfl := Option.some.inj howned.2
            decide
          · rw [List.mem_singleton.mp hc] at howned
            obtain rfl := Option.some.inj howned.2
            decide
    apply answers_own (by decide) howns
    apply Relation.ReflTransGen.head (.start 0 ⟨_, rfl⟩ rfl)
    exact Pool.runs_play (Pool.plays_of_forall (fun _ _ _ => trivial) _ _)

end Own

end FastTAK.Containers
