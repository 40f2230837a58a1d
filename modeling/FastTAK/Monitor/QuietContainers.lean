import FastTAK.Base.Yields
import FastTAK.Monitor.Containers

/-!
# Containers while nothing changes

As long as what is kept is what Docker has, a request that runs alone is answered with exactly what
there is: the health of every service of the project, and the logs of each.
-/

namespace FastTAK.Containers

open FastTAK.Comm FastTAK.Effect FastTAK.Effect.Prog

/-- The services of the project. -/
def servicesOf (P : String) (docker : List Container) : List String :=
  sortUnique ((docker.filter fun c => c.project = some P).filterMap Container.service)

/-- The container of a service that Docker lists first. -/
def firstOf (P name : String) (docker : List Container) : Option Container :=
  docker.find? fun c => c.service = some name && c.project = some P

/-- The monitor that Docker lists first is in the project. -/
def MonitorIn (P : String) (docker : List Container) : Prop :=
  FirstIn P (docker.filter fun c => c.up && c.service = some "monitor")

/-- Docker has these containers, and what is kept is true of them. -/
structure Current (P : String) (docker : List Container) (s : State) : Prop where
  containers : s.containers = docker
  reachable : s.reachable
  project : s.cachedProject = "" ∨ s.cachedProject = P
  services : s.cachedServices = [] ∨ s.cachedServices = servicesOf P docker

structure Refreshed (P : String) (docker : List Container) (s : State) : Prop
    extends Current P docker s where
  known : s.cachedProject = P

variable {P name : String} {docker : List Container} {s : State}

theorem mem_servicesOf : name ∈ servicesOf P docker ↔ (firstOf P name docker).isSome := by
  rw [servicesOf, mem_sortUnique, List.mem_filterMap, firstOf, List.find?_isSome]
  apply exists_congr
  intro c
  rw [List.mem_filter, decide_eq_true_iff, Bool.and_eq_true, decide_eq_true_iff,
    decide_eq_true_iff]
  constructor
  · rintro ⟨⟨hc, hproject⟩, hservice⟩
    exact ⟨hc, hservice, hproject⟩
  · rintro ⟨hc, hservice, hproject⟩
    exact ⟨⟨hc, hproject⟩, hservice⟩

/-! ## What the functions yield -/

theorem yields_list (all : Bool) (labelled : Container → Bool) :
    Yields (Current P docker) (Current P docker)
      (.ok (docker.filter fun c => (all || c.up) && labelled c)) (list all labelled) := by
  intro s hcurrent
  refine ⟨?_, hcurrent⟩
  change (if s.reachable then Except.ok (s.listed all labelled) else .error Exn.docker) = _
  rw [if_pos hcurrent.reachable, State.listed, hcurrent.containers]

theorem yields_storeCache :
    Yields (Current P docker) (Refreshed P docker) (.ok ())
      (storeCache (servicesOf P docker) P) :=
  fun _ hcurrent => ⟨rfl, ⟨hcurrent.containers, hcurrent.reachable, .inr rfl, .inr rfl⟩, rfl⟩

theorem yields_refreshFrom {self : Container} (hself : self.project = some P) :
    Yields (Current P docker) (Refreshed P docker) (.ok (servicesOf P docker))
      (refreshFrom self) := by
  have hproject : self.project.getD "" = P := by rw [hself, Option.getD_some]
  rw [refreshFrom, hproject]
  apply yields_bind (yields_list true _)
  simp only [Bool.true_or, Bool.true_and]
  apply yields_bind yields_storeCache
  exact yields_pure _

theorem yields_refreshCache (hmonitor : MonitorIn P docker) :
    Yields (Current P docker) (Refreshed P docker) (.ok (servicesOf P docker)) refreshCache := by
  apply yields_bind (yields_list false _)
  obtain ⟨self, hhead, hproject⟩ := Option.map_eq_some_iff.mp hmonitor
  simp only [Bool.false_or, hhead]
  exact yields_refreshFrom hproject

theorem yields_getProject (hmonitor : MonitorIn P docker) :
    Yields (Current P docker) (Current P docker) (.ok P) getProject := by
  have hfresh : ∀ s, Current P docker s → ∃ fresh, (∀ project, fresh = some project → project = P) ∧
      (freshProject.run s).1 = .ok fresh ∧ Current P docker (freshProject.run s).2 := by
    intro s hcurrent
    refine ⟨_, ?_, rfl, hcurrent⟩
    intro project hsome
    split_ifs at hsome with hkept
    obtain rfl := Option.some.inj hsome
    exact hcurrent.project.resolve_left hkept.1
  apply yields_bind_of hfresh
  intro fresh hsome
  cases fresh with
  | some project =>
      rw [hsome project rfl]
      exact yields_pure P
  | none =>
      have hread : Yields (Refreshed P docker) (Refreshed P docker) (.ok P)
          (atomic fun s => (.ok s.cachedProject, s) : M String) :=
        fun _ hrefreshed => ⟨congrArg Except.ok hrefreshed.known, hrefreshed⟩
      have hrefresh : Yields (Current P docker) (Refreshed P docker) (.ok P)
          (refreshCache >>= fun _ => atomic fun s => (.ok s.cachedProject, s)) :=
        yields_bind (yields_refreshCache hmonitor) hread
      exact hrefresh.mono fun _ h => h.toCurrent

theorem yields_discoverServices (hmonitor : MonitorIn P docker) :
    Yields (Current P docker) (Current P docker) (.ok (servicesOf P docker)) discoverServices := by
  have hfresh : ∀ s, Current P docker s →
      ∃ fresh, (∀ names, fresh = some names → names = servicesOf P docker) ∧
        (freshServices.run s).1 = .ok fresh ∧ Current P docker (freshServices.run s).2 := by
    intro s hcurrent
    refine ⟨_, ?_, rfl, hcurrent⟩
    intro names hsome
    split_ifs at hsome with hkept
    obtain rfl := Option.some.inj hsome
    exact hcurrent.services.resolve_left hkept.1
  apply yields_bind_of hfresh
  intro fresh hsome
  cases fresh with
  | some names =>
      rw [hsome names rfl]
      exact yields_pure _
  | none => exact (yields_refreshCache hmonitor).mono fun _ h => h.toCurrent

theorem yields_findContainer (hP : P ≠ "") (hmonitor : MonitorIn P docker) (name : String) :
    Yields (Current P docker) (Current P docker) (.ok (firstOf P name docker))
      (findContainer name) := by
  apply yields_bind (yields_getProject hmonitor)
  apply yields_bind (yields_list true _)
  simp only [Bool.true_or, Bool.true_and, hP, decide_false, Bool.false_or, List.head?_filter]
  exact yields_pure _

theorem yields_lookUpAll (hP : P ≠ "") (hmonitor : MonitorIn P docker) :
    Yields (Current P docker) (Current P docker)
      (.ok ((servicesOf P docker).map fun name => (name, firstOf P name docker))) lookUpAll := by
  apply yields_bind (yields_discoverServices hmonitor)
  apply yields_mapList
  intro name
  apply yields_bind (yields_findContainer hP hmonitor name)
  exact yields_pure _

/-! ## What is answered -/

/-- What the health page says of a container. -/
def Shows (c : Container) (item : Item) : Prop :=
  ¬(c.status = "exited" ∧ c.exitCode.getD (-1) = 0) ∧ item.status = c.status ∧
    item.health = c.health.getD "unknown" ∧ item.image = some (c.image.getD "")

theorem healthItem_eq_some {c : Container} {item : Item} :
    healthItem name (some c) = some item ↔ item.name = name ∧ Shows c item := by
  rw [healthItem, Shows]
  split_ifs with hdone
  · constructor
    · intro hitem
      cases hitem
    · rintro ⟨-, hshown, -⟩
      exact absurd hdone hshown
  · constructor
    · intro hitem
      obtain rfl := Option.some.inj hitem
      exact ⟨rfl, hdone, rfl, rfl, rfl⟩
    · rintro ⟨rfl, -, hstatus, hhealth, himage⟩
      rw [← hstatus, ← hhealth, ← himage]

theorem mem_items {item : Item} :
    item ∈ (Answer.health ((servicesOf P docker).map fun name =>
        (name, firstOf P name docker))).items ↔
      ∃ c, firstOf P item.name docker = some c ∧ Shows c item := by
  rw [Answer.items, List.mem_filterMap]
  constructor
  · rintro ⟨entry, hentry, hitem⟩
    obtain ⟨name, hname, rfl⟩ := List.mem_map.mp hentry
    obtain ⟨c, hc⟩ := Option.isSome_iff_exists.mp (mem_servicesOf.mp hname)
    rw [hc] at hitem
    obtain ⟨rfl, hshows⟩ := healthItem_eq_some.mp hitem
    exact ⟨c, hc, hshows⟩
  · rintro ⟨c, hc, hshows⟩
    have hname : item.name ∈ servicesOf P docker := by
      rw [mem_servicesOf, hc]
      rfl
    refine ⟨_, List.mem_map.mpr ⟨item.name, hname, rfl⟩, ?_⟩
    rw [hc]
    exact healthItem_eq_some.mpr ⟨rfl, hshows⟩

/-- Each service is shown once. -/
theorem pairwise_items :
    (Answer.health ((servicesOf P docker).map fun name =>
      (name, firstOf P name docker))).items.Pairwise fun item item' => item.name < item'.name := by
  rw [Answer.items, List.pairwise_filterMap, List.pairwise_map]
  apply (pairwise_sortUnique _).imp
  intro name name' hlt item hitem item' hitem'
  rw [healthItem_name hitem, healthItem_name hitem']
  exact hlt

theorem yields_validated (hmonitor : MonitorIn P docker) (hname : name ∈ servicesOf P docker) :
    Yields (Current P docker) (Current P docker) (.ok ()) (validated name) := by
  apply yields_bind (yields_discoverServices hmonitor)
  rw [if_pos hname]
  exact yields_pure ()

theorem yields_validated_unknown (hmonitor : MonitorIn P docker)
    (hname : name ∉ servicesOf P docker) :
    Yields (Current P docker) (Current P docker)
      (.error (.http 400 ("Unknown container: " ++ name))) (validated name) := by
  apply yields_bind (yields_discoverServices hmonitor)
  rw [if_neg hname]
  exact yields_raise _

theorem yields_health (hP : P ≠ "") (hmonitor : MonitorIn P docker) :
    Yields (Current P docker) (Current P docker)
      (.ok (.health ((servicesOf P docker).map fun name => (name, firstOf P name docker))))
      Request.health.answer := by
  apply yields_tryExcept
  apply yields_bind (yields_lookUpAll hP hmonitor)
  exact yields_pure _

/-- The refusal comes from the check of the name: no service is found to be missing after it. -/
theorem yields_logs (hP : P ≠ "") (hmonitor : MonitorIn P docker) (name : String) :
    Yields (Current P docker) (Current P docker)
      ((firstOf P name docker).elim (.error (.http 400 ("Unknown container: " ++ name))) fun c =>
        .ok (.logs name c)) (Request.logs name).answer := by
  cases hfirst : firstOf P name docker with
  | none =>
      have hname : name ∉ servicesOf P docker := by
        rw [mem_servicesOf, hfirst]
        exact Bool.false_ne_true
      exact yields_bind_error (yields_validated_unknown hmonitor hname)
  | some c =>
      have hname : name ∈ servicesOf P docker := by
        rw [mem_servicesOf, hfirst]
        rfl
      apply yields_bind (yields_validated hmonitor hname)
      have hlogs : Yields (Current P docker) (Current P docker) (.ok c) (logsOf name) := by
        apply yields_bind (yields_findContainer hP hmonitor name)
        rw [hfirst]
        exact yields_pure c
      apply yields_bind hlogs
      exact yields_pure _

theorem yields_filterList {test : String → M Bool} {keeps : String → Bool} (names : List String)
    (htest : ∀ name, Yields (Current P docker) (Current P docker) (.ok (keeps name)) (test name)) :
    Yields (Current P docker) (Current P docker) (.ok (names.filter keeps))
      (filterList test names) := by
  induction names with
  | nil => exact yields_pure []
  | cons name names ih =>
      apply yields_bind (htest name)
      apply yields_bind ih
      rw [List.filter_cons]
      exact yields_pure _

/-- The service has a container that is running. -/
def runs (P : String) (docker : List Container) (name : String) : Bool :=
  (firstOf P name docker).any fun c => c.status = "running"

/-- The running containers of the services. -/
def runningOf (P : String) (docker : List Container) : List Container :=
  (((servicesOf P docker).filter (runs P docker)).map fun name =>
    (firstOf P name docker).filter fun c => c.status = "running").reduceOption

theorem yields_resources (hP : P ≠ "") (hmonitor : MonitorIn P docker) :
    Yields (Current P docker) (Current P docker) (.ok (.resources (runningOf P docker)))
      Request.resources.answer := by
  have hnames : Yields (Current P docker) (Current P docker)
      (.ok ((servicesOf P docker).filter (runs P docker))) discoverRunningServices := by
    apply yields_bind (yields_discoverServices hmonitor)
    apply yields_filterList
    intro name
    apply yields_bind (yields_findContainer hP hmonitor name)
    exact yields_pure _
  have hcontainers : Yields (Current P docker) (Current P docker) (.ok (runningOf P docker))
      lookUpRunning := by
    apply yields_bind hnames
    have hstats : ∀ name, Yields (Current P docker) (Current P docker)
        (.ok ((firstOf P name docker).filter fun c => c.status = "running"))
        (statsContainer name) := by
      intro name
      apply yields_bind (yields_findContainer hP hmonitor name)
      exact yields_pure _
    apply yields_bind (yields_mapList _ hstats)
    exact yields_pure _
  apply yields_bind hcontainers
  exact yields_pure _

theorem mem_runningOf {c : Container} :
    c ∈ runningOf P docker ↔ ∃ name, firstOf P name docker = some c ∧ c.status = "running" := by
  rw [runningOf, List.reduceOption_mem_iff, List.mem_map]
  constructor
  · rintro ⟨name, -, hfirst⟩
    obtain ⟨hc, hrunning⟩ := Option.filter_eq_some_iff.mp hfirst
    exact ⟨name, hc, of_decide_eq_true hrunning⟩
  · rintro ⟨name, hc, hrunning⟩
    refine ⟨name, List.mem_filter.mpr ⟨?_, ?_⟩, ?_⟩
    · rw [mem_servicesOf, hc]
      rfl
    · rw [runs, hc]
      exact decide_eq_true hrunning
    · rw [hc]
      exact Option.filter_eq_some_iff.mpr ⟨rfl, decide_eq_true hrunning⟩

end FastTAK.Containers
