import Timpani.Cpp.Loop
import Timpani.Packing.Greedy
import Timpani.Rust.Scheduler

/-!
# Placements of the Rust scheduler

Every algorithm is a greedy packing of the tasks into the CPUs: the table of utilisations the code
keeps is what the packing adds up to, and the node that is chosen always has a CPU for the task.

* `GlobalScheduler.Placed` : the packing behind a pass of an algorithm;
* `GlobalScheduler.Placed.place`, `Placed.foldlM` : one task and all of them;
* `GlobalScheduler.exists_sound` : the result of `schedule` is the whole packing, and it respects the
  threshold if nothing is rounded.
-/

namespace Timpani.Rust

variable {U : Type} [Floating U]

/-! ### CPUs -/

section Cpus

variable {stdSort : StdSort} {task : Task} {nodeId : Text} {avail : AvailCpus} {util : CpuUtil U}
  {cpu : UInt32}

theorem of_findBestCpuForTask (h : findBestCpuForTask stdSort task nodeId avail util = some cpu) :
    ∃ cpus, avail[nodeId]? = some cpus ∧ cpu ∈ cpus ∧ fits task nodeId util cpu = true := by
  obtain ⟨cpus, hcpus, h⟩ := Option.bind_eq_some_iff.1 h
  refine ⟨cpus, hcpus, ?_⟩
  have hpacked : (stdSort.sort (fun a b => b < a) cpus).find? (fits task nodeId util) = some cpu →
      cpu ∈ cpus ∧ fits task nodeId util cpu = true := fun hfind =>
    ⟨(stdSort.perm StrictWeak.of_uint32_lt.swap cpus).mem_iff.1 (List.mem_of_find?_eq_some hfind),
      List.find?_some hfind⟩
  cases haffinity : task.affinity with
  | any =>
    rw [haffinity] at h
    exact hpacked h
  | pinned mask =>
    rw [haffinity] at h
    dsimp only at h
    split_ifs at h with hpinned
    · exact Option.some.inj h ▸ hpinned
    · exact hpacked h

theorem calculateCpuUtilization_assignCpuToTask (n : Text) (c : UInt32) :
    calculateCpuUtilization (assignCpuToTask task nodeId cpu util).2 n c =
      if (nodeId, cpu) = (n, c) then Floating.add (calculateCpuUtilization util n c) task.utilization
      else calculateCpuUtilization util n c := by
  unfold calculateCpuUtilization assignCpuToTask
  simp only [Std.ExtTreeMap.getElem?_insert, Std.LawfulEqOrd.compare_eq_iff_eq]
  by_cases hn : nodeId = n
  · subst hn
    simp only [if_true, Option.bind_some, Std.ExtTreeMap.getElem?_insert,
      Std.LawfulEqOrd.compare_eq_iff_eq]
    by_cases hc : cpu = c
    · simp [hc, calculateCpuUtilization]
    · cases hm : util[nodeId]? <;> simp [hc, hm, Std.ExtTreeMap.getD_eq_getD_getElem?]
  · simp [hn]

theorem calculateCpuUtilization_buildCpuUtilization (avail : AvailCpus) :
    calculateCpuUtilization (GlobalScheduler.buildCpuUtilization avail) nodeId cpu =
      (Floating.ofDecimal 0 0 : U) := by
  set zero : U := Floating.ofDecimal 0 0
  have hzero : ∀ cpus : List UInt32, ((cpus.foldl (fun m c => m.insert c zero)
      (∅ : Std.ExtTreeMap UInt32 U))[cpu]?).getD zero = zero := by
    intro cpus
    refine List.foldlRecOn (motive := fun m : Std.ExtTreeMap UInt32 U => (m[cpu]?).getD zero = zero)
      cpus _ ?_ ?_
    · simp
    · intro m hm c _
      rw [Std.ExtTreeMap.getElem?_insert]
      split_ifs
      · rfl
      · exact hm
  unfold calculateCpuUtilization GlobalScheduler.buildCpuUtilization
  rw [Std.ExtTreeMap.getElem?_map]
  cases avail[nodeId]? with
  | none => rfl
  | some cpus => exact hzero cpus

end Cpus

namespace GlobalScheduler

variable {G : GlobalScheduler U}

/-! ### Nodes -/

section Nodes

variable {task : Task} {nodeId : Text} {avail : AvailCpus} {util : CpuUtil U}

theorem eligible_of_findBestNode {better : Text → List UInt32 → U → Option U} {start : U}
    (h : G.findBestNode task avail util better start = some nodeId) :
    G.eligible task avail util nodeId = true := by
  revert h
  refine List.foldlRecOn (motive := fun best : Option Text × U => best.1 = some nodeId →
    G.eligible task avail util nodeId = true) avail.toList _ (fun h => by cases h) ?_
  rintro best hbest ⟨n, cpus⟩ -
  dsimp only
  split_ifs with hskip
  · exact hbest
  · cases better n cpus best.2 with
    | none => exact hbest
    | some value =>
      intro h
      cases Option.some.inj h
      exact Bool.eq_true_of_not_eq_false (not_or.1 hskip).2

theorem eligible_of_findBestNodeBestFitDecreasing
    (h : G.findBestNodeBestFitDecreasing task avail util = some nodeId) :
    G.eligible task avail util nodeId = true := by
  unfold findBestNodeBestFitDecreasing at h
  split_ifs at h with htarget
  · exact Option.some.inj h ▸ htarget.2
  · exact eligible_of_findBestNode h

end Nodes

/-! ### Packings -/

/-- A task and the node and CPU it gets. -/
abbrev Placement := Task × Text × UInt32

/-- The task after its assignment. -/
def Placement.task (p : Placement) : Task :=
  { p.1 with assignedNode := p.2.1, assignedCpu := some p.2.2 }

/-- The node is configured with the CPU, and it is the target node if the algorithm goes by it. -/
structure Permitted (G : GlobalScheduler U) (algorithm : Text) (task : Task) (bin : Text × UInt32) :
    Prop where
  configured : ∃ cfg, G.nodeConfigManager.nodes[bin.1]? = some cfg ∧ bin.2 ∈ cfg.availableCpus
  target : algorithm = text "target_node_priority" → bin.1 = task.targetNode

/-- One more task on a CPU. -/
def addTask (u : U) (task : Task) : U := Floating.add u task.utilization

/-- What the tasks on a CPU add up to, in the order in which they were placed. -/
def utilizationOn (ps : List Placement) (bin : Text × UInt32) : U :=
  accumulated addTask (Floating.ofDecimal 0 0) ps bin

/-- The utilisation is within the threshold. -/
def WithinThreshold (u : U) : Prop := Floating.le u cpuUtilizationThreshold = true

/-- A pass over `tasks` has packed them greedily and skipped none. -/
structure Placed (G : GlobalScheduler U) (algorithm : Text) (tasks : List Task) (pass : Pass U)
    (ps : List Placement) : Prop where
  items : ps.map Prod.fst = tasks
  tasks_eq : pass.tasks = ps.map Placement.task
  skipped_eq : pass.skipped = []
  greedy : Greedy addTask (Floating.ofDecimal 0 0) (G.Permitted algorithm)
    (WithinThreshold (U := U)) ps
  /-- The table of utilisations is what the packing adds up to. -/
  util_eq : ∀ nodeId cpu,
    calculateCpuUtilization pass.util nodeId cpu = utilizationOn ps (nodeId, cpu)

/-- What a successful step of an algorithm does: the task goes to the CPU found for it. -/
def Places (G : GlobalScheduler U) (algorithm : Text) (pass : Pass U) (task : Task)
    (pass' : Pass U) : Prop :=
  ∃ nodeId cpu,
    findBestCpuForTask G.stdSort task nodeId G.buildAvailableCpus pass.util = some cpu ∧
      (algorithm = text "target_node_priority" → nodeId = task.targetNode) ∧
      pass' = pass.place task nodeId cpu

variable {algorithm : Text} {tasks : List Task} {task : Task} {pass pass' : Pass U}
  {ps : List Placement}

theorem placeOnTargetNode_eq_ok
    (h : G.placeOnTargetNode G.buildAvailableCpus pass task = .ok pass') :
    task.targetNode ≠ [] ∧
      G.checkAdmission task task.targetNode G.buildAvailableCpus = .ok () ∧
      ∃ cpu, findBestCpuForTask G.stdSort task task.targetNode G.buildAvailableCpus pass.util =
          some cpu ∧ pass' = pass.place task task.targetNode cpu := by
  unfold placeOnTargetNode at h
  split_ifs at h with hid hnode
  cases hadmission : G.checkAdmission task task.targetNode G.buildAvailableCpus with
  | error reason => simp [hadmission] at h
  | ok u =>
    simp only [hadmission] at h
    cases hcpu : findBestCpuForTask G.stdSort task task.targetNode G.buildAvailableCpus
      pass.util with
    | none => simp [hcpu] at h
    | some cpu =>
      simp only [hcpu] at h
      exact ⟨hnode, rfl, cpu, rfl, (Except.ok.inj h).symm⟩

theorem places_of_placeOnTargetNode
    (h : G.placeOnTargetNode G.buildAvailableCpus pass task = .ok pass') :
    G.Places algorithm pass task pass' := by
  obtain ⟨-, -, cpu, hcpu, rfl⟩ := placeOnTargetNode_eq_ok h
  exact ⟨task.targetNode, cpu, hcpu, fun _ => rfl, rfl⟩

theorem places_of_placeOnBestNode {bestNode : Task → AvailCpus → CpuUtil U → Option Text}
    (hbest : ∀ nodeId, bestNode task G.buildAvailableCpus pass.util = some nodeId →
      G.eligible task G.buildAvailableCpus pass.util nodeId = true)
    (halgorithm : algorithm ≠ text "target_node_priority")
    (h : G.placeOnBestNode bestNode G.buildAvailableCpus pass task = .ok pass') :
    G.Places algorithm pass task pass' := by
  unfold placeOnBestNode at h
  cases hnode : bestNode task G.buildAvailableCpus pass.util with
  | none => simp [hnode] at h
  | some nodeId =>
    obtain ⟨cpu, hcpu⟩ := Option.isSome_iff_exists.1
      (Bool.and_eq_true_iff.1 (hbest nodeId hnode)).2
    simp only [hnode, hcpu] at h
    exact ⟨nodeId, cpu, hcpu, fun htarget => absurd htarget halgorithm, (Except.ok.inj h).symm⟩

namespace Placed

theorem nil : G.Placed algorithm [] ⟨[], buildCpuUtilization G.buildAvailableCpus, []⟩ [] where
  items := rfl
  tasks_eq := rfl
  skipped_eq := rfl
  greedy := .nil
  util_eq _ _ := calculateCpuUtilization_buildCpuUtilization _

theorem place_at (h : G.Placed algorithm tasks pass ps) {nodeId : Text} {cpu : UInt32}
    (hcpu : findBestCpuForTask G.stdSort task nodeId G.buildAvailableCpus pass.util = some cpu)
    (htarget : algorithm = text "target_node_priority" → nodeId = task.targetNode) :
    G.Placed algorithm (tasks ++ [task]) (pass.place task nodeId cpu)
      (ps ++ [(task, nodeId, cpu)]) := by
  obtain ⟨cpus, hcpus, hmem, hfits⟩ := of_findBestCpuForTask hcpu
  rw [buildAvailableCpus, Std.ExtTreeMap.getElem?_map] at hcpus
  obtain ⟨cfg, hcfg, rfl⟩ := Option.map_eq_some_iff.1 hcpus
  refine ⟨?_, ?_, h.skipped_eq, h.greedy.snoc ⟨⟨cfg, hcfg, hmem⟩, htarget⟩ ?_, ?_⟩
  · simp [h.items]
  · simp [Pass.place, assignCpuToTask, h.tasks_eq, Placement.task]
  · have hfits : WithinThreshold (addTask (calculateCpuUtilization pass.util nodeId cpu) task) :=
      hfits
    rwa [h.util_eq] at hfits
  · intro n c
    rw [utilizationOn, accumulated_append_singleton, ← utilizationOn, ← h.util_eq]
    exact calculateCpuUtilization_assignCpuToTask n c

/-- One more task. -/
theorem place (h : G.Placed algorithm tasks pass ps) (hstep : G.Places algorithm pass task pass') :
    ∃ bin, G.Placed algorithm (tasks ++ [task]) pass' (ps ++ [(task, bin)]) := by
  obtain ⟨nodeId, cpu, hcpu, htarget, rfl⟩ := hstep
  exact ⟨(nodeId, cpu), h.place_at hcpu htarget⟩

/-- All the tasks. -/
theorem foldlM {step : Pass U → Task → Except SchedulerError (Pass U)}
    (hstep : ∀ {pass task pass'}, step pass task = .ok pass' → G.Places algorithm pass task pass')
    (h : tasks.foldlM step ⟨[], buildCpuUtilization G.buildAvailableCpus, []⟩ = .ok pass) :
    ∃ ps, G.Placed algorithm tasks pass ps := by
  refine foldlM_ok_induction (motive := fun done pass => ∃ ps, G.Placed algorithm done pass ps) h
    ⟨[], nil⟩ ?_
  rintro done task pass pass' - ⟨ps, hplaced⟩ hok
  obtain ⟨bin, hplaced⟩ := hplaced.place (hstep hok)
  exact ⟨ps ++ [(task, bin)], hplaced⟩

end Placed

/-- **Every algorithm that succeeds packs all the tasks**, in an order of its own. -/
theorem exists_placed_of_assign (h : G.assign tasks algorithm = .ok pass) :
    ∃ order ps, order.Perm tasks ∧ G.Placed algorithm order pass ps := by
  unfold assign at h
  dsimp only at h
  split_ifs at h with _ _ htarget hleast hbest
  · exact ⟨tasks, (Placed.foldlM places_of_placeOnTargetNode h).imp fun _ hps => ⟨.rfl, hps⟩⟩
  · refine ⟨tasks, (Placed.foldlM (fun hstep => ?_) h).imp fun _ hps => ⟨.rfl, hps⟩⟩
    exact places_of_placeOnBestNode (fun _ => eligible_of_findBestNode) htarget hstep
  · refine ⟨G.stdSort.sort (fun a b => b.runtimeUs < a.runtimeUs) tasks,
      (Placed.foldlM (fun hstep => ?_) h).imp fun _ hps => ⟨?_, hps⟩⟩
    · exact places_of_placeOnBestNode (fun _ => eligible_of_findBestNodeBestFitDecreasing) htarget
        hstep
    · exact G.stdSort.perm (StrictWeak.of_uint64_lt.swap.comap Task.runtimeUs) tasks

/-! ### Results -/

theorem getD_buildSchedMap (tasks : List Task) (nodeId : Text) :
    (buildSchedMap tasks).getD nodeId [] =
      (tasks.filter fun t => t.isAssigned && t.assignedNode = nodeId).map .fromTask := by
  unfold buildSchedMap
  suffices h : ∀ map : NodeSchedMap SchedTask,
      (tasks.foldl (fun map task =>
        if task.isAssigned then
          map.insert task.assignedNode (map.getD task.assignedNode [] ++ [.fromTask task])
        else map) map).getD nodeId [] = map.getD nodeId [] ++
          (tasks.filter fun t => t.isAssigned && t.assignedNode = nodeId).map .fromTask by
    simpa using h ∅
  induction tasks with
  | nil => simp
  | cons t tasks ih =>
    intro map
    rw [List.foldl_cons, ih]
    cases hassigned : t.isAssigned with
    | false => simp [hassigned]
    | true =>
      by_cases hnode : t.assignedNode = nodeId
      · simp [hassigned, hnode]
      · simp [hassigned, hnode, Std.ExtTreeMap.getD_insert]

/-- A result of `schedule` is a packing of the tasks into the CPUs of the nodes, with the exact
loads within the threshold. -/
structure Sound (G : GlobalScheduler ℚ) (algorithm : Text) (tasks : List Task)
    (map : NodeSchedMap SchedTask) (ps : List Placement) : Prop where
  /-- Every task is placed once. -/
  perm : (ps.map Prod.fst).Perm tasks
  permitted : ∀ p ∈ ps, G.Permitted algorithm p.1 p.2
  load_le : ∀ bin, load (Task.utilization (U := ℚ)) ps bin ≤ 9 / 10
  delivered : ∀ nodeId ≠ [], map.getD nodeId [] =
    (ps.filter fun p => p.2.1 = nodeId).map fun p => .fromTask (Placement.task p)

theorem getD_buildSchedMap_placements (ps : List Placement) {nodeId : Text} (hne : nodeId ≠ []) :
    (buildSchedMap (ps.map Placement.task)).getD nodeId [] =
      (ps.filter fun p => p.2.1 = nodeId).map fun p => .fromTask (Placement.task p) := by
  rw [getD_buildSchedMap, List.filter_map, List.map_map]
  congr 1
  refine List.filter_congr fun p _ => ?_
  by_cases hnode : p.2.1 = nodeId
  · simp [Placement.task, Task.isAssigned, hnode, hne]
  · simp [Placement.task, hnode]

theorem cpuUtilizationThreshold_eq : (cpuUtilizationThreshold : ℚ) = 9 / 10 := by
  norm_num [cpuUtilizationThreshold, Floating.ofDecimal]

theorem utilizationOn_eq_load (ps : List Placement) (bin : Text × UInt32) :
    (utilizationOn ps bin : ℚ) = load Task.utilization ps bin := by
  rw [load_eq_accumulated, utilizationOn, Floating.ofDecimal_zero]
  rfl

theorem Placed.load_le {G : GlobalScheduler ℚ} {pass : Pass ℚ}
    (h : G.Placed algorithm tasks pass ps) (bin : Text × UInt32) :
    load (Task.utilization (U := ℚ)) ps bin ≤ 9 / 10 := by
  have hzero : WithinThreshold (Floating.ofDecimal 0 0 : ℚ) := by
    rw [WithinThreshold]
    decide +kernel
  rw [← utilizationOn_eq_load, ← cpuUtilizationThreshold_eq]
  exact of_decide_eq_true (h.greedy.room_accumulated hzero bin)

/-- **The scheduler is sound.**  If it succeeds, it has skipped no task, and its result is a packing
of all the tasks into the CPUs of the nodes that fills none of them beyond 90 %. -/
theorem exists_sound {G : GlobalScheduler ℚ} {map : NodeSchedMap SchedTask}
    (h : G.schedule tasks algorithm = .ok map) :
    ∃ pass ps, G.assign tasks algorithm = .ok pass ∧ pass.skipped = [] ∧
      pass.tasks = ps.map Placement.task ∧ G.Sound algorithm tasks map ps := by
  unfold schedule at h
  cases hassign : G.assign tasks algorithm with
  | error e =>
    rw [hassign] at h
    cases h
  | ok pass =>
    rw [hassign] at h
    obtain rfl := Except.ok.inj h
    obtain ⟨order, ps, hperm, hplaced⟩ := exists_placed_of_assign hassign
    refine ⟨pass, ps, rfl, hplaced.skipped_eq, hplaced.tasks_eq, ?_, hplaced.greedy.allowed_of_mem,
      hplaced.load_le, fun nodeId hne => ?_⟩
    · rwa [hplaced.items]
    · dsimp only
      rw [hplaced.tasks_eq]
      exact getD_buildSchedMap_placements ps hne

/-- Two nodes with three CPUs. -/
def twoNodes : GlobalScheduler ℚ where
  nodeConfigManager :=
    { nodes := .ofList [(text "node01", NodeConfig.mk [0, 1] 1024),
        (text "node02", NodeConfig.mk [2] 512)]
      loaded := true }
  stdSort := insertionStdSort

/-- A task that takes half a CPU. -/
def halfTask (name targetNode : Text) (affinity : CpuAffinity) : Task where
  name := name
  workloadId := text "wl"
  targetNode := targetNode
  policy := .fifo
  priority := 50
  affinity := affinity
  memoryMb := 256
  periodUs := 10000
  runtimeUs := 5000
  deadlineUs := 10000
  releaseTimeUs := 0
  maxDmiss := 3
  assignedNode := []
  assignedCpu := none

/-- Two tasks are pinned to one CPU, which has no room for both. -/
def halfTasks : List Task :=
  [halfTask (text "a") (text "node01") (.pinned 2), halfTask (text "b") (text "node01") (.pinned 2),
    halfTask (text "c") (text "node02") .any]

theorem exists_sound_halfTasks :
    ∃ map, twoNodes.schedule halfTasks (text "best_fit_decreasing") = .ok map ∧
      ∃ pass ps, twoNodes.assign halfTasks (text "best_fit_decreasing") = .ok pass ∧
        pass.skipped = [] ∧ pass.tasks = ps.map Placement.task ∧
        twoNodes.Sound (text "best_fit_decreasing") halfTasks map ps := by
  have hok : (twoNodes.schedule halfTasks (text "best_fit_decreasing")).toBool = true := by
    decide +kernel
  cases hmap : twoNodes.schedule halfTasks (text "best_fit_decreasing") with
  | error e => simp [hmap, Except.toBool] at hok
  | ok map => exact ⟨map, rfl, exists_sound hmap⟩

end GlobalScheduler

end Timpani.Rust
