import Timpani.Barrier.Model
import Timpani.Cpp.Float

/-!
# The scheduler of the Rust orchestrator

`GlobalScheduler::schedule` gives every task of a workload a node and a CPU.  Three algorithms
choose the node: the task names it, or it is the least loaded one, or the one that will be packed
most tightly.  The CPU is the one the task is pinned to, or else the highest one, among those whose
utilisation stays within 90 %.

Utilisations are `f64` in the code and `U` here, with the operations in the order of the code.  What
is only logged is left out, but for the tasks that are skipped because no CPU is found on the node
chosen for them.

* `findBestCpuForTask`, `findBestNodeLeastLoaded`, `findBestNodeBestFitDecreasing` : the searches;
* `GlobalScheduler.assign` : the tasks with their nodes and CPUs;
* `GlobalScheduler.schedule` : the tasks of each node.
-/

namespace Timpani.Rust

variable {U : Type} [Floating U]

/-! ### Tasks -/

inductive SchedPolicy where
  | normal
  | fifo
  | roundRobin
  deriving DecidableEq, Repr

inductive CpuAffinity where
  | any
  | pinned (mask : UInt64)
  deriving DecidableEq, Repr

/-- `u64::trailing_zeros` -/
def trailingZeros (mask : UInt64) : UInt32 :=
  (((List.range 64).find? mask.toNat.testBit).map UInt32.ofNat).getD 64

structure Task where
  name : Text
  workloadId : Text
  targetNode : Text
  policy : SchedPolicy
  priority : Int32
  affinity : CpuAffinity
  memoryMb : UInt64
  periodUs : UInt64
  runtimeUs : UInt64
  deadlineUs : UInt64
  releaseTimeUs : UInt32
  maxDmiss : Int32
  assignedNode : Text
  assignedCpu : Option UInt32
  deriving DecidableEq, Repr

namespace Task

def utilization (t : Task) : U := Floating.ratio t.runtimeUs.toNat t.periodUs.toNat

def isAssigned (t : Task) : Bool := t.assignedNode ≠ [] && t.assignedCpu.isSome

end Task

structure SchedTask where
  name : Text
  assignedNode : Text
  assignedCpu : UInt32
  policy : SchedPolicy
  priority : Int32
  periodNs : UInt64
  runtimeNs : UInt64
  deadlineNs : UInt64
  releaseTimeUs : Int32
  maxDmiss : Int32
  deriving DecidableEq, Repr

/-- `u64::saturating_mul` -/
def saturatingMul (a b : UInt64) : UInt64 :=
  if a.toNat * b.toNat < 2 ^ 64 then a * b else 0xffffffffffffffff

/-- `SchedTask::from_task` -/
def SchedTask.fromTask (t : Task) : SchedTask where
  name := t.name
  assignedNode := t.assignedNode
  assignedCpu := t.assignedCpu.getD 0
  policy := t.policy
  priority := t.priority
  periodNs := saturatingMul t.periodUs 1000
  runtimeNs := saturatingMul t.runtimeUs 1000
  deadlineNs := saturatingMul t.deadlineUs 1000
  releaseTimeUs := t.releaseTimeUs.toInt32
  maxDmiss := t.maxDmiss

/-! ### Nodes -/

structure NodeConfig where
  availableCpus : List UInt32
  maxMemoryMb : UInt64

structure NodeConfigManager where
  nodes : Std.ExtTreeMap Text NodeConfig
  loaded : Bool

/-- The CPUs of each node. -/
abbrev AvailCpus := Std.ExtTreeMap Text (List UInt32)

/-- The utilisation of each CPU of each node. -/
abbrev CpuUtil (U : Type) := Std.ExtTreeMap Text (Std.ExtTreeMap UInt32 U)

/-! ### Errors -/

inductive AdmissionReason where
  | nodeNotFound (node : Text)
  | insufficientMemory (requiredMb availableMb : UInt64)
  | cpuAffinityUnavailable (requestedCpu : UInt32)
  | noAvailableCpu
  deriving DecidableEq

inductive SchedulerError where
  | noTasks
  | configNotLoaded
  | unknownAlgorithm (algorithm : Text)
  | missingWorkloadId (task : Text)
  | missingTargetNode (task : Text)
  | admissionRejected (task node : Text) (reason : AdmissionReason)
  | noSchedulableNode (task : Text)
  deriving DecidableEq

/-! ### CPUs -/

def cpuUtilizationThreshold : U := Floating.ofDecimal 90 2

def calculateCpuUtilization (util : CpuUtil U) (nodeId : Text) (cpuId : UInt32) : U :=
  (util[nodeId]?.bind fun m => m[cpuId]?).getD (Floating.ofDecimal 0 0)

def calculateNodeUtilization (util : CpuUtil U) (nodeId : Text) : U :=
  (util[nodeId]?.map fun m => m.values.foldl Floating.add (Floating.ofDecimal 0 0)).getD
    (Floating.ofDecimal 0 0)

/-- The utilisation of the CPU stays within the threshold if it gets the task. -/
def fits (task : Task) (nodeId : Text) (util : CpuUtil U) (cpu : UInt32) : Bool :=
  Floating.le (Floating.add (calculateCpuUtilization util nodeId cpu) task.utilization)
    cpuUtilizationThreshold

/-- `find_best_cpu_for_task` -/
def findBestCpuForTask (stdSort : StdSort) (task : Task) (nodeId : Text) (avail : AvailCpus)
    (util : CpuUtil U) : Option UInt32 := do
  let cpus ← avail[nodeId]?
  -- an empty list of CPUs is left early, with the same result
  let packed := (stdSort.sort (fun a b => b < a) cpus).find? (fits task nodeId util)
  match task.affinity with
  | .any => packed
  | .pinned mask =>
    let pinned := trailingZeros mask
    if pinned ∈ cpus ∧ fits task nodeId util pinned then some pinned else packed

/-- `assign_cpu_to_task` -/
def assignCpuToTask (task : Task) (nodeId : Text) (cpuId : UInt32) (util : CpuUtil U) :
    Task × CpuUtil U :=
  let next := Floating.add (calculateCpuUtilization util nodeId cpuId) task.utilization
  ({ task with assignedNode := nodeId, assignedCpu := some cpuId },
    util.insert nodeId ((util.getD nodeId ∅).insert cpuId next))

/-! ### Nodes -/

/-- The scheduler, computing with utilisations in `U`. -/
structure GlobalScheduler (U : Type) where
  nodeConfigManager : NodeConfigManager
  /-- `sort_unstable_by`, which promises no more than `std::sort`. -/
  stdSort : StdSort

namespace GlobalScheduler

variable (G : GlobalScheduler U)

def buildAvailableCpus : AvailCpus :=
  G.nodeConfigManager.nodes.map fun _ cfg => cfg.availableCpus

def buildCpuUtilization (avail : AvailCpus) : CpuUtil U :=
  avail.map fun _ cpus => cpus.foldl (fun m c => m.insert c (Floating.ofDecimal 0 0)) ∅

/-- `check_admission` -/
def checkAdmission (task : Task) (nodeId : Text) (avail : AvailCpus) :
    Except AdmissionReason Unit :=
  match G.nodeConfigManager.nodes[nodeId]? with
  | none => .error (.nodeNotFound nodeId)
  | some nodeCfg =>
    if 0 < task.memoryMb ∧ task.memoryMb > nodeCfg.maxMemoryMb then
      .error (.insufficientMemory task.memoryMb nodeCfg.maxMemoryMb)
    else
      match task.affinity with
      | .any => .ok ()
      | .pinned mask =>
        if trailingZeros mask ∈ avail.getD nodeId [] then .ok ()
        else .error (.cpuAffinityUnavailable (trailingZeros mask))

/-- The task is admitted to the node and there is a CPU for it. -/
def eligible (task : Task) (avail : AvailCpus) (util : CpuUtil U) (nodeId : Text) : Bool :=
  (G.checkAdmission task nodeId avail).toBool &&
    (findBestCpuForTask G.stdSort task nodeId avail util).isSome

/-- The search for a node in the order of their names: `better` says whether a node is preferred to
the best one so far, and gives what the next ones are compared with. -/
def findBestNode (task : Task) (avail : AvailCpus) (util : CpuUtil U)
    (better : Text → List UInt32 → U → Option U) (start : U) : Option Text :=
  (avail.toList.foldl (fun best (nodeId, cpus) =>
    if cpus = [] ∨ G.eligible task avail util nodeId = false then best
    else
      match better nodeId cpus best.2 with
      | some value => (some nodeId, value)
      | none => best) (none, start)).1

/-- `f64::MAX` -/
def f64Max : U := Floating.ofDecimal ((2 ^ 53 - 1) * 2 ^ 971) 0

/-- `find_best_node_least_loaded` -/
def findBestNodeLeastLoaded (task : Task) (avail : AvailCpus) (util : CpuUtil U) : Option Text :=
  G.findBestNode task avail util (fun nodeId _ lowestUtil =>
    let nodeUtil := calculateNodeUtilization util nodeId
    if Floating.lt nodeUtil lowestUtil then some nodeUtil else none) f64Max

/-- `find_best_node_best_fit_decreasing`; a target node is tried first. -/
def findBestNodeBestFitDecreasing (task : Task) (avail : AvailCpus) (util : CpuUtil U) :
    Option Text :=
  if task.targetNode ≠ [] ∧ G.eligible task avail util task.targetNode then some task.targetNode
  else
    G.findBestNode task avail util (fun nodeId cpus bestAfter =>
      let after := Floating.add (calculateNodeUtilization util nodeId) task.utilization
      if Floating.le after (Floating.ofNat cpus.length) ∧ Floating.lt bestAfter after then
        some after
      else none) (Floating.ofDecimal (-1) 0)

/-! ### Algorithms -/

/-- The tasks an algorithm has been through, and the names of those it has skipped. -/
structure Pass (U : Type) where
  tasks : List Task
  util : CpuUtil U
  skipped : List Text

namespace Pass

/-- The next task gets a node and a CPU. -/
def place (pass : Pass U) (task : Task) (nodeId : Text) (cpu : UInt32) : Pass U :=
  let (task, util) := assignCpuToTask task nodeId cpu pass.util
  { pass with tasks := pass.tasks ++ [task], util := util }

/-- The next task is left as it is. -/
def skip (pass : Pass U) (task : Task) : Pass U :=
  { pass with tasks := pass.tasks ++ [task], skipped := pass.skipped ++ [task.name] }

end Pass

/-- A task under `target_node_priority`. -/
def placeOnTargetNode (avail : AvailCpus) (pass : Pass U) (task : Task) :
    Except SchedulerError (Pass U) :=
  if task.workloadId = [] then .error (.missingWorkloadId task.name)
  else if task.targetNode = [] then .error (.missingTargetNode task.name)
  else
    match G.checkAdmission task task.targetNode avail with
    | .error reason => .error (.admissionRejected task.name task.targetNode reason)
    | .ok () =>
      match findBestCpuForTask G.stdSort task task.targetNode avail pass.util with
      | some cpu => .ok (pass.place task task.targetNode cpu)
      | none => .error (.admissionRejected task.name task.targetNode .noAvailableCpu)

/-- A task under the other algorithms, with their choices of a node. -/
def placeOnBestNode (bestNode : Task → AvailCpus → CpuUtil U → Option Text) (avail : AvailCpus)
    (pass : Pass U) (task : Task) : Except SchedulerError (Pass U) :=
  match bestNode task avail pass.util with
  | none => .error (.noSchedulableNode task.name)
  | some nodeId =>
    match findBestCpuForTask G.stdSort task nodeId avail pass.util with
    | some cpu => .ok (pass.place task nodeId cpu)
    | none => .ok (pass.skip task)

def scheduleTargetNodePriority (tasks : List Task) (avail : AvailCpus) (util : CpuUtil U) :
    Except SchedulerError (Pass U) :=
  tasks.foldlM (G.placeOnTargetNode avail) ⟨[], util, []⟩

def scheduleLeastLoaded (tasks : List Task) (avail : AvailCpus) (util : CpuUtil U) :
    Except SchedulerError (Pass U) :=
  tasks.foldlM (G.placeOnBestNode G.findBestNodeLeastLoaded avail) ⟨[], util, []⟩

/-- `schedule_best_fit_decreasing`: the tasks with the largest runtimes first. -/
def scheduleBestFitDecreasing (tasks : List Task) (avail : AvailCpus) (util : CpuUtil U) :
    Except SchedulerError (Pass U) :=
  (G.stdSort.sort (fun a b => b.runtimeUs < a.runtimeUs) tasks).foldlM
    (G.placeOnBestNode G.findBestNodeBestFitDecreasing avail) ⟨[], util, []⟩

/-- `schedule` up to the end of the algorithm. -/
def assign (tasks : List Task) (algorithm : Text) : Except SchedulerError (Pass U) :=
  if tasks = [] then .error .noTasks
  else if G.nodeConfigManager.loaded = false then .error .configNotLoaded
  else
    let avail := G.buildAvailableCpus
    let util := buildCpuUtilization avail
    if algorithm = text "target_node_priority" then G.scheduleTargetNodePriority tasks avail util
    else if algorithm = text "least_loaded" then G.scheduleLeastLoaded tasks avail util
    else if algorithm = text "best_fit_decreasing" then
      G.scheduleBestFitDecreasing tasks avail util
    else .error (.unknownAlgorithm algorithm)

/-- `build_sched_map`; a task without a node or CPU is dropped. -/
def buildSchedMap (tasks : List Task) : NodeSchedMap SchedTask :=
  tasks.foldl (fun map task =>
    if task.isAssigned then
      map.insert task.assignedNode (map.getD task.assignedNode [] ++ [.fromTask task])
    else map) ∅

def schedule (tasks : List Task) (algorithm : Text) :
    Except SchedulerError (NodeSchedMap SchedTask) :=
  (G.assign tasks algorithm).map fun pass => buildSchedMap pass.tasks

end GlobalScheduler

end Timpani.Rust
