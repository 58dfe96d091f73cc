import Timpani.Rust.Hyperperiod

/-!
# The services of the Rust orchestrator

`AddSchedInfo` turns a request into a schedule and stores it; `GetSchedInfo` hands each node its
part.  A value goes through four representations on its way: `int32` microseconds of the request,
`u64` microseconds of a `Task`, nanoseconds of a `SchedTask`, and `int32` microseconds again.  The
CPU becomes a mask with one bit.

The store is the one of the sync barrier (`Barrier`), whose steps go on in between; the hyperperiods
of the stored workloads stand beside it.

* `SchedInfoService.addSchedInfo`, `NodeService.getSchedInfo` : the handlers;
* `Service.machine` : requests and the steps of the barrier, in any order.
-/

namespace Timpani.Rust

variable {U : Type} [Floating U]

/-! ### Messages -/

/-- `TaskInfo` of the request. -/
structure TaskInfo where
  name : Text
  priority : Int32
  policy : Int32
  cpuAffinity : UInt64
  period : Int32
  releaseTime : Int32
  runtime : Int32
  deadline : Int32
  nodeId : Text
  maxDmiss : Int32
  deriving DecidableEq, Repr

structure SchedInfo where
  workloadId : Text
  tasks : List TaskInfo
  deriving DecidableEq, Repr

structure ScheduledTask where
  name : Text
  schedPriority : Int32
  schedPolicy : Int32
  periodUs : Int32
  releaseTimeUs : Int32
  runtimeUs : Int32
  deadlineUs : Int32
  cpuAffinity : UInt64
  maxDmiss : Int32
  assignedNode : Text
  deriving DecidableEq, Repr

structure NodeSchedResponse where
  workloadId : Text
  hyperperiodUs : UInt64
  tasks : List ScheduledTask
  deriving DecidableEq, Repr

/-! ### Conversions -/

namespace SchedPolicy

def toLinuxInt : SchedPolicy → Int32
  | normal => 0
  | fifo => 1
  | roundRobin => 2

def fromProtoInt (v : Int32) : SchedPolicy :=
  if v = 1 then fifo else if v = 2 then roundRobin else normal

end SchedPolicy

def CpuAffinity.fromProto (v : UInt64) : CpuAffinity :=
  if v = 0 || v = 0xffffffffffffffff then .any else .pinned v

/-- `task_from_proto`; a negative time counts as zero. -/
def taskFromProto (workloadId : Text) (t : TaskInfo) : Task where
  name := t.name
  workloadId := workloadId
  targetNode := t.nodeId
  policy := .fromProtoInt t.policy
  priority := t.priority
  affinity := .fromProto t.cpuAffinity
  memoryMb := 0
  periodUs := UInt64.ofNat t.period.toNatClampNeg
  runtimeUs := UInt64.ofNat t.runtime.toNatClampNeg
  deadlineUs := UInt64.ofNat t.deadline.toNatClampNeg
  releaseTimeUs := UInt32.ofNat t.releaseTime.toNatClampNeg
  maxDmiss := t.maxDmiss
  assignedNode := []
  assignedCpu := none

/-- `1u64 << cpu`.  With a CPU beyond 63 it panics in a build with overflow checks; without them the
shift goes round. -/
def shiftOne (overflowChecks : Bool) (cpu : UInt32) : Option UInt64 :=
  if overflowChecks && 64 ≤ cpu then none else some (1 <<< cpu.toUInt64)

/-- `to_proto_task`; `none` if it panics. -/
def toProtoTask (overflowChecks : Bool) (t : SchedTask) : Option ScheduledTask :=
  (shiftOne overflowChecks t.assignedCpu).map fun cpuAffinity =>
    { name := t.name
      schedPriority := t.priority
      schedPolicy := t.policy.toLinuxInt
      periodUs := (t.periodNs / 1000).toUInt32.toInt32
      releaseTimeUs := t.releaseTimeUs
      runtimeUs := (t.runtimeNs / 1000).toUInt32.toInt32
      deadlineUs := (t.deadlineNs / 1000).toUInt32.toInt32
      cpuAffinity := cpuAffinity
      maxDmiss := t.maxDmiss
      assignedNode := t.assignedNode }

/-! ### Handlers -/

/-- The store, and the hyperperiods of the workloads in it. -/
structure Service where
  barrier : Barrier SchedTask
  hyperperiods : List HyperperiodInfo

/-- `add_sched_info`; the reply is its status. -/
def SchedInfoService.addSchedInfo (G : GlobalScheduler U) (s : Service) (req : SchedInfo) :
    Service × Int32 :=
  let tasks := req.tasks.map (taskFromProto req.workloadId)
  match (HyperperiodManager.new.calculateHyperperiod G.stdSort req.workloadId tasks).2 with
  | .error _ => (s, -1)
  | .ok hyperperiodInfo =>
    match G.schedule tasks (text "target_node_priority") with
    | .error _ => (s, -1)
    | .ok schedule =>
      let (barrier, status) := s.barrier.addSchedInfo req.workloadId (some schedule)
      ({ barrier := barrier, hyperperiods := s.hyperperiods ++ [hyperperiodInfo] }, status)

namespace Service

/-- The stored workload. -/
def stored (s : Service) : Option (WorkloadState SchedTask × HyperperiodInfo) :=
  s.barrier.stored.bind fun (_, ws) => s.hyperperiods.getLast?.map fun info => (ws, info)

end Service

/-- `get_sched_info`; `none` if it panics. -/
def NodeService.getSchedInfo (overflowChecks : Bool) (s : Service) (nodeId : Text) :
    Option (Except Status NodeSchedResponse) :=
  match s.stored with
  | none => some (.error ⟨.notFound, text "no workload has been scheduled yet"⟩)
  | some (ws, info) =>
    ((ws.schedule.getD nodeId []).mapM (toProtoTask overflowChecks)).map fun tasks =>
      .ok ⟨ws.workloadId, info.hyperperiodUs, tasks⟩

/-! ### Runs -/

namespace Service

/-- A request, or a step of the barrier that is not one. -/
inductive Action where
  | addSchedInfo (req : SchedInfo)
  | syncTimer (node : Text) (now : ℕ)
  | read (i : ℕ)
  | wake (i : ℕ)
  | timeout (i : ℕ)
  | expire (i : ℕ)

/-- The step of the barrier. -/
def Action.toBarrier : Action → Option (Barrier.Action SchedTask)
  | addSchedInfo _ => none
  | syncTimer node now => some (.syncTimer node now)
  | read i => some (.read i)
  | wake i => some (.wake i)
  | timeout i => some (.timeout i)
  | expire i => some (.expire i)

def next (G : GlobalScheduler U) (syncTimeoutSecs : ℕ) (s : Service) (a : Action) : Option Service :=
  match a with
  | .addSchedInfo req => some (SchedInfoService.addSchedInfo G s req).1
  | a => a.toBarrier.bind fun a =>
    (s.barrier.next syncTimeoutSecs a).map fun b => { s with barrier := b }

def machine (G : GlobalScheduler U) (syncTimeoutSecs : ℕ) : Machine Service Action where
  init s := s.barrier.workloads = [] ∧ s.barrier.calls = [] ∧ s.hyperperiods = []
  next := next G syncTimeoutSecs

end Service

end Timpani.Rust
