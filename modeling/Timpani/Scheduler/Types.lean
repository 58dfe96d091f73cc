import Timpani.Cpp.Text
import Mathlib.Algebra.Order.Ring.Nat
import Std.Data.ExtTreeMap

/-!
# Tasks, slots and schedule tables

The data the scheduling pipeline of Timpani-O passes along (`global_scheduler.h`,
`node_config.h`) and the protobuf messages it emits (`node_control.proto`).  Fields keep the
widths of the source: `uint32_t` is `UInt32`, `uint64_t` is `UInt64`; an `int` CPU number is an
integer.
-/

namespace Timpani

/-- The scheduling mechanism of a task. -/
inductive Mechanism where
  /-- L1 periodic: static time-triggered slots. -/
  | tt
  /-- L2 sporadic: constant bandwidth server. -/
  | cbs
  deriving DecidableEq, Repr

/-- A task as the service layer hands it to the scheduler. -/
structure ClassifiedTask where
  workloadId : Text
  taskId : Text
  mechanism : Mechanism
  periodUs : UInt32
  wcetUs : UInt32
  deadlineUs : UInt32
  maxDmiss : UInt32
  assignedCpu : ℤ
  deriving DecidableEq, Repr

/-- A TT task as the service layer hands it over, before a CPU is assigned. -/
def ClassifiedTask.periodic (workloadId taskId : Text) (periodUs wcetUs deadlineUs : UInt32) :
    ClassifiedTask where
  workloadId := workloadId
  taskId := taskId
  mechanism := .tt
  periodUs := periodUs
  wcetUs := wcetUs
  deadlineUs := deadlineUs
  maxDmiss := 0
  assignedCpu := -1

/-- A placed TT slot within a hyperperiod. -/
structure TtSlotPlacement where
  workloadId : Text
  taskId : Text
  offsetUs : UInt32
  durationUs : UInt32
  deadlineUs : UInt32
  maxDmiss : UInt32
  cpu : ℤ
  deriving DecidableEq, Repr

/-- A gap between TT slots. -/
structure GapInterval where
  startUs : UInt32
  endUs : UInt32
  lengthUs : UInt32
  deriving DecidableEq, Repr

/-- The CBS budget of one L2 task. -/
structure CbsAllocation where
  workloadId : Text
  taskId : Text
  budgetUs : UInt32
  periodUs : UInt32
  deadlineUs : UInt32
  maxDmiss : UInt32
  cpu : ℤ
  deriving DecidableEq, Repr

/-- Why a schedule is infeasible. -/
inductive InfeasibleReason where
  | nonHarmonicPeriod
  | ttSlotConflict
  | noCbsBandwidth
  | safetyCbsExceeded
  | noCbsCpu
  | utilizationExceeded
  deriving DecidableEq, Repr

/-- The error of a failed schedule generation; `cpu` is `-1` and `taskId` is empty when the error
is not specific to one. -/
structure InfeasibleError where
  reason : InfeasibleReason
  cpu : ℤ
  taskId : Text
  details : Text
  deriving DecidableEq, Repr

/-- The schedule of one CPU while the pipeline builds it; `U` is the type of utilisations. -/
structure PerCpuSchedule (U : Type) where
  cpuId : ℤ
  ttSlots : List TtSlotPlacement
  gaps : List GapInterval
  cbsAllocations : List CbsAllocation
  uTt : U
  uCbs : U

/-! ### Protobuf messages -/

inductive ExecutionModel where
  | timeTriggered
  | eventDriven
  | dataFlow
  deriving DecidableEq, Repr

structure TtSlot where
  workloadId : Text
  taskId : Text
  offsetUs : UInt32
  durationUs : UInt32
  deadlineUs : UInt32
  cpu : UInt32
  workloadIdHash : UInt64
  taskIdHash : UInt64
  currentLimit : UInt32
  deriving DecidableEq, Repr

/-- The (workload, task) pair of a slot. -/
def TtSlot.pair (s : TtSlot) : Text × Text := (s.workloadId, s.taskId)

structure CbsConfig where
  workloadId : Text
  taskId : Text
  budgetUs : UInt32
  periodUs : UInt32
  deadlineUs : UInt32
  workloadIdHash : UInt64
  taskIdHash : UInt64
  currentLimit : UInt32
  deriving DecidableEq, Repr

/-- The (workload, task) pair of an entry. -/
def CbsConfig.pair (e : CbsConfig) : Text × Text := (e.workloadId, e.taskId)

structure LayerConfig where
  layerIndex : Int32
  model : ExecutionModel
  ttSlots : List TtSlot
  cbsEntries : List CbsConfig
  deriving DecidableEq, Repr

structure CpuSetSpec where
  cpus : List UInt32
  isolated : Bool
  deriving DecidableEq, Repr

/-- The `cpuset` submessage may be absent. -/
structure PartitionConfig where
  partitionId : Text
  cpuset : Option CpuSetSpec
  layers : List LayerConfig
  deriving DecidableEq, Repr

/-- The table a node executes. -/
structure HierarchicalScheduleTable where
  tableId : Text
  nodeId : Text
  hyperperiodUs : UInt32
  epochNs : UInt64
  partitions : List PartitionConfig
  deriving DecidableEq, Repr

namespace HierarchicalScheduleTable

/-- The table with its epoch cleared: tables are compared ignoring `epoch_ns`. -/
def sansEpoch (t : HierarchicalScheduleTable) : HierarchicalScheduleTable := { t with epochNs := 0 }

/-- All layers of the table, in order. -/
def layers (t : HierarchicalScheduleTable) : List LayerConfig := t.partitions.flatMap (·.layers)

/-- All CBS entries, in order. -/
def cbsEntries (t : HierarchicalScheduleTable) : List CbsConfig := t.layers.flatMap (·.cbsEntries)

/-- The (workload, task) pairs a node executes under the table. -/
def pairs (t : HierarchicalScheduleTable) : List (Text × Text) :=
  t.layers.flatMap fun l =>
    l.ttSlots.map (fun s => (s.workloadId, s.taskId)) ++
      l.cbsEntries.map fun c => (c.workloadId, c.taskId)

@[simp] theorem pairs_sansEpoch (t : HierarchicalScheduleTable) : t.sansEpoch.pairs = t.pairs := rfl

theorem partitions_eq_of_sansEpoch_eq {t t' : HierarchicalScheduleTable}
    (h : t.sansEpoch = t'.sansEpoch) : t.partitions = t'.partitions := by
  have hp := congrArg partitions h
  exact hp

theorem pairs_eq_of_sansEpoch_eq {t t' : HierarchicalScheduleTable}
    (h : t.sansEpoch = t'.sansEpoch) : t.pairs = t'.pairs := by
  rw [← pairs_sansEpoch t, h, pairs_sansEpoch]

end HierarchicalScheduleTable

/-! ### Node configuration -/

/-- The configuration of one node. -/
structure NodeConfig where
  name : Text
  availableCpus : List ℤ
  maxMemoryMb : ℤ
  architecture : Text
  location : Text
  description : Text
  deriving DecidableEq, Repr

/-- The loaded node configurations, by node name. -/
structure NodeConfigManager where
  nodes : Std.ExtTreeMap Text NodeConfig
  loaded : Bool

namespace NodeConfigManager

/-- The CPUs configured for a node; a node without configuration has the default ones. -/
def getAvailableCpus (m : NodeConfigManager) (nodeName : Text) : List ℤ :=
  match m.nodes[nodeName]? with
  | some config => config.availableCpus
  | none => [0, 1, 2, 3]

end NodeConfigManager

end Timpani
