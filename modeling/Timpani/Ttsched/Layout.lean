import Timpani.Cpp.CString
import Timpani.Node.Daemon
import Mathlib.Data.List.FinRange

/-!
# The shared memory of TimerMaster

TimerMaster wakes the TT tasks through a shared memory object: every task has a slot there with its
name and a counter, on which it sleeps.  `set_schedule_table` publishes the tasks of a new table.
Tasks that stay keep their slots, new ones get the lowest free slots, and the names of tasks that
are gone are left behind.  `wake_task` increments the counter of one task.

Both are lists of single accesses (`ShmStep`), since the tasks read the memory while they run.  Both
hold `schedule_mutex_`, so their accesses do not mix.

* `publication` : the accesses of `set_schedule_table`;
* `Publisher.setScheduleTable`, `Publisher.wakeTask` : the two calls as a whole;
* `findTaskSlot` : the search of a client for its slot.
-/

namespace Timpani

namespace Ttsched

open TimerMaster (SlotEntry)

/-- `TIMPANI_MAX_TASKS` -/
abbrev maxTasks : ℕ := 32

/-- `TIMPANI_TTSCHED_MAGIC` -/
def magicWord : UInt32 := 0x54494D50

/-- `timpani_task_slot`; a name has 16 bytes. -/
structure TaskSlot where
  name : ℕ → UInt8
  counter : UInt32

/-- `timpani_ttsched_shm` -/
structure Shm where
  magic : UInt32
  nTasks : UInt32
  generation : UInt32
  tasks : Fin maxTasks → TaskSlot

namespace Shm

/-- Change one slot. -/
def modifyTask (shm : Shm) (i : Fin maxTasks) (f : TaskSlot → TaskSlot) : Shm :=
  { shm with tasks := Function.update shm.tasks i (f (shm.tasks i)) }

@[simp] theorem tasks_modifyTask_self (shm : Shm) (i : Fin maxTasks) (f : TaskSlot → TaskSlot) :
    (shm.modifyTask i f).tasks i = f (shm.tasks i) := Function.update_self ..

@[simp] theorem tasks_modifyTask_of_ne (shm : Shm) {i j : Fin maxTasks} (f : TaskSlot → TaskSlot)
    (h : j ≠ i) : (shm.modifyTask i f).tasks j = shm.tasks j := Function.update_of_ne h ..

end Shm

/-- `find_task_slot` -/
def findTaskSlot (shm : Shm) (name : ℕ → UInt8) : Option (Fin maxTasks) :=
  if shm.magic ≠ magicWord then none
  else (List.finRange maxTasks).find? fun i =>
    decide (i.val < shm.nTasks.toNat) && strncmp 15 (shm.tasks i).name name

/-! ### Single accesses -/

/-- An access of TimerMaster to the shared memory. -/
inductive ShmStep where
  | setMagic (v : UInt32)
  | addCounter (i : Fin maxTasks)
  | futexWake (i : Fin maxTasks) (waiters : ℕ)
  | setNameByte (i : Fin maxTasks) (k : ℕ) (b : UInt8)
  | setCounter (i : Fin maxTasks) (v : UInt32)
  | setNTasks (v : UInt32)
  | addGeneration
  deriving DecidableEq, Repr

namespace ShmStep

/-- The memory after an access; waking somebody up does not change it. -/
def apply (step : ShmStep) (shm : Shm) : Shm :=
  match step with
  | setMagic v => { shm with magic := v }
  | addCounter i => shm.modifyTask i fun t => { t with counter := t.counter + 1 }
  | futexWake _ _ => shm
  | setNameByte i k b => shm.modifyTask i fun t => { t with name := Function.update t.name k b }
  | setCounter i v => shm.modifyTask i fun t => { t with counter := v }
  | setNTasks v => { shm with nTasks := v }
  | addGeneration => { shm with generation := shm.generation + 1 }

end ShmStep

/-- The memory after a list of accesses. -/
def Shm.run (shm : Shm) (steps : List ShmStep) : Shm :=
  steps.foldl (fun shm step => step.apply shm) shm

@[simp] theorem Shm.run_append (shm : Shm) (steps steps' : List ShmStep) :
    shm.run (steps ++ steps') = (shm.run steps).run steps' := List.foldl_append

@[simp] theorem Shm.run_nil (shm : Shm) : shm.run [] = shm := rfl

@[simp] theorem Shm.run_cons (shm : Shm) (step : ShmStep) (steps : List ShmStep) :
    shm.run (step :: steps) = (step.apply shm).run steps := rfl

/-- `strncpy` of a name into a slot, and its terminator. -/
def writeName (i : Fin maxTasks) (name : Text) : List ShmStep :=
  (List.range 16).map fun k => .setNameByte i k (strncpy 15 name k)

/-! ### Publication -/

/-- The map `task_hash_to_shm_idx_`; an index is one of a slot. -/
abbrev ShmMapping := Std.ExtTreeMap UInt64 (Fin maxTasks)

/-- What the two passes over the table build up. -/
structure Allocation where
  taskHashToShmIdx : ShmMapping
  usedSlots : Fin maxTasks → Bool
  writes : List ShmStep

namespace Allocation

def empty : Allocation := ⟨∅, fun _ => false, []⟩

/-- Give a slot to the task of an entry; the counter of a new one is reset. -/
def assign (A : Allocation) (entry : SlotEntry) (idx : Fin maxTasks) (isNew : Bool) :
    Allocation where
  taskHashToShmIdx := A.taskHashToShmIdx.insert entry.taskIdHash idx
  usedSlots := Function.update A.usedSlots idx true
  writes := A.writes ++ writeName idx entry.taskName ++ if isNew then [.setCounter idx 0] else []

/-- First pass: tasks of the previous table keep their slots. -/
def keepStep (prevMapping : ShmMapping) (A : Allocation) (entry : SlotEntry) : Allocation :=
  if entry.taskIdHash ∈ A.taskHashToShmIdx then A
  else match prevMapping[entry.taskIdHash]? with
    | some idx => if A.usedSlots idx then A else A.assign entry idx false
    | none => A

/-- Second pass: the other tasks get the lowest free slots.  Once there is none left the loop ends,
and nothing more would happen in it. -/
def newStep (A : Allocation) (entry : SlotEntry) : Allocation :=
  if entry.taskIdHash ∈ A.taskHashToShmIdx then A
  else match (List.finRange maxTasks).find? (!A.usedSlots ·) with
    | some idx => A.assign entry idx true
    | none => A

end Allocation

/-- Both passes. -/
def allocate (prevMapping : ShmMapping) (slotTable : List SlotEntry) : Allocation :=
  slotTable.foldl Allocation.newStep
    (slotTable.foldl (Allocation.keepStep prevMapping) Allocation.empty)

/-- One more than the highest index in use. -/
def totalSlots (mapping : ShmMapping) : ℕ :=
  mapping.toList.foldl (fun total kv => if kv.2.val + 1 > total then kv.2.val + 1 else total) 0

/-- The accesses of `set_schedule_table`. -/
def publication (prevMapping : ShmMapping) (slotTable : List SlotEntry) : List ShmStep :=
  let A := allocate prevMapping slotTable
  .setMagic 0 ::
    (List.finRange maxTasks).flatMap (fun i => [.addCounter i, .futexWake i (2 ^ 31 - 1)]) ++
    A.writes ++
    [.setNTasks (UInt32.ofNat (totalSlots A.taskHashToShmIdx)), .addGeneration, .setMagic magicWord]

/-! ### The calls -/

/-- What TimerMaster keeps of the shared memory. -/
structure Publisher where
  shm : Shm
  taskHashToShmIdx : ShmMapping

namespace Publisher

/-- The constructor of TimerMaster, on an object that may have been left behind. -/
def new (shm : Shm) : Publisher where
  shm := { shm with magic := 0, nTasks := 0, generation := 1 }
  taskHashToShmIdx := ∅

/-- `set_schedule_table`, which sorts the table first. -/
def setScheduleTable (stdSort : StdSort) (p : Publisher) (slots : List SlotEntry) : Publisher :=
  let slotTable := TimerMaster.setScheduleTable stdSort slots
  { shm := p.shm.run (publication p.taskHashToShmIdx slotTable)
    taskHashToShmIdx := (allocate p.taskHashToShmIdx slotTable).taskHashToShmIdx }

/-- The accesses of `wake_task` to a slot. -/
def wakeSteps (idx : Fin maxTasks) : List ShmStep := [.addCounter idx, .futexWake idx 1]

/-- `wake_task` -/
def wakeTask (p : Publisher) (taskIdHash : UInt64) : Publisher :=
  match p.taskHashToShmIdx[taskIdHash]? with
  | some idx => { p with shm := p.shm.run (wakeSteps idx) }
  | none => p

end Publisher

end Ttsched

end Timpani
