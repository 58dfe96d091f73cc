import Timpani.Bpf.Callbacks
import Timpani.Scheduler.Types

/-!
# Applying a schedule table on a node

When a table arrives, Timpani-N evicts the workloads that are gone, deletes all slots and servers it
remembers, and walks through the new table: it looks up the process of every task and writes the
task's metadata, slot or server into the BPF maps.  A task that is not found, or a map that is full,
is recorded as an error and the walk goes on.

The processes found and the clock readings are arguments, by the position of the task in the table.
The parts of the daemon that only pass the table on (fault limits, the timer's slot list) are left
out.

* `tableCallback` : the whole callback;
* `lookup_cbsMap_tableCallback` : the server of the last CBS entry with a given key, when everything
  succeeds.
-/

namespace Timpani

/-- The state of the daemon that survives a callback. -/
structure Node where
  bpf : BpfState
  workloadToPids : Std.ExtTreeMap Text (List UInt32)
  workloadToSlots : Std.ExtTreeMap Text (List TtSlotKey)
  workloadToHash : Std.ExtTreeMap Text UInt64
  workloadToCbsKeys : Std.ExtTreeMap Text (List UInt64)
  workloadHashToId : Std.ExtTreeMap UInt64 Text

/-- The callback in progress. -/
structure Applying where
  node : Node
  slotIdx : UInt32
  /-- The parts of `apply_error`. -/
  errors : List Text

/-- One thing to do in the walk through a table. -/
inductive Item where
  | tt (slot : TtSlot) (layer : UInt8)
  | cbs (entry : CbsConfig) (layer : UInt8) (partitionCpu : UInt32)
  /-- The partition of the CBS entries that follow has no CPU. -/
  | noCpu (partitionId : Text)

/-- The walk through a partition. -/
def PartitionConfig.items (p : PartitionConfig) : List Item :=
  let cpu := p.cpuset.bind (·.cpus.head?)
  p.layers.flatMap fun l =>
    let layer := l.layerIndex.toUInt32.toUInt8
    l.ttSlots.map (.tt · layer) ++
      (if cpu.isNone && !l.cbsEntries.isEmpty then [.noCpu p.partitionId] else []) ++
      l.cbsEntries.map (.cbs · layer (cpu.getD 0))

/-- The walk through a table. -/
def HierarchicalScheduleTable.items (t : HierarchicalScheduleTable) : List Item :=
  t.partitions.flatMap (·.items)

/-- The key of the server of an entry. -/
def CbsConfig.key (e : CbsConfig) : UInt64 := e.workloadIdHash ^^^ e.taskIdHash

/-- The server of an entry at the time of its registration. -/
def CbsConfig.initial (e : CbsConfig) (now : UInt64) : CbsState where
  taskIdHash := e.taskIdHash
  budgetUs := e.budgetUs
  periodUs := e.periodUs
  remainingUs := e.budgetUs
  execStartNs := 0
  replenishAtNs := if 0 < e.periodUs then now + e.periodUs.toUInt64 * 1000 else 0
  deadlineUs := e.deadlineUs

namespace Applying

/-- `record_apply_error` -/
def recordApplyError (a : Applying) (error : Text) : Applying :=
  { a with errors := a.errors ++ [error] }

/-- Write the metadata of a process. -/
def updateTaskMeta (a : Applying) (pid : UInt32) (r : Registration) : Applying × Bool :=
  let (metas, ok) := a.node.bpf.taskMetaMap.update pid r.toMeta
  ({ a with node := { a.node with bpf := { a.node.bpf with taskMetaMap := metas } } }, ok)

/-- Append to the list of a key. -/
def push {α : Type} (m : Std.ExtTreeMap Text (List α)) (k : Text) (x : α) :
    Std.ExtTreeMap Text (List α) :=
  m.insert k (m.getD k [] ++ [x])

/-- Register the process of a TT slot. -/
def registerTt (a : Applying) (pid : Option UInt32) (slot : TtSlot) (layer : UInt8) : Applying :=
  match pid with
  | none => a.recordApplyError (text "TT task not found: " ++ slot.taskId)
  | some pid =>
    let (a, ok) := a.updateTaskMeta pid
      ⟨slot.workloadIdHash, slot.taskIdHash, slot.cpu, slot.durationUs, .tt, layer⟩
    if ok then a else a.recordApplyError (text "TT task_meta update failed: " ++ slot.taskId)

/-- Write a TT slot to `tt_table_map`. -/
def writeTtSlot (a : Applying) (slot : TtSlot) : Applying :=
  let (slots, ok) := a.node.bpf.ttTableMap.update ⟨slot.cpu, a.slotIdx⟩
    ⟨slot.workloadIdHash, slot.taskIdHash, slot.offsetUs, slot.durationUs, slot.deadlineUs, slot.cpu⟩
  let a := { a with node := { a.node with bpf := { a.node.bpf with ttTableMap := slots } } }
  if ok then a else a.recordApplyError (text "TT slot update failed: " ++ slot.taskId)

/-- Remember what was written for a TT slot whose process was found. -/
def trackTt (a : Applying) (pid : Option UInt32) (slot : TtSlot) : Applying :=
  match pid with
  | none => a
  | some pid =>
    { a with node := { a.node with
      workloadToPids := push a.node.workloadToPids slot.workloadId pid
      workloadToSlots := push a.node.workloadToSlots slot.workloadId ⟨slot.cpu, a.slotIdx⟩
      workloadToHash := a.node.workloadToHash.insert slot.workloadId slot.workloadIdHash
      workloadHashToId := a.node.workloadHashToId.insert slot.workloadIdHash slot.workloadId } }

/-- A TT slot.  It is written even if its process is not found. -/
def applyTt (a : Applying) (pid : Option UInt32) (slot : TtSlot) (layer : UInt8) : Applying :=
  let a := ((a.registerTt pid slot layer).writeTtSlot slot).trackTt pid slot
  { a with slotIdx := a.slotIdx + 1 }

/-- Register a CBS entry. -/
def applyCbs (a : Applying) (pid : Option UInt32) (now : UInt64) (e : CbsConfig) (layer : UInt8)
    (partitionCpu : UInt32) : Applying :=
  match pid with
  | none => a.recordApplyError (text "CBS task not found: " ++ e.taskId)
  | some pid =>
    let (a, ok) := a.updateTaskMeta pid
      ⟨e.workloadIdHash, e.taskIdHash, partitionCpu, 0, .cbs, layer⟩
    if ok then
      let (servers, ok) := a.node.bpf.cbsMap.update e.key (e.initial now)
      let a := { a with node := { a.node with bpf := { a.node.bpf with cbsMap := servers } } }
      if ok then
        { a with node := { a.node with
          workloadToPids := push a.node.workloadToPids e.workloadId pid
          workloadToCbsKeys := push a.node.workloadToCbsKeys e.workloadId e.key
          workloadToHash := a.node.workloadToHash.insert e.workloadId e.workloadIdHash
          workloadHashToId := a.node.workloadHashToId.insert e.workloadIdHash e.workloadId } }
      else a.recordApplyError (text "CBS state update failed: " ++ e.taskId)
    else a.recordApplyError (text "CBS task_meta update failed: " ++ e.taskId)

/-- One item; `pid` is the process found for its task. -/
def applyItem (a : Applying) (pid : Option UInt32) (now : UInt64) : Item → Applying
  | .tt slot layer => a.applyTt pid slot layer
  | .cbs e layer partitionCpu => a.applyCbs pid now e layer partitionCpu
  | .noCpu partitionId => a.recordApplyError (text "CBS partition has empty cpuset: " ++ partitionId)

/-- The walk through a table. -/
def walk (findPid : ℕ → Option UInt32) (clock : ℕ → UInt64) (a : Applying)
    (items : List (Item × ℕ)) : Applying :=
  items.foldl (fun a x => a.applyItem (findPid x.2) (clock x.2) x.1) a

end Applying

namespace Node

/-- Evict the workloads the table does not have, and delete all slots and servers. -/
def evict (n : Node) (table : HierarchicalScheduleTable) : Node :=
  let newWorkloads := (table.pairs.map Prod.fst).filter (· ≠ [])
  let gone := (n.workloadToPids.toList.filter fun (wid, _) => wid ∉ newWorkloads).flatMap Prod.snd
  let bpf := { n.bpf with
    taskMetaMap := gone.foldl (fun m pid => (m.delete pid).1) n.bpf.taskMetaMap
    ttTableMap := (n.workloadToSlots.toList.flatMap Prod.snd).foldl (fun m k => (m.delete k).1)
      n.bpf.ttTableMap
    cbsMap := (n.workloadToCbsKeys.toList.flatMap Prod.snd).foldl (fun m k => (m.delete k).1)
      n.bpf.cbsMap }
  ⟨bpf, ∅, ∅, ∅, ∅, ∅⟩

/-- `table_callback`: the node after it, and the errors it reports. -/
def tableCallback (n : Node) (findPid : ℕ → Option UInt32) (clock : ℕ → UInt64)
    (table : HierarchicalScheduleTable) : Node × List Text :=
  let a := Applying.walk findPid clock ⟨n.evict table, 0, []⟩ table.items.zipIdx
  (a.node, a.errors)

end Node

/-! ### The servers after a table -/

namespace Applying

variable {a : Applying} {pid : Option UInt32} {now : UInt64}

/-- What every part of the walk guarantees: errors are only added, and without one the servers are
as before. -/
def Keeps (a a' : Applying) : Prop :=
  a.errors <+: a'.errors ∧ a'.node.bpf.cbsMap = a.node.bpf.cbsMap

theorem Keeps.trans {a a' a'' : Applying} (h : Keeps a a') (h' : Keeps a' a'') : Keeps a a'' :=
  ⟨h.1.trans h'.1, h'.2.trans h.2⟩

theorem keeps_recordApplyError (error : Text) : Keeps a (a.recordApplyError error) :=
  ⟨List.prefix_append _ _, rfl⟩

theorem keeps_updateTaskMeta {p : UInt32} {r : Registration} : Keeps a (a.updateTaskMeta p r).1 :=
  ⟨List.prefix_rfl, rfl⟩

theorem keeps_applyTt {slot : TtSlot} {layer : UInt8} : Keeps a (a.applyTt pid slot layer) := by
  have hregister : Keeps a (a.registerTt pid slot layer) := by
    unfold registerTt
    split
    · exact keeps_recordApplyError _
    · dsimp only
      split_ifs
      · exact keeps_updateTaskMeta
      · exact keeps_updateTaskMeta.trans (keeps_recordApplyError _)
  have hwrite : ∀ a : Applying, Keeps a (a.writeTtSlot slot) := by
    intro a
    unfold writeTtSlot
    dsimp only
    split_ifs
    · exact ⟨List.prefix_rfl, rfl⟩
    · exact ⟨List.prefix_append _ _, rfl⟩
  have htrack : ∀ a : Applying, Keeps a (a.trackTt pid slot) := by
    intro a
    unfold trackTt
    split <;> exact ⟨List.prefix_rfl, rfl⟩
  exact (hregister.trans (hwrite _)).trans (htrack _)

theorem applyCbs_cases {e : CbsConfig} {layer : UInt8} {cpu : UInt32} :
    a.errors <+: (a.applyCbs pid now e layer cpu).errors ∧
      ((a.applyCbs pid now e layer cpu).errors = [] →
        ∀ key, (a.applyCbs pid now e layer cpu).node.bpf.cbsMap.lookup key =
          if e.key = key then some (e.initial now) else a.node.bpf.cbsMap.lookup key) := by
  unfold applyCbs
  cases pid with
  | none => exact ⟨(keeps_recordApplyError _).1, fun h => absurd h (by simp [recordApplyError])⟩
  | some pid =>
    dsimp only
    split_ifs with hmeta hserver
    · refine ⟨List.prefix_rfl, fun _ key => ?_⟩
      dsimp only
      rw [BpfHash.lookup_update, hserver]
      simp only [and_true]
      rfl
    · exact ⟨List.prefix_append _ _, fun h => absurd h (by simp [recordApplyError])⟩
    · exact ⟨List.prefix_append _ _, fun h => absurd h (by simp [recordApplyError])⟩

theorem errors_prefix_applyItem (item : Item) :
    a.errors <+: (a.applyItem pid now item).errors := by
  cases item with
  | tt slot layer => exact keeps_applyTt.1
  | cbs e layer cpu => exact applyCbs_cases.1
  | noCpu partitionId => exact (keeps_recordApplyError _).1

variable {findPid : ℕ → Option UInt32} {clock : ℕ → UInt64}

theorem errors_prefix_walk (items : List (Item × ℕ)) :
    a.errors <+: (walk findPid clock a items).errors := by
  induction items generalizing a with
  | nil => exact List.prefix_rfl
  | cons x items ih => exact (errors_prefix_applyItem x.1).trans ih

/-- **The server of a key** after a walk without errors, if all entries with that key are the same:
it is there before, or an entry writes it. -/
theorem lookup_cbsMap_walk {e : CbsConfig} {items : List (Item × ℕ)}
    (h : (walk findPid clock a items).errors = [])
    (hsame : ∀ e' layer cpu i, (Item.cbs e' layer cpu, i) ∈ items → e'.key = e.key → e' = e)
    (hsome : (∃ i, a.node.bpf.cbsMap.lookup e.key = some (e.initial (clock i))) ∨
      ∃ layer cpu i, (Item.cbs e layer cpu, i) ∈ items) :
    ∃ i, (walk findPid clock a items).node.bpf.cbsMap.lookup e.key =
      some (e.initial (clock i)) := by
  induction items generalizing a with
  | nil =>
    rcases hsome with hfirst | ⟨_, _, _, hmem⟩
    · exact hfirst
    · cases hmem
  | cons x items ih =>
    obtain ⟨item, i⟩ := x
    change (walk findPid clock (a.applyItem (findPid i) (clock i) item) items).errors = [] at h
    have herr : (a.applyItem (findPid i) (clock i) item).errors = [] :=
      List.prefix_nil.1 (h ▸ errors_prefix_walk items)
    refine ih h (fun e' layer cpu j hmem => hsame e' layer cpu j (List.mem_cons_of_mem _ hmem)) ?_
    -- the item writes the server of `e`, or leaves it as it is
    rcases hsome with ⟨j, hj⟩ | ⟨layer, cpu, j, hmem⟩
    · refine Or.inl ?_
      cases item with
      | tt slot layer => exact ⟨j, by rw [← hj]; exact congrArg (·.lookup e.key) keeps_applyTt.2⟩
      | noCpu partitionId => exact ⟨j, hj⟩
      | cbs e' layer cpu =>
        have hlookup := applyCbs_cases.2 herr e.key
        change ∃ i', (a.applyCbs (findPid i) (clock i) e' layer cpu).node.bpf.cbsMap.lookup e.key = _
        rw [hlookup]
        split_ifs with hk
        · obtain rfl := hsame e' layer cpu i List.mem_cons_self hk
          exact ⟨i, rfl⟩
        · exact ⟨j, hj⟩
    · rcases List.mem_cons.1 hmem with heq | hmem
      · cases heq
        refine Or.inl ⟨i, ?_⟩
        change (a.applyCbs (findPid i) (clock i) e layer cpu).node.bpf.cbsMap.lookup e.key = _
        rw [applyCbs_cases.2 herr e.key, if_pos rfl]
      · exact Or.inr ⟨layer, cpu, j, hmem⟩

end Applying

theorem mem_items_iff {t : HierarchicalScheduleTable} {e : CbsConfig} :
    (∃ layer cpu, Item.cbs e layer cpu ∈ t.items) ↔ e ∈ t.cbsEntries := by
  simp only [HierarchicalScheduleTable.items, HierarchicalScheduleTable.cbsEntries,
    HierarchicalScheduleTable.layers, PartitionConfig.items, List.mem_flatMap, List.mem_append,
    List.mem_map, reduceCtorEq, and_false, exists_false, false_or, Item.cbs.injEq]
  constructor
  · rintro ⟨layer, cpu, p, hp, l, hl, h | ⟨e', he', rfl, -⟩⟩
    · split_ifs at h <;> simp at h
    · exact ⟨l, ⟨p, hp, hl⟩, he'⟩
  · rintro ⟨l, ⟨p, hp, hl⟩, he⟩
    exact ⟨_, _, p, hp, l, hl, Or.inr ⟨e, he, rfl, rfl, rfl⟩⟩

/-- The server of a CBS entry after a table was applied without errors, if no other entry has its
key. -/
theorem lookup_cbsMap_tableCallback {n : Node} {findPid : ℕ → Option UInt32} {clock : ℕ → UInt64}
    {t : HierarchicalScheduleTable} {e : CbsConfig}
    (h : (n.tableCallback findPid clock t).2 = []) (he : e ∈ t.cbsEntries)
    (hsame : ∀ e' ∈ t.cbsEntries, e'.key = e.key → e' = e) :
    ∃ i, (n.tableCallback findPid clock t).1.bpf.cbsMap.lookup e.key =
      some (e.initial (clock i)) := by
  refine Applying.lookup_cbsMap_walk h (fun e' layer cpu i hmem => ?_) (Or.inr ?_)
  · exact hsame e' (mem_items_iff.1 ⟨layer, cpu, List.fst_mem_of_mem_zipIdx hmem⟩)
  · obtain ⟨layer, cpu, hmem⟩ := mem_items_iff.2 he
    obtain ⟨i, hi⟩ := List.mem_iff_getElem?.1 hmem
    exact ⟨layer, cpu, i, List.mem_zipIdx_iff_getElem?.2 hi⟩

end Timpani
