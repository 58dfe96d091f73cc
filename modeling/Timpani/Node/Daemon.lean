import Timpani.Cpp.Parse
import Timpani.Cpp.Sort
import Timpani.Node.TableApply
import Timpani.Run.Basic

/-!
# The daemon between two tables

Timpani-N keeps two things besides the BPF maps: the slots TimerMaster fires, and what it remembers
of the table it applied, by the name of the workload: the processes, slot keys and server keys that
were written, and the hash.  The next table, or a STOP for a workload, deletes from the maps what is
remembered, so whatever was written and not remembered stays.

* `recoveryCallback` : a STOP; the workload may be named by its hash;
* `Daemon.machine` : the runs of tables and STOPs, with any processes found;
* `Remembered` : everything in the maps is remembered; a STOP keeps this.
-/

namespace Timpani

/-! ### TimerMaster -/

namespace TimerMaster

structure SlotEntry where
  cpu : UInt32
  slotIdx : UInt32
  offsetNs : UInt64
  durationNs : UInt64
  taskIdHash : UInt64
  workloadIdHash : UInt64
  taskName : Text
  deriving DecidableEq, Repr

/-- `set_schedule_table` -/
def setScheduleTable (stdSort : StdSort) (slots : List SlotEntry) : List SlotEntry :=
  stdSort.sort (fun a b => a.offsetNs < b.offsetNs) slots

/-- `remove_workload` -/
def removeWorkload (workloadIdHash : UInt64) (slots : List SlotEntry) : List SlotEntry :=
  slots.filter fun e => e.workloadIdHash ≠ workloadIdHash

end TimerMaster

open TimerMaster (SlotEntry)

/-- All TT slots, in order. -/
def HierarchicalScheduleTable.ttSlots (t : HierarchicalScheduleTable) : List TtSlot :=
  t.layers.flatMap (·.ttSlots)

/-- The entry of the slot that is number `i` of the table. -/
def TtSlot.toEntry (slot : TtSlot) (i : ℕ) : SlotEntry where
  cpu := slot.cpu
  slotIdx := .ofNat i
  offsetNs := slot.offsetUs.toUInt64 * 1000
  durationNs := slot.durationUs.toUInt64 * 1000
  taskIdHash := slot.taskIdHash
  workloadIdHash := slot.workloadIdHash
  taskName := slot.taskId

theorem toNat_toUInt64_mul (x : UInt32) : (x.toUInt64 * 1000).toNat = x.toNat * 1000 := by
  have := x.toNat_lt
  rw [UInt64.toNat_mul, UInt32.toNat_toUInt64]
  simp only [UInt64.reduceToNat]
  omega

/-- The slots `table_callback` collects for TimerMaster. -/
def HierarchicalScheduleTable.slotEntries (t : HierarchicalScheduleTable) : List SlotEntry :=
  t.ttSlots.zipIdx.map fun (slot, i) => slot.toEntry i

/-! ### Recovery signals -/

/-- The loop over `workload_hash_to_id`; `none` if `std::stoull` throws. -/
def resolveHash (wid : Text) : List (UInt64 × Text) → Option Text
  | [] => some wid
  | (hash, name) :: rest =>
    if natText hash.toNat = wid then some name
    else if text "0x" <+: wid then
      match stoull16 wid with
      | .error _ => none
      | .ok value => if value = hash then some name else resolveHash wid rest
    else resolveHash wid rest

/-- The workload a recovery signal is about: it may name it by its hash. -/
def Node.resolve (n : Node) (wid : Text) : Option Text :=
  if wid ∈ n.workloadToPids then some wid else resolveHash wid n.workloadHashToId.toList

/-- Delete what is remembered of a workload from the maps, and forget it. -/
def Node.stopWorkload (n : Node) (wid : Text) : Node :=
  { n with
    bpf := { n.bpf with
      taskMetaMap := (n.workloadToPids.getD wid []).foldl (fun m pid => (m.delete pid).1)
        n.bpf.taskMetaMap
      ttTableMap := (n.workloadToSlots.getD wid []).foldl (fun m k => (m.delete k).1) n.bpf.ttTableMap
      cbsMap := (n.workloadToCbsKeys.getD wid []).foldl (fun m k => (m.delete k).1) n.bpf.cbsMap }
    workloadToPids := n.workloadToPids.erase wid
    workloadToSlots := n.workloadToSlots.erase wid
    workloadToHash := n.workloadToHash.erase wid
    workloadToCbsKeys := n.workloadToCbsKeys.erase wid }

/-- The state of the daemon, with the slots of TimerMaster and the table it was last given. -/
structure Daemon where
  node : Node
  slotTable : List SlotEntry
  lastTable : Option HierarchicalScheduleTable

namespace Daemon

/-- `recovery_callback` with `ACTION_STOP`; the daemon dies of an exception. -/
def recoveryCallback (d : Daemon) (wid : Text) : Option Daemon := do
  let wid ← d.node.resolve wid
  return { d with
    node := d.node.stopWorkload wid
    slotTable := match d.node.workloadToHash[wid]? with
      | some hash => TimerMaster.removeWorkload hash d.slotTable
      | none => d.slotTable }

/-- `table_callback`.  The slots of evicted workloads are removed from TimerMaster as well, but then
its table is replaced. -/
def tableCallback (stdSort : StdSort) (d : Daemon) (findPid : ℕ → Option UInt32)
    (clock : ℕ → UInt64) (table : HierarchicalScheduleTable) : Daemon where
  node := (d.node.tableCallback findPid clock table).1
  slotTable := TimerMaster.setScheduleTable stdSort table.slotEntries
  lastTable := some table

inductive Action where
  | table (findPid : ℕ → Option UInt32) (clock : ℕ → UInt64) (table : HierarchicalScheduleTable)
  | stop (wid : Text)

/-- The daemon has just started. -/
structure Fresh (d : Daemon) : Prop where
  ttTableMap : d.node.bpf.ttTableMap = .empty
  cbsMap : d.node.bpf.cbsMap = .empty
  taskMetaMap : d.node.bpf.taskMetaMap = .empty
  workloadToPids : d.node.workloadToPids = ∅
  workloadToSlots : d.node.workloadToSlots = ∅
  workloadToHash : d.node.workloadToHash = ∅
  workloadToCbsKeys : d.node.workloadToCbsKeys = ∅
  slotTable : d.slotTable = []
  lastTable : d.lastTable = none

/-- Any history of tables and STOPs. -/
def machine (stdSort : StdSort) : Machine Daemon Action where
  init := Fresh
  next d
    | .table findPid clock table => some (d.tableCallback stdSort findPid clock table)
    | .stop wid => d.recoveryCallback wid

end Daemon

/-! ### What is remembered -/

/-- Something is remembered for a workload. -/
def Tracks {α : Type} (m : Std.ExtTreeMap Text (List α)) (wid : Text) (x : α) : Prop :=
  x ∈ m.getD wid []

section Tracks

variable {α : Type} {m : Std.ExtTreeMap Text (List α)} {wid wid' : Text} {x y : α}

@[simp] theorem not_tracks_empty : ¬ Tracks (∅ : Std.ExtTreeMap Text (List α)) wid x := by
  simp [Tracks]

theorem tracks_push : Tracks (Applying.push m wid x) wid' y ↔
    Tracks m wid' y ∨ wid = wid' ∧ x = y := by
  simp only [Tracks, Applying.push, Std.ExtTreeMap.getD_insert, Std.LawfulEqOrd.compare_eq_iff_eq]
  split_ifs with h
  · subst h
    simp [eq_comm]
  · simp [h]

theorem tracks_erase : Tracks (m.erase wid) wid' y ↔ wid ≠ wid' ∧ Tracks m wid' y := by
  simp only [Tracks, Std.ExtTreeMap.getD_erase, Std.LawfulEqOrd.compare_eq_iff_eq]
  split_ifs with h <;> simp [h]

theorem mem_flatMap_toList {p : Text → Bool} :
    x ∈ (m.toList.filter fun e => p e.1).flatMap Prod.snd ↔ ∃ wid, p wid ∧ Tracks m wid x := by
  simp only [List.mem_flatMap, List.mem_filter, Prod.exists,
    Std.ExtTreeMap.mem_toList_iff_getElem?_eq_some, Tracks, Std.ExtTreeMap.getD_eq_getD_getElem?]
  constructor
  · rintro ⟨wid, xs, ⟨hxs, hp⟩, hx⟩
    exact ⟨wid, hp, by rwa [hxs]⟩
  · rintro ⟨wid, hp, hx⟩
    cases hxs : m[wid]? with
    | none => simp [hxs] at hx
    | some xs => exact ⟨wid, xs, ⟨hxs, hp⟩, by simpa [hxs] using hx⟩

end Tracks

/-- Everything in the maps is remembered for some workload; `Marks` relates that workload to the
hash in the entry.  The hash of a server is in its key, mixed with that of the task. -/
structure Remembered (Marks : Text → UInt64 → Prop) (n : Node) : Prop where
  slots : ∀ key slot, n.bpf.ttTableMap.lookup key = some slot →
    ∃ wid, Marks wid slot.workloadIdHash ∧ Tracks n.workloadToSlots wid key
  servers : ∀ key c, n.bpf.cbsMap.lookup key = some c →
    ∃ wid, Marks wid (key ^^^ c.taskIdHash) ∧ Tracks n.workloadToCbsKeys wid key
  metas : ∀ pid m, n.bpf.taskMetaMap.lookup pid = some m →
    ∃ wid, Marks wid m.workloadIdHash ∧ Tracks n.workloadToPids wid pid

variable {Marks Marks' : Text → UInt64 → Prop} {n : Node} {wid : Text}

/-! ### After a STOP -/

namespace Node

theorem lookup_ttTableMap_stopWorkload {key : TtSlotKey} {slot : TtSlotBpf} :
    (n.stopWorkload wid).bpf.ttTableMap.lookup key = some slot ↔
      ¬ Tracks n.workloadToSlots wid key ∧ n.bpf.ttTableMap.lookup key = some slot := by
  simp only [stopWorkload, BpfHash.lookup_foldl_delete, Tracks]
  split_ifs with h <;> simp [h]

theorem lookup_cbsMap_stopWorkload {key : UInt64} {c : CbsState} :
    (n.stopWorkload wid).bpf.cbsMap.lookup key = some c ↔
      ¬ Tracks n.workloadToCbsKeys wid key ∧ n.bpf.cbsMap.lookup key = some c := by
  simp only [stopWorkload, BpfHash.lookup_foldl_delete, Tracks]
  split_ifs with h <;> simp [h]

theorem lookup_taskMetaMap_stopWorkload {pid : UInt32} {m : TaskMeta} :
    (n.stopWorkload wid).bpf.taskMetaMap.lookup pid = some m ↔
      ¬ Tracks n.workloadToPids wid pid ∧ n.bpf.taskMetaMap.lookup pid = some m := by
  simp only [stopWorkload, BpfHash.lookup_foldl_delete, Tracks]
  split_ifs with h <;> simp [h]

end Node

theorem Remembered.stopWorkload (h : Remembered Marks n) (wid : Text) :
    Remembered Marks (n.stopWorkload wid) where
  slots key slot hslot := by
    obtain ⟨hnot, hslot⟩ := Node.lookup_ttTableMap_stopWorkload.1 hslot
    obtain ⟨wid', hmark, htrack⟩ := h.slots key slot hslot
    exact ⟨wid', hmark, tracks_erase.2 ⟨fun heq => hnot (heq ▸ htrack), htrack⟩⟩
  servers key c hc := by
    obtain ⟨hnot, hc⟩ := Node.lookup_cbsMap_stopWorkload.1 hc
    obtain ⟨wid', hmark, htrack⟩ := h.servers key c hc
    exact ⟨wid', hmark, tracks_erase.2 ⟨fun heq => hnot (heq ▸ htrack), htrack⟩⟩
  metas pid m hm := by
    obtain ⟨hnot, hm⟩ := Node.lookup_taskMetaMap_stopWorkload.1 hm
    obtain ⟨wid', hmark, htrack⟩ := h.metas pid m hm
    exact ⟨wid', hmark, tracks_erase.2 ⟨fun heq => hnot (heq ▸ htrack), htrack⟩⟩

/-! ### The items of a table -/

namespace Item

/-- The TT slot of an item. -/
def slot? : Item → Option TtSlot
  | .tt slot _ => some slot
  | _ => none

/-- The CBS entry of an item. -/
def config? : Item → Option CbsConfig
  | .cbs e _ _ => some e
  | _ => none

/-- The workload of the task of an item, and its hash. -/
def workload? : Item → Option (Text × UInt64)
  | .tt slot _ => some (slot.workloadId, slot.workloadIdHash)
  | .cbs e _ _ => some (e.workloadId, e.workloadIdHash)
  | .noCpu _ => none

end Item

theorem filterMap_items {α : Type} {f : Item → Option α} {g : LayerConfig → List α}
    (hcpu : ∀ partitionId, f (.noCpu partitionId) = none)
    (hlayer : ∀ l layer cpu, l.ttSlots.filterMap (fun slot => f (.tt slot layer)) ++
      l.cbsEntries.filterMap (fun e => f (.cbs e layer cpu)) = g l)
    (t : HierarchicalScheduleTable) : t.items.filterMap f = t.layers.flatMap g := by
  simp only [HierarchicalScheduleTable.items, HierarchicalScheduleTable.layers,
    PartitionConfig.items, List.filterMap_flatMap, List.flatMap_assoc]
  refine List.flatMap_congr fun p _ => List.flatMap_congr fun l _ => ?_
  rw [List.filterMap_append, List.filterMap_append, List.filterMap_map, List.filterMap_map,
    ← hlayer l l.layerIndex.toUInt32.toUInt8 ((p.cpuset.bind (·.cpus.head?)).getD 0)]
  split_ifs <;> simp [hcpu]

theorem filterMap_slot_items (t : HierarchicalScheduleTable) :
    t.items.filterMap Item.slot? = t.ttSlots :=
  filterMap_items (fun _ => rfl) (by simp [Item.slot?]) t

theorem filterMap_config_items (t : HierarchicalScheduleTable) :
    t.items.filterMap Item.config? = t.cbsEntries :=
  filterMap_items (fun _ => rfl) (by simp [Item.config?]) t

end Timpani
