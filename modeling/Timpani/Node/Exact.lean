import Timpani.Bpf.Accounting
import Timpani.Node.Remembered
import Timpani.Scheduler.Generate

/-!
# Applying a table exactly

After a table was applied without errors the maps and TimerMaster should hold the table and nothing
else: an entry for every TT slot, a server for every CBS entry, the metadata of the processes of its
tasks, and its slots.

* `Exact` : the node holds exactly the table;
* `exact_of_again` : this is so after every run in which every table is applied completely, if the
  table finds the processes again that are remembered for the workloads that stay;
* `left_behind` : the slot of a task that was not found survives the next table, and so does the
  metadata of a process whose task has left a workload that stays.
-/

namespace Timpani

variable {n : Node} {t : HierarchicalScheduleTable} {findPid : ℕ → Option UInt32}
  {clock : ℕ → UInt64} {pid : UInt32}

/-! ### What a table writes -/

/-- The slots among the items, the first one being number `k`, as entries of `tt_table_map`. -/
def WritesSlot (items : List (Item × ℕ)) (k : ℕ) (key : TtSlotKey) (slot : TtSlotBpf) : Prop :=
  ∃ x ∈ (items.filterMap (·.1.slot?)).zipIdx k, ⟨x.1.cpu, .ofNat x.2⟩ = key ∧ x.1.toBpf = slot

/-- The servers of the items. -/
def WritesServer (clock : ℕ → UInt64) (items : List (Item × ℕ)) (key : UInt64) (c : CbsState) :
    Prop :=
  ∃ x ∈ items, ∃ e ∈ x.1.config?, e.key = key ∧ e.initial (clock x.2) = c

/-- What is registered about the process of an item. -/
def Item.registration? : Item → Option Registration
  | .tt slot layer => some (slot.registration layer)
  | .cbs e layer cpu => some (e.registration layer cpu)
  | .noCpu _ => none

/-- The metadata of the items. -/
def WritesMeta (findPid : ℕ → Option UInt32) (items : List (Item × ℕ)) (pid : UInt32)
    (m : TaskMeta) : Prop :=
  ∃ x ∈ items, ∃ r ∈ x.1.registration?, findPid x.2 = some pid ∧ r.toMeta = m

/-- The daemon holds exactly the table: an entry for every slot, a server for every CBS entry, the
processes that were found, and the slots. -/
structure Exact (findPid : ℕ → Option UInt32) (clock : ℕ → UInt64) (t : HierarchicalScheduleTable)
    (d : Daemon) : Prop where
  ttTableMap : ∀ key slot, d.node.bpf.ttTableMap.lookup key = some slot ↔
    WritesSlot t.items.zipIdx 0 key slot
  ttTableMap_size : d.node.bpf.ttTableMap.entries.size = t.ttSlots.length
  cbsMap : ∀ key c, d.node.bpf.cbsMap.lookup key = some c → WritesServer clock t.items.zipIdx key c
  cbsMap_isSome : ∀ e ∈ t.cbsEntries, (d.node.bpf.cbsMap.lookup e.key).isSome
  cbsMap_size : d.node.bpf.cbsMap.entries.size = t.cbsEntries.length
  taskMetaMap : ∀ pid, (d.node.bpf.taskMetaMap.lookup pid).isSome ↔ FoundIn findPid t.items.zipIdx pid
  slotTable : d.slotTable.Perm t.slotEntries

/-! ### Success -/

/-- Errors that are not about a task. -/
def Harmless (errors : List Text) : Prop :=
  ∀ error ∈ errors, text "CBS partition has empty cpuset: " <+: error

theorem not_prefix_append {p q : Text} (k : ℕ) (x : Text) (hp : k ≤ p.length) (hq : k ≤ q.length)
    (h : p.take k ≠ q.take k) : ¬ p <+: q ++ x := by
  rintro ⟨y, hy⟩
  have htake := congrArg (List.take k) hy
  rw [List.take_append_of_le_length hp, List.take_append_of_le_length hq] at htake
  exact h htake

namespace Applying

variable {a : Applying} {slot : TtSlot} {e : CbsConfig} {layer : UInt8} {cpu : UInt32} {now : UInt64}
  {p : Option UInt32}

theorem applyTt_of_harmless (h : Harmless (a.applyTt p slot layer).errors) :
    ∃ pid, p = some pid ∧
      (a.node.bpf.taskMetaMap.update pid (slot.registration layer).toMeta).2 = true ∧
      (a.node.bpf.ttTableMap.update ⟨slot.cpu, a.slotIdx⟩ slot.toBpf).2 = true := by
  have htrack : ∀ a : Applying, (a.trackTt p slot).errors = a.errors := by
    intro a
    unfold trackTt
    split <;> rfl
  have hkeep : ∀ (a : Applying) error, error ∈ a.errors → error ∈ (a.writeTtSlot slot).errors := by
    intro a error herror
    unfold writeTtSlot
    dsimp only
    split_ifs
    · exact herror
    · exact List.mem_append_left _ herror
  have hwrite : Harmless ((a.registerTt p slot layer).writeTtSlot slot).errors := by
    have := h
    unfold applyTt at this
    dsimp only at this
    rwa [htrack] at this
  have hregister : Harmless (a.registerTt p slot layer).errors :=
    fun error herror => hwrite error (hkeep _ error herror)
  cases p with
  | none =>
    exact absurd (hregister _ (List.mem_append_right _ List.mem_cons_self))
      (not_prefix_append 1 _ (by decide) (by decide) (by decide))
  | some pid =>
    refine ⟨pid, rfl, ?_, ?_⟩
    · by_contra hfail
      have herrors : (a.registerTt (some pid) slot layer).errors =
          a.errors ++ [text "TT task_meta update failed: " ++ slot.taskId] := by
        unfold registerTt
        dsimp only
        exact congrArg Applying.errors (if_neg hfail)
      rw [herrors] at hregister
      exact absurd (hregister _ (List.mem_append_right _ List.mem_cons_self))
        (not_prefix_append 1 _ (by decide) (by decide) (by decide))
    · by_contra hfail
      have herrors : ((a.registerTt (some pid) slot layer).writeTtSlot slot).errors =
          (a.registerTt (some pid) slot layer).errors ++
            [text "TT slot update failed: " ++ slot.taskId] := by
        unfold writeTtSlot
        dsimp only
        refine congrArg Applying.errors (if_neg ?_)
        rw [node_registerTt, slotIdx_registerTt]
        exact hfail
      rw [herrors] at hwrite
      exact absurd (hwrite _ (List.mem_append_right _ List.mem_cons_self))
        (not_prefix_append 1 _ (by decide) (by decide) (by decide))

theorem applyCbs_of_harmless (h : Harmless (a.applyCbs p now e layer cpu).errors) :
    ∃ pid, p = some pid ∧
      (a.node.bpf.taskMetaMap.update pid (e.registration layer cpu).toMeta).2 = true ∧
      (a.node.bpf.cbsMap.update e.key (e.initial now)).2 = true := by
  cases p with
  | none =>
    exact absurd (h _ (List.mem_append_right _ List.mem_cons_self))
      (not_prefix_append 5 _ (by decide) (by decide) (by decide))
  | some pid =>
    by_cases hmeta : (a.node.bpf.taskMetaMap.update pid (e.registration layer cpu).toMeta).2 = true
    · refine ⟨pid, rfl, hmeta, ?_⟩
      by_contra hfail
      have herrors : (a.applyCbs (some pid) now e layer cpu).errors =
          a.errors ++ [text "CBS state update failed: " ++ e.taskId] := by
        unfold applyCbs updateTaskMeta
        dsimp only
        exact (congrArg Applying.errors (if_pos hmeta)).trans (congrArg Applying.errors (if_neg hfail))
      rw [herrors] at h
      exact absurd (h _ (List.mem_append_right _ List.mem_cons_self))
        (not_prefix_append 5 _ (by decide) (by decide) (by decide))
    · have herrors : (a.applyCbs (some pid) now e layer cpu).errors =
          a.errors ++ [text "CBS task_meta update failed: " ++ e.taskId] := by
        unfold applyCbs updateTaskMeta
        dsimp only
        exact congrArg Applying.errors (if_neg hmeta)
      rw [herrors] at h
      exact absurd (h _ (List.mem_append_right _ List.mem_cons_self))
        (not_prefix_append 5 _ (by decide) (by decide) (by decide))

/-! ### The walk -/

/-- The items were written. -/
structure Wrote (findPid : ℕ → Option UInt32) (clock : ℕ → UInt64) (items : List (Item × ℕ)) (k : ℕ)
    (a a' : Applying) : Prop where
  slots : BpfHash.Extends (WritesSlot items k) a.node.bpf.ttTableMap a'.node.bpf.ttTableMap
  servers : BpfHash.Extends (WritesServer clock items) a.node.bpf.cbsMap a'.node.bpf.cbsMap
  metas : BpfHash.Extends (WritesMeta findPid items) a.node.bpf.taskMetaMap a'.node.bpf.taskMetaMap

variable {items : List (Item × ℕ)} {k i : ℕ}

theorem writesServer_cons {x : Item × ℕ} {key : UInt64} {c : CbsState} :
    WritesServer clock (x :: items) key c ↔
      WritesServer clock [x] key c ∨ WritesServer clock items key c := by
  simp [WritesServer]

theorem writesMeta_cons {x : Item × ℕ} {m : TaskMeta} :
    WritesMeta findPid (x :: items) pid m ↔
      WritesMeta findPid [x] pid m ∨ WritesMeta findPid items pid m := by
  simp [WritesMeta]

theorem Wrote.cons {x : Item × ℕ} {k' : ℕ} {a a' a'' : Applying}
    (h : Wrote findPid clock [x] k a a') (h' : Wrote findPid clock items k' a' a'')
    (hk : ∀ key slot, WritesSlot (x :: items) k key slot ↔
      WritesSlot [x] k key slot ∨ WritesSlot items k' key slot) :
    Wrote findPid clock (x :: items) k a a'' :=
  ⟨h.slots.trans h'.slots hk, h.servers.trans h'.servers fun _ _ => writesServer_cons,
    h.metas.trans h'.metas fun _ _ => writesMeta_cons⟩

theorem Wrote.applyTt (hidx : a.slotIdx = .ofNat k) (hfound : findPid i = some pid)
    (hmeta : (a.node.bpf.taskMetaMap.update pid (slot.registration layer).toMeta).2 = true)
    (hslot : (a.node.bpf.ttTableMap.update ⟨slot.cpu, a.slotIdx⟩ slot.toBpf).2 = true) :
    Wrote findPid clock [(.tt slot layer, i)] k a (a.applyTt (some pid) slot layer) := by
  constructor <;> rw [node_applyTt]
  · exact .update hslot fun key v => by simp [WritesSlot, Item.slot?, hidx]
  · exact .refl (fun key c => by simp [WritesServer, Item.config?]) _
  · exact .update hmeta fun pid' m => by simp [WritesMeta, Item.registration?, hfound]

theorem Wrote.applyCbs (hfound : findPid i = some pid)
    (hmeta : (a.node.bpf.taskMetaMap.update pid (e.registration layer cpu).toMeta).2 = true)
    (hserver : (a.node.bpf.cbsMap.update e.key (e.initial (clock i))).2 = true) :
    Wrote findPid clock [(.cbs e layer cpu, i)] k a
      (a.applyCbs (some pid) (clock i) e layer cpu) := by
  have hnode := node_applyCbs a pid (clock i) e layer cpu
  dsimp only at hnode
  rw [if_pos hmeta, if_pos hserver] at hnode
  constructor <;> rw [hnode]
  · exact .refl (fun key v => by simp [WritesSlot, Item.slot?]) _
  · exact .update hserver fun key c => by simp [WritesServer, Item.config?]
  · exact .update hmeta fun pid' m => by simp [WritesMeta, Item.registration?, hfound]

theorem wrote_walk (hidx : a.slotIdx = .ofNat k) (h : Harmless (walk findPid clock a items).errors) :
    Wrote findPid clock items k a (walk findPid clock a items) := by
  induction items generalizing a k with
  | nil =>
    exact ⟨.refl (fun _ _ => by simp [WritesSlot]) _, .refl (fun _ _ => by simp [WritesServer]) _,
      .refl (fun _ _ => by simp [WritesMeta]) _⟩
  | cons x items ih =>
    obtain ⟨item, i⟩ := x
    change Harmless (walk findPid clock (a.applyItem (findPid i) (clock i) item) items).errors at h
    have hitem : Harmless (a.applyItem (findPid i) (clock i) item).errors :=
      fun error herror => h error ((errors_prefix_walk items).subset herror)
    cases item with
    | tt slot layer =>
      obtain ⟨pid, hpid, hmeta, hslot⟩ := applyTt_of_harmless hitem
      have hfirst : Wrote findPid clock [(.tt slot layer, i)] k a (a.applyTt (findPid i) slot layer) :=
        hpid ▸ Wrote.applyTt hidx hpid hmeta hslot
      refine hfirst.cons (ih (k := k + 1) ?_ h) fun key v => by simp [WritesSlot, Item.slot?]
      rw [Applying.slotIdx_applyTt, hidx, UInt32.ofNat_add]
      rfl
    | cbs e layer cpu =>
      obtain ⟨pid, hpid, hmeta, hserver⟩ := applyCbs_of_harmless hitem
      have hfirst : Wrote findPid clock [(.cbs e layer cpu, i)] k a
          (a.applyCbs (findPid i) (clock i) e layer cpu) :=
        hpid ▸ Wrote.applyCbs hpid hmeta hserver
      refine hfirst.cons (ih (k := k) ?_ h) fun key v => by simp [WritesSlot, Item.slot?]
      rw [Applying.slotIdx_applyCbs, hidx]
    | noCpu partitionId =>
      have hfirst : Wrote findPid clock [(.noCpu partitionId, i)] k a
          (a.applyItem (findPid i) (clock i) (.noCpu partitionId)) :=
        ⟨.refl (fun key v => by simp [WritesSlot, Item.slot?]) _,
          .refl (fun key c => by simp [WritesServer, Item.config?]) _,
          .refl (fun pid m => by simp [WritesMeta, Item.registration?]) _⟩
      exact hfirst.cons (ih (k := k) hidx h) fun key v => by simp [WritesSlot, Item.slot?]

end Applying

/-! ### The table and the maps -/

theorem slots_items_zipIdx : t.items.zipIdx.filterMap (·.1.slot?) = t.ttSlots := by
  rw [← filterMap_slot_items, ← List.zipIdx_map_fst 0 t.items, List.filterMap_map]
  simp

/-- The keys of the slots of a table. -/
def slotKeys (slots : List TtSlot) : List TtSlotKey :=
  slots.zipIdx.map fun x => ⟨x.1.cpu, .ofNat x.2⟩

theorem mem_slotKeys {key : TtSlotKey} :
    key ∈ slotKeys t.ttSlots ↔ ∃ slot, WritesSlot t.items.zipIdx 0 key slot := by
  simp only [slotKeys, WritesSlot, slots_items_zipIdx, List.mem_map]
  exact ⟨fun ⟨x, hx, hkey⟩ => ⟨_, x, hx, hkey, rfl⟩, fun ⟨_, x, hx, hkey, _⟩ => ⟨x, hx, hkey⟩⟩

theorem nodup_slotKeys {slots : List TtSlot} (h : slots.length ≤ 2 ^ 32) :
    (slotKeys slots).Nodup := by
  refine List.Nodup.of_map TtSlotKey.slotIdx ?_
  have hnumbers : (slotKeys slots).map TtSlotKey.slotIdx =
      (List.range' 0 slots.length).map UInt32.ofNat := by
    rw [slotKeys, List.map_map, ← List.zipIdx_map_snd 0 slots, List.map_map]
    rfl
  rw [hnumbers]
  refine List.Nodup.map_on (fun i hi j hj heq => ?_) List.nodup_range'
  rw [List.mem_range'_1] at hi hj
  have heq := congrArg UInt32.toNat heq
  rw [UInt32.toNat_ofNat', UInt32.toNat_ofNat'] at heq
  omega

theorem length_le_of_isSome {m : BpfHash 2048 TtSlotKey TtSlotBpf} {slots : List TtSlot}
    (h : ∀ key ∈ slotKeys slots, (m.lookup key).isSome) : slots.length ≤ 2048 := by
  have hsub : slotKeys (slots.take 2049) ⊆ slotKeys slots := by
    refine List.map_subset _ fun x hx => ?_
    rw [List.mem_zipIdx_iff_getElem?, List.getElem?_take] at hx
    rw [List.mem_zipIdx_iff_getElem?]
    exact (Option.ite_none_right_eq_some.1 hx).2
  have hcard : (slotKeys (slots.take 2049)).toFinset.card ≤ 2048 :=
    BpfHash.card_le fun key hkey => h key (hsub (List.mem_toFinset.1 hkey))
  rw [List.toFinset_card_of_nodup (nodup_slotKeys (by simp)), slotKeys, List.length_map,
    List.length_zipIdx, List.length_take] at hcard
  omega

theorem WritesSlot.unique (h : t.ttSlots.length ≤ 2048) {key : TtSlotKey} {slot slot' : TtSlotBpf}
    (hw : WritesSlot t.items.zipIdx 0 key slot) (hw' : WritesSlot t.items.zipIdx 0 key slot') :
    slot = slot' := by
  obtain ⟨x, hx, hkey, rfl⟩ := hw
  obtain ⟨y, hy, hkey', rfl⟩ := hw'
  rw [slots_items_zipIdx] at hx hy
  have hinj := List.inj_on_of_nodup_map (nodup_slotKeys (h.trans (by decide)))
  rw [hinj hx hy (hkey.trans hkey'.symm)]

theorem writesServer_iff (clock : ℕ → UInt64) {key : UInt64} :
    (∃ c, WritesServer clock t.items.zipIdx key c) ↔ key ∈ t.cbsEntries.map (·.key) := by
  simp only [WritesServer, ← filterMap_config_items, List.mem_map, List.mem_filterMap]
  constructor
  · rintro ⟨_, x, hx, e, he, hkey, -⟩
    exact ⟨e, ⟨x.1, List.fst_mem_of_mem_zipIdx hx, he⟩, hkey⟩
  · rintro ⟨e, ⟨item, hitem, he⟩, hkey⟩
    obtain ⟨i, hi⟩ := List.mem_iff_getElem?.1 hitem
    exact ⟨_, (item, i), List.mem_zipIdx_iff_getElem?.2 hi, e, he, hkey, rfl⟩

theorem writesMeta_iff {items : List (Item × ℕ)} :
    (∃ m, WritesMeta findPid items pid m) ↔ FoundIn findPid items pid := by
  have hsome : ∀ item : Item, item.registration?.isSome = item.workload?.isSome := by
    intro item
    cases item <;> rfl
  constructor
  · rintro ⟨_, x, hx, r, hr, hfound, -⟩
    exact ⟨x, hx, by rw [← hsome, Option.mem_def.1 hr]; rfl, hfound⟩
  · rintro ⟨x, hx, htask, hfound⟩
    rw [← hsome, Option.isSome_iff_exists] at htask
    obtain ⟨r, hr⟩ := htask
    exact ⟨_, x, hx, r, hr, hfound, rfl⟩

/-! ### Main results -/

namespace Daemon

variable {stdSort : StdSort} {d : Daemon}

theorem perm_setScheduleTable (slots : List TimerMaster.SlotEntry) :
    (TimerMaster.setScheduleTable stdSort slots).Perm slots :=
  stdSort.perm (StrictWeak.of_uint64_lt.comap TimerMaster.SlotEntry.offsetNs) slots

/-- **Tables are applied exactly.**  After a run in which every table was applied completely, a table
that reports no error about a task is what the node holds, if it finds the processes again that are
remembered for the workloads it keeps. -/
theorem exact_of_again (hd : (machine stdSort).ReachableIf AppliesCompletely d)
    (findPid : ℕ → Option UInt32) (clock : ℕ → UInt64) (t : HierarchicalScheduleTable)
    (herrors : Harmless (d.node.tableCallback findPid clock t).2)
    (hkeys : (t.cbsEntries.map (·.key)).Nodup)
    (hagain : ∀ wid ∈ t.workloads, ∀ pid ∈ d.node.workloadToPids.getD wid [],
      FoundIn findPid t.items.zipIdx pid) :
    Exact findPid clock t (d.tableCallback stdSort findPid clock t) := by
  have hrem := remembered_of_reachableIf hd
  have hwrote := Applying.wrote_walk (k := 0) rfl herrors
  -- the maps are empty when the walk starts, up to processes that are found again
  have hslots : ∀ key slot, (d.tableCallback stdSort findPid clock t).node.bpf.ttTableMap.lookup key =
      some slot → WritesSlot t.items.zipIdx 0 key slot := by
    intro key slot hslot
    refine (hwrote.slots.of_lookup key slot hslot).resolve_left fun hold => ?_
    cases (Node.lookup_ttTableMap_evict hrem key).symm.trans hold
  have hslot : ∀ key, (((d.tableCallback stdSort findPid clock t).node.bpf.ttTableMap.lookup
      key).isSome ↔ key ∈ slotKeys t.ttSlots) := by
    intro key
    rw [mem_slotKeys]
    refine ⟨fun h => ?_, fun h => hwrote.slots.isSome key (Or.inr h)⟩
    obtain ⟨slot, hslot⟩ := Option.isSome_iff_exists.1 h
    exact ⟨slot, hslots key slot hslot⟩
  have hlength : t.ttSlots.length ≤ 2048 := length_le_of_isSome fun key hkey => (hslot key).2 hkey
  have hservers : ∀ key c, (d.tableCallback stdSort findPid clock t).node.bpf.cbsMap.lookup key =
      some c → WritesServer clock t.items.zipIdx key c := by
    intro key c hc
    refine (hwrote.servers.of_lookup key c hc).resolve_left fun hold => ?_
    cases (Node.lookup_cbsMap_evict hrem key).symm.trans hold
  have hserver : ∀ key, (((d.tableCallback stdSort findPid clock t).node.bpf.cbsMap.lookup
      key).isSome ↔ key ∈ t.cbsEntries.map (·.key)) := by
    intro key
    rw [← writesServer_iff clock]
    refine ⟨fun h => ?_, fun h => hwrote.servers.isSome key (Or.inr h)⟩
    obtain ⟨c, hc⟩ := Option.isSome_iff_exists.1 h
    exact ⟨c, hservers key c hc⟩
  refine ⟨fun key slot => ⟨hslots key slot, fun h => ?_⟩, ?_, hservers, fun e he => ?_, ?_,
    fun pid => ?_, perm_setScheduleTable _⟩
  · obtain ⟨slot', hslot'⟩ := Option.isSome_iff_exists.1
      (hwrote.slots.isSome key (Or.inr ⟨slot, h⟩))
    rw [h.unique hlength (hslots key slot' hslot')]
    exact hslot'
  · rw [BpfHash.size_eq_length (nodup_slotKeys (hlength.trans (by decide))) hslot, slotKeys,
      List.length_map, List.length_zipIdx]
  · exact (hserver e.key).2 (List.mem_map_of_mem he)
  · rw [BpfHash.size_eq_length hkeys hserver, List.length_map]
  · rw [← writesMeta_iff]
    refine ⟨fun h => ?_, fun h => hwrote.metas.isSome pid (Or.inr h)⟩
    obtain ⟨m, hm⟩ := Option.isSome_iff_exists.1 h
    rcases hwrote.metas.of_lookup pid m hm with hold | hnew
    · obtain ⟨hstay, hold⟩ := Node.lookup_taskMetaMap_evict.1 hold
      obtain ⟨wid, -, htrack⟩ := hrem.metas pid m hold
      exact writesMeta_iff.2 (hagain wid (hstay wid htrack) pid htrack)
    · exact ⟨m, hnew⟩

/-! ### Three runs -/

open GlobalScheduler (fnv1aHash)

instance {a : Action} : Decidable (AppliesCompletely d a) :=
  match a with
  | .table findPid _ t => inferInstanceAs (Decidable (Complete d.node findPid t))
  | .stop _ => inferInstanceAs (Decidable True)

/-- A slot of 1 ms on CPU 2. -/
def sampleSlot (workloadId taskId : String) : TtSlot where
  workloadId := text workloadId
  taskId := text taskId
  offsetUs := 0
  durationUs := 1000
  deadlineUs := 10000
  cpu := 2
  workloadIdHash := fnv1aHash (text workloadId)
  taskIdHash := fnv1aHash (text taskId)
  currentLimit := 0

/-- A CBS entry with a budget of 1 ms in 10 ms. -/
def sampleServer (workloadId taskId : String) : CbsConfig where
  workloadId := text workloadId
  taskId := text taskId
  budgetUs := 1000
  periodUs := 10000
  deadlineUs := 10000
  workloadIdHash := fnv1aHash (text workloadId)
  taskIdHash := fnv1aHash (text taskId)
  currentLimit := 0

/-- A table for CPU 2. -/
def tableOf (slots : List TtSlot) (entries : List CbsConfig) : HierarchicalScheduleTable where
  tableId := text "t"
  nodeId := text "n"
  hyperperiodUs := 10000
  epochNs := 0
  partitions := [⟨text "p", some ⟨[2], true⟩,
    [⟨1, .timeTriggered, slots, []⟩, ⟨2, .eventDriven, [], entries⟩]⟩]

/-- The processes that are found, in the order of the tasks. -/
def finding (pids : List (Option UInt32)) (i : ℕ) : Option UInt32 := (pids[i]?).join

/-- The daemon after its start. -/
def started : Daemon := ⟨⟨Kernel.booted.bpf, ∅, ∅, ∅, ∅, ∅⟩, [], none⟩

theorem fresh_started : started.Fresh := ⟨rfl, rfl, rfl, rfl, rfl, rfl, rfl, rfl, rfl⟩

/-- Workload `a` has a TT task and `b` a CBS task; `b` is stopped, and then `a` gets a CBS task. -/
theorem exact_after_stop :
    ∃ d, (machine insertionStdSort).ReachableIf AppliesCompletely d ∧
      Exact (finding [some 7, some 9]) (fun _ => 0)
        (tableOf [sampleSlot "a" "t"] [sampleServer "a" "v"])
        (d.tableCallback insertionStdSort (finding [some 7, some 9]) (fun _ => 0)
          (tableOf [sampleSlot "a" "t"] [sampleServer "a" "v"])) := by
  have heval : ((machine insertionStdSort).execIf (fun d a => decide (AppliesCompletely d a)) started
      [.table (finding [some 7, some 8]) (fun _ => 0)
        (tableOf [sampleSlot "a" "t"] [sampleServer "b" "u"]), .stop (text "b")]).any
      (fun d => decide ((d.node.tableCallback (finding [some 7, some 9]) (fun _ => 0)
          (tableOf [sampleSlot "a" "t"] [sampleServer "a" "v"])).2 = [] ∧
        Complete d.node (finding [some 7, some 9])
          (tableOf [sampleSlot "a" "t"] [sampleServer "a" "v"]))) = true := by
    decide +kernel
  obtain ⟨d, hd, hall⟩ := (Option.any_eq_true _ _).1 heval
  obtain ⟨herrors, hcomplete⟩ := of_decide_eq_true hall
  have hreach : (machine insertionStdSort).ReachableIf AppliesCompletely d :=
    (Machine.ReachableIf.of_init fresh_started).leads
      (Machine.leads_of_execIf (fun _ _ => of_decide_eq_true) hd)
  refine ⟨d, hreach, exact_of_again hreach _ _ _ ?_ (by decide +kernel) hcomplete.again⟩
  rw [herrors]
  exact fun _ h => absurd h List.not_mem_nil

/-- Workload `a` has the tasks `t` and `u`, and then only `t`, which is found as process 7 both times.
If `u` was not found, its slot is still there afterwards; if it was found as process 8, its metadata
is. -/
theorem left_behind :
    (∃ d, (machine insertionStdSort).Reachable d ∧
      (d.node.tableCallback (finding [some 7]) (fun _ => 0) (tableOf [sampleSlot "a" "t"] [])).2 = [] ∧
      ((d.tableCallback insertionStdSort (finding [some 7]) (fun _ => 0)
        (tableOf [sampleSlot "a" "t"] [])).node.bpf.ttTableMap.lookup ⟨2, 1⟩).isSome ∧
      ¬ Exact (finding [some 7]) (fun _ => 0) (tableOf [sampleSlot "a" "t"] [])
        (d.tableCallback insertionStdSort (finding [some 7]) (fun _ => 0)
          (tableOf [sampleSlot "a" "t"] []))) ∧
    ∃ d, (machine insertionStdSort).Reachable d ∧
      (d.node.tableCallback (finding [some 7]) (fun _ => 0) (tableOf [sampleSlot "a" "t"] [])).2 = [] ∧
      ((d.tableCallback insertionStdSort (finding [some 7]) (fun _ => 0)
        (tableOf [sampleSlot "a" "t"] [])).node.bpf.taskMetaMap.lookup 8).isSome ∧
      ¬ Exact (finding [some 7]) (fun _ => 0) (tableOf [sampleSlot "a" "t"] [])
        (d.tableCallback insertionStdSort (finding [some 7]) (fun _ => 0)
          (tableOf [sampleSlot "a" "t"] [])) := by
  constructor
  · have heval : ((machine insertionStdSort).exec started [.table (finding [some 7, none])
        (fun _ => 0) (tableOf [sampleSlot "a" "t", sampleSlot "a" "u"] [])]).any (fun d => decide
          ((d.node.tableCallback (finding [some 7]) (fun _ => 0)
            (tableOf [sampleSlot "a" "t"] [])).2 = [] ∧
          ((d.tableCallback insertionStdSort (finding [some 7]) (fun _ => 0)
            (tableOf [sampleSlot "a" "t"] [])).node.bpf.ttTableMap.lookup ⟨2, 1⟩).isSome ∧
          (d.tableCallback insertionStdSort (finding [some 7]) (fun _ => 0)
            (tableOf [sampleSlot "a" "t"] [])).node.bpf.ttTableMap.entries.size = 2)) = true := by
      decide +kernel
    obtain ⟨d, hd, hall⟩ := (Option.any_eq_true _ _).1 heval
    obtain ⟨herrors, hleft, hsize⟩ := of_decide_eq_true hall
    refine ⟨d, Machine.reachable_of_exec fresh_started hd, herrors, hleft, fun h => ?_⟩
    exact absurd (hsize.symm.trans h.ttTableMap_size) (by decide)
  · have heval : ((machine insertionStdSort).exec started [.table (finding [some 7, some 8])
        (fun _ => 0) (tableOf [sampleSlot "a" "t", sampleSlot "a" "u"] [])]).any (fun d => decide
          ((d.node.tableCallback (finding [some 7]) (fun _ => 0)
            (tableOf [sampleSlot "a" "t"] [])).2 = [] ∧
          ((d.tableCallback insertionStdSort (finding [some 7]) (fun _ => 0)
            (tableOf [sampleSlot "a" "t"] [])).node.bpf.taskMetaMap.lookup 8).isSome)) = true := by
      decide +kernel
    obtain ⟨d, hd, hall⟩ := (Option.any_eq_true _ _).1 heval
    obtain ⟨herrors, hleft⟩ := of_decide_eq_true hall
    refine ⟨d, Machine.reachable_of_exec fresh_started hd, herrors, hleft, fun h => ?_⟩
    exact absurd ((h.taskMetaMap 8).1 hleft) (by decide +kernel)

end Daemon

end Timpani
