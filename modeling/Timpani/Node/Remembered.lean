import Timpani.Node.Daemon

/-!
# Nothing is forgotten

A table application deletes what the daemon remembers of the last table, so it starts from clean maps
only if everything in the maps is remembered.  Three things break this.  The slot of a TT task whose
process is not found is written, but not remembered.  The metadata of a CBS task is written before
its server, and not remembered if the server is refused.  And the processes of a workload that stays
are kept, but forgotten, because they are expected to be found again.

* `Complete` : none of this happens;
* `remembered_of_reachableIf` : everything in the maps is remembered in every run in which every table
  is applied completely.
-/

namespace Timpani

variable {Marks Marks' : Text → UInt64 → Prop} {n : Node} {t : HierarchicalScheduleTable}
  {findPid : ℕ → Option UInt32} {clock : ℕ → UInt64} {pid : UInt32}

/-- The workloads of a table that has names for them. -/
def HierarchicalScheduleTable.workloads (t : HierarchicalScheduleTable) : List Text :=
  (t.pairs.map Prod.fst).filter (· ≠ [])

/-- The process is found for a task among the items. -/
def FoundIn (findPid : ℕ → Option UInt32) (items : List (Item × ℕ)) (pid : UInt32) : Prop :=
  ∃ x ∈ items, x.1.workload?.isSome ∧ findPid x.2 = some pid

/-- The table can be applied without forgetting anything. -/
structure Complete (n : Node) (findPid : ℕ → Option UInt32) (t : HierarchicalScheduleTable) :
    Prop where
  /-- The processes of all TT tasks are found. -/
  found : ∀ x ∈ t.items.zipIdx, x.1.slot?.isSome → (findPid x.2).isSome
  /-- The servers fit into `cbs_map`. -/
  fits : t.cbsEntries.length ≤ 1024
  /-- What was remembered for a workload that stays is found again. -/
  again : ∀ wid ∈ t.workloads, ∀ pid ∈ n.workloadToPids.getD wid [],
    FoundIn findPid t.items.zipIdx pid

instance {items : List (Item × ℕ)} : Decidable (FoundIn findPid items pid) :=
  inferInstanceAs (Decidable (∃ x ∈ items, _))

-- the processes are listed, or all of `UInt32` would be tried
instance : Decidable (Complete n findPid t) :=
  decidable_of_iff
    ((∀ x ∈ t.items.zipIdx, x.1.slot?.isSome → (findPid x.2).isSome) ∧ t.cbsEntries.length ≤ 1024 ∧
      t.workloads.all fun wid => (n.workloadToPids.getD wid []).all fun pid =>
        FoundIn findPid t.items.zipIdx pid) <| by
    simp only [List.all_eq_true, decide_eq_true_eq]
    exact ⟨fun ⟨h, h', h''⟩ => ⟨h, h', h''⟩, fun ⟨h, h', h''⟩ => ⟨h, h', h''⟩⟩

/-! ### What an item does to the node -/

/-- What is written to `tt_table_map` for a slot. -/
def TtSlot.toBpf (slot : TtSlot) : TtSlotBpf :=
  ⟨slot.workloadIdHash, slot.taskIdHash, slot.offsetUs, slot.durationUs, slot.deadlineUs, slot.cpu⟩

/-- What is registered about the process of a slot. -/
def TtSlot.registration (slot : TtSlot) (layer : UInt8) : Registration :=
  ⟨slot.workloadIdHash, slot.taskIdHash, slot.cpu, slot.durationUs, .tt, layer⟩

/-- What is registered about the process of a CBS entry. -/
def CbsConfig.registration (e : CbsConfig) (layer : UInt8) (cpu : UInt32) : Registration :=
  ⟨e.workloadIdHash, e.taskIdHash, cpu, 0, .cbs, layer⟩

namespace Applying

variable {a : Applying} {slot : TtSlot} {e : CbsConfig} {layer : UInt8} {cpu : UInt32} {now : UInt64}

theorem node_registerTt : (a.registerTt (some pid) slot layer).node = { a.node with
      bpf := { a.node.bpf with
        taskMetaMap := (a.node.bpf.taskMetaMap.update pid (slot.registration layer).toMeta).1 } } := by
  unfold registerTt
  dsimp only
  split_ifs <;> rfl

theorem slotIdx_registerTt {pid : Option UInt32} :
    (a.registerTt pid slot layer).slotIdx = a.slotIdx := by
  unfold registerTt
  split
  · rfl
  · dsimp only
    split_ifs <;> rfl

theorem node_writeTtSlot : (a.writeTtSlot slot).node = { a.node with
      bpf := { a.node.bpf with
        ttTableMap := (a.node.bpf.ttTableMap.update ⟨slot.cpu, a.slotIdx⟩ slot.toBpf).1 } } := by
  unfold writeTtSlot
  dsimp only
  split_ifs <;> rfl

theorem slotIdx_writeTtSlot : (a.writeTtSlot slot).slotIdx = a.slotIdx := by
  unfold writeTtSlot
  dsimp only
  split_ifs <;> rfl

theorem slotIdx_applyTt {pid : Option UInt32} :
    (a.applyTt pid slot layer).slotIdx = a.slotIdx + 1 := by
  have htrack : ∀ a : Applying, (a.trackTt pid slot).slotIdx = a.slotIdx := by
    intro a
    unfold trackTt
    split <;> rfl
  unfold applyTt
  dsimp only
  rw [htrack, slotIdx_writeTtSlot, slotIdx_registerTt]

theorem slotIdx_applyCbs {pid : Option UInt32} :
    (a.applyCbs pid now e layer cpu).slotIdx = a.slotIdx := by
  unfold applyCbs updateTaskMeta
  split
  · rfl
  · dsimp only
    split_ifs <;> rfl

theorem node_applyTt : (a.applyTt (some pid) slot layer).node =
    { a.node with
      bpf := { a.node.bpf with
        taskMetaMap := (a.node.bpf.taskMetaMap.update pid (slot.registration layer).toMeta).1
        ttTableMap := (a.node.bpf.ttTableMap.update ⟨slot.cpu, a.slotIdx⟩ slot.toBpf).1 }
      workloadToPids := push a.node.workloadToPids slot.workloadId pid
      workloadToSlots := push a.node.workloadToSlots slot.workloadId ⟨slot.cpu, a.slotIdx⟩
      workloadToHash := a.node.workloadToHash.insert slot.workloadId slot.workloadIdHash
      workloadHashToId := a.node.workloadHashToId.insert slot.workloadIdHash slot.workloadId } := by
  simp only [applyTt, trackTt, node_writeTtSlot, slotIdx_writeTtSlot, node_registerTt,
    slotIdx_registerTt]

theorem node_applyCbs (a : Applying) (pid : UInt32) (now : UInt64) (e : CbsConfig) (layer : UInt8)
    (cpu : UInt32) :
    let metas := a.node.bpf.taskMetaMap.update pid (e.registration layer cpu).toMeta
    let servers := a.node.bpf.cbsMap.update e.key (e.initial now)
    (a.applyCbs (some pid) now e layer cpu).node =
      if metas.2 then
        if servers.2 then
          { a.node with
            bpf := { a.node.bpf with taskMetaMap := metas.1, cbsMap := servers.1 }
            workloadToPids := push a.node.workloadToPids e.workloadId pid
            workloadToCbsKeys := push a.node.workloadToCbsKeys e.workloadId e.key
            workloadToHash := a.node.workloadToHash.insert e.workloadId e.workloadIdHash
            workloadHashToId := a.node.workloadHashToId.insert e.workloadIdHash e.workloadId }
        else { a.node with bpf := { a.node.bpf with taskMetaMap := metas.1, cbsMap := servers.1 } }
      else { a.node with bpf := { a.node.bpf with taskMetaMap := metas.1 } } := by
  intro metas servers
  by_cases hmeta : metas.2 = true
  · by_cases hserver : servers.2 = true
    · rw [if_pos hmeta, if_pos hserver, applyCbs]
      simp only [updateTaskMeta]
      exact (congrArg Applying.node (if_pos hmeta)).trans (congrArg Applying.node (if_pos hserver))
    · rw [if_pos hmeta, if_neg hserver, applyCbs]
      simp only [updateTaskMeta]
      exact (congrArg Applying.node (if_pos hmeta)).trans (congrArg Applying.node (if_neg hserver))
  · rw [if_neg hmeta, applyCbs]
    simp only [updateTaskMeta]
    exact congrArg Applying.node (if_neg hmeta)

/-! ### The walk -/

/-- `Remembered` while the walk has still to do `rest`: the processes that will be found again need
not be remembered yet. -/
structure Walking (Marks : Text → UInt64 → Prop) (findPid : ℕ → Option UInt32)
    (rest : List (Item × ℕ)) (a : Applying) : Prop where
  slots : ∀ key slot, a.node.bpf.ttTableMap.lookup key = some slot →
    ∃ wid, Marks wid slot.workloadIdHash ∧ Tracks a.node.workloadToSlots wid key
  servers : ∀ key c, a.node.bpf.cbsMap.lookup key = some c →
    ∃ wid, Marks wid (key ^^^ c.taskIdHash) ∧ Tracks a.node.workloadToCbsKeys wid key
  metas : ∀ pid m, a.node.bpf.taskMetaMap.lookup pid = some m →
    (∃ wid, Marks wid m.workloadIdHash ∧ Tracks a.node.workloadToPids wid pid) ∨
      FoundIn findPid rest pid
  room : a.node.bpf.cbsMap.entries.size + (rest.filterMap (·.1.config?)).length ≤ 1024

theorem foundIn_cons {x : Item × ℕ} {rest : List (Item × ℕ)} (h : FoundIn findPid (x :: rest) pid) :
    findPid x.2 = some pid ∨ FoundIn findPid rest pid := by
  obtain ⟨y, hy, htask, hfound⟩ := h
  rcases List.mem_cons.1 hy with rfl | hy
  · exact Or.inl hfound
  · exact Or.inr ⟨y, hy, htask, hfound⟩

variable {rest : List (Item × ℕ)} {i : ℕ}

theorem Walking.applyTt (h : Walking Marks findPid ((.tt slot layer, i) :: rest) a)
    (hfound : findPid i = some pid) (hmark : Marks slot.workloadId slot.workloadIdHash) :
    Walking Marks findPid rest (a.applyTt (some pid) slot layer) := by
  refine ⟨fun key slot' => ?_, fun key c => ?_, fun pid' m => ?_, ?_⟩ <;> rw [node_applyTt]
  · dsimp only
    rw [BpfHash.lookup_update]
    split_ifs with hnew
    · rintro ⟨⟩
      exact ⟨slot.workloadId, hmark, tracks_push.2 (Or.inr ⟨rfl, hnew.1⟩)⟩
    · intro hold
      obtain ⟨wid, hwid, htrack⟩ := h.slots key slot' hold
      exact ⟨wid, hwid, tracks_push.2 (Or.inl htrack)⟩
  · exact h.servers key c
  · dsimp only
    rw [BpfHash.lookup_update]
    split_ifs with hnew
    · rintro ⟨⟩
      exact Or.inl ⟨slot.workloadId, hmark, tracks_push.2 (Or.inr ⟨rfl, hnew.1⟩)⟩
    · intro hold
      rcases h.metas pid' m hold with ⟨wid, hwid, htrack⟩ | hrest
      · exact Or.inl ⟨wid, hwid, tracks_push.2 (Or.inl htrack)⟩
      · rcases foundIn_cons hrest with hhere | hrest
        · -- the entry is there, so the update has not failed
          cases hfound.symm.trans hhere
          exact absurd ⟨rfl, BpfHash.update_eq_true (by rw [hold]; rfl)⟩ hnew
        · exact Or.inr hrest
  · exact h.room

theorem Walking.applyCbs {pid : Option UInt32}
    (h : Walking Marks findPid ((.cbs e layer cpu, i) :: rest) a)
    (hfound : findPid i = pid) (hmark : Marks e.workloadId e.workloadIdHash) :
    Walking Marks findPid rest (a.applyCbs pid now e layer cpu) := by
  have hroom : a.node.bpf.cbsMap.entries.size + ((rest.filterMap (·.1.config?)).length + 1) ≤ 1024 :=
    h.room
  have hroom' : a.node.bpf.cbsMap.entries.size + (rest.filterMap (·.1.config?)).length ≤ 1024 := by
    omega
  cases pid with
  | none =>
    refine ⟨h.slots, h.servers, fun pid' m hm => ?_, hroom'⟩
    exact (h.metas pid' m hm).imp_right fun hrest =>
      (foundIn_cons hrest).resolve_left fun hhere => by cases hfound.symm.trans hhere
  | some pid =>
    -- the other processes are as before
    have hothers : ∀ pid' m, a.node.bpf.taskMetaMap.lookup pid' = some m →
        ¬ (pid = pid' ∧ (a.node.bpf.taskMetaMap.update pid (e.registration layer cpu).toMeta).2) →
        (∃ wid, Marks wid m.workloadIdHash ∧ Tracks a.node.workloadToPids wid pid') ∨
          FoundIn findPid rest pid' := by
      intro pid' m hold hnew
      refine (h.metas pid' m hold).imp_right fun hrest =>
        (foundIn_cons hrest).resolve_left fun hhere => ?_
      cases hfound.symm.trans hhere
      exact hnew ⟨rfl, BpfHash.update_eq_true (by rw [hold]; rfl)⟩
    have hserver : (a.node.bpf.cbsMap.update e.key (e.initial now)).2 = true :=
      BpfHash.update_eq_true_of_size_lt (by omega)
    have hnode := node_applyCbs a pid now e layer cpu
    dsimp only at hnode
    rw [if_pos hserver] at hnode
    by_cases hmeta : (a.node.bpf.taskMetaMap.update pid (e.registration layer cpu).toMeta).2 = true
    · rw [if_pos hmeta] at hnode
      refine ⟨fun key slot => ?_, fun key c => ?_, fun pid' m => ?_, ?_⟩ <;> rw [hnode]
      · exact h.slots key slot
      · dsimp only
        rw [BpfHash.lookup_update]
        split_ifs with hnew
        · rintro ⟨⟩
          refine ⟨e.workloadId, ?_, tracks_push.2 (Or.inr ⟨rfl, hnew.1⟩)⟩
          rw [← hnew.1, CbsConfig.key, CbsConfig.initial, UInt64.xor_assoc, UInt64.xor_self,
            UInt64.xor_zero]
          exact hmark
        · intro hold
          obtain ⟨wid, hwid, htrack⟩ := h.servers key c hold
          exact ⟨wid, hwid, tracks_push.2 (Or.inl htrack)⟩
      · dsimp only
        rw [BpfHash.lookup_update]
        split_ifs with hnew
        · rintro ⟨⟩
          exact Or.inl ⟨e.workloadId, hmark, tracks_push.2 (Or.inr ⟨rfl, hnew.1⟩)⟩
        · intro hold
          refine (hothers pid' m hold hnew).imp_left ?_
          rintro ⟨wid, hwid, htrack⟩
          exact ⟨wid, hwid, tracks_push.2 (Or.inl htrack)⟩
      · have := BpfHash.size_update_le (m := a.node.bpf.cbsMap) (k := e.key) (v := e.initial now)
        dsimp only
        omega
    · rw [if_neg hmeta] at hnode
      refine ⟨fun key slot => ?_, fun key c => ?_, fun pid' m => ?_, ?_⟩ <;> rw [hnode]
      · exact h.slots key slot
      · exact h.servers key c
      · dsimp only
        rw [BpfHash.lookup_update, if_neg fun hnew => hmeta hnew.2]
        exact fun hold => hothers pid' m hold fun hnew => hmeta hnew.2
      · exact hroom'

theorem Walking.noCpu {partitionId : Text}
    (h : Walking Marks findPid ((.noCpu partitionId, i) :: rest) a) (error : Text) :
    Walking Marks findPid rest (a.recordApplyError error) where
  slots := h.slots
  servers := h.servers
  metas pid m hm := (h.metas pid m hm).imp_right fun ⟨x, hx, htask, hfound⟩ => by
    rcases List.mem_cons.1 hx with rfl | hx
    · cases htask
    · exact ⟨x, hx, htask, hfound⟩
  room := h.room

theorem Walking.walk {items : List (Item × ℕ)} (h : Walking Marks findPid items a)
    (hfound : ∀ x ∈ items, x.1.slot?.isSome → (findPid x.2).isSome)
    (hmark : ∀ x ∈ items, ∀ w ∈ x.1.workload?, Marks w.1 w.2) :
    Walking Marks findPid [] (walk findPid clock a items) := by
  induction items generalizing a with
  | nil => exact h
  | cons x items ih =>
    obtain ⟨item, i⟩ := x
    refine ih ?_ (fun x hx => hfound x (List.mem_cons_of_mem _ hx))
      (fun x hx => hmark x (List.mem_cons_of_mem _ hx))
    have hmark := hmark _ List.mem_cons_self
    cases item with
    | tt slot layer =>
      obtain ⟨pid, hpid⟩ := Option.isSome_iff_exists.1 (hfound _ List.mem_cons_self rfl)
      change Walking Marks findPid items (a.applyTt (findPid i) slot layer)
      rw [hpid]
      exact h.applyTt hpid (hmark _ rfl)
    | cbs e layer cpu => exact h.applyCbs rfl (hmark _ rfl)
    | noCpu partitionId => exact h.noCpu _

end Applying

/-! ### From table to table -/

namespace Node

theorem lookup_taskMetaMap_evict {m : TaskMeta} :
    (n.evict t).bpf.taskMetaMap.lookup pid = some m ↔
      (∀ wid, Tracks n.workloadToPids wid pid → wid ∈ t.workloads) ∧
        n.bpf.taskMetaMap.lookup pid = some m := by
  have hgone := mem_flatMap_toList (m := n.workloadToPids) (x := pid)
    (p := fun wid => decide (wid ∉ t.workloads))
  simp only [decide_eq_true_eq] at hgone
  simp only [evict]
  rw [BpfHash.lookup_foldl_delete]
  split_ifs with h
  · obtain ⟨wid, hwid, htrack⟩ := hgone.1 h
    simp only [false_iff, not_and]
    exact fun hall => absurd (hall wid htrack) hwid
  · simp only [iff_and_self]
    intro _ wid htrack
    by_contra hwid
    exact h (hgone.2 ⟨wid, hwid, htrack⟩)

theorem lookup_ttTableMap_evict (h : Remembered Marks n) (key : TtSlotKey) :
    (n.evict t).bpf.ttTableMap.lookup key = none := by
  simp only [evict]
  rw [BpfHash.lookup_foldl_delete]
  split_ifs with hmem
  · rfl
  · rw [Option.eq_none_iff_forall_ne_some]
    intro slot hslot
    obtain ⟨wid, -, htrack⟩ := h.slots key slot hslot
    have hall := mem_flatMap_toList (m := n.workloadToSlots) (x := key) (p := fun _ => true)
    rw [List.filter_true] at hall
    exact hmem (hall.2 ⟨wid, rfl, htrack⟩)

theorem lookup_cbsMap_evict (h : Remembered Marks n) (key : UInt64) :
    (n.evict t).bpf.cbsMap.lookup key = none := by
  simp only [evict]
  rw [BpfHash.lookup_foldl_delete]
  split_ifs with hmem
  · rfl
  · rw [Option.eq_none_iff_forall_ne_some]
    intro c hc
    obtain ⟨wid, -, htrack⟩ := h.servers key c hc
    have hall := mem_flatMap_toList (m := n.workloadToCbsKeys) (x := key) (p := fun _ => true)
    rw [List.filter_true] at hall
    exact hmem (hall.2 ⟨wid, rfl, htrack⟩)

end Node

theorem Remembered.walking (h : Remembered Marks n) (hfits : t.cbsEntries.length ≤ 1024)
    (hagain : ∀ wid ∈ t.workloads, ∀ pid ∈ n.workloadToPids.getD wid [],
      FoundIn findPid t.items.zipIdx pid) :
    Applying.Walking Marks' findPid t.items.zipIdx ⟨n.evict t, 0, []⟩ where
  slots key slot hslot := by cases (Node.lookup_ttTableMap_evict h key).symm.trans hslot
  servers key c hc := by cases (Node.lookup_cbsMap_evict h key).symm.trans hc
  metas pid m hm := by
    obtain ⟨hstay, hm⟩ := Node.lookup_taskMetaMap_evict.1 hm
    obtain ⟨wid, -, htrack⟩ := h.metas pid m hm
    exact Or.inr (hagain wid (hstay wid htrack) pid htrack)
  room := by
    have hempty : (n.evict t).bpf.cbsMap.entries.size = 0 :=
      BpfHash.size_eq_length List.nodup_nil fun key => by
        rw [Node.lookup_cbsMap_evict h]
        simp
    have hcount : t.items.zipIdx.filterMap (·.1.config?) = t.cbsEntries := by
      rw [← filterMap_config_items, ← List.zipIdx_map_fst 0 t.items, List.filterMap_map]
      simp
    rw [hcount]
    dsimp only
    omega

theorem Remembered.tableCallback (h : Remembered Marks n) (hc : Complete n findPid t)
    (hmark : ∀ item ∈ t.items, ∀ w ∈ item.workload?, Marks' w.1 w.2) :
    Remembered Marks' (n.tableCallback findPid clock t).1 := by
  have hstart : Applying.Walking Marks' findPid t.items.zipIdx ⟨n.evict t, 0, []⟩ :=
    h.walking hc.fits hc.again
  have hwalk : Applying.Walking Marks' findPid [] (Applying.walk findPid clock _ t.items.zipIdx) :=
    hstart.walk hc.found fun x hx => hmark x.1 (List.fst_mem_of_mem_zipIdx hx)
  refine ⟨hwalk.slots, hwalk.servers, fun pid m hm => ?_⟩
  rcases hwalk.metas pid m hm with htrack | ⟨x, hx, -⟩
  · exact htrack
  · cases hx

namespace Daemon

variable {stdSort : StdSort} {d : Daemon}

/-- Every table can be applied without forgetting anything. -/
def AppliesCompletely (d : Daemon) : Action → Prop
  | .table findPid _ t => Complete d.node findPid t
  | .stop _ => True

theorem remembered_fresh (h : d.Fresh) : Remembered Marks d.node where
  slots key slot hslot := by
    rw [h.ttTableMap, BpfHash.lookup_empty] at hslot
    cases hslot
  servers key c hc := by
    rw [h.cbsMap, BpfHash.lookup_empty] at hc
    cases hc
  metas pid m hm := by
    rw [h.taskMetaMap, BpfHash.lookup_empty] at hm
    cases hm

theorem recoveryCallback_eq_some {d' : Daemon} {wid : Text} (h : d.recoveryCallback wid = some d') :
    ∃ wid', d.node.resolve wid = some wid' ∧ d'.node = d.node.stopWorkload wid' ∧
      d'.lastTable = d.lastTable ∧
      d'.slotTable = match d.node.workloadToHash[wid']? with
        | some hash => TimerMaster.removeWorkload hash d.slotTable
        | none => d.slotTable := by
  obtain ⟨wid', hwid', heq⟩ := Option.bind_eq_some_iff.1 h
  cases heq
  exact ⟨wid', hwid', rfl, rfl, rfl⟩

/-- **Nothing is forgotten** in a run in which every table is applied completely. -/
theorem remembered_of_reachableIf (h : (machine stdSort).ReachableIf AppliesCompletely d) :
    Remembered (fun _ _ => True) d.node := by
  refine h.invariant (fun _ => remembered_fresh) fun d a d' hd hok hn => ?_
  cases a with
  | table findPid clock t =>
    cases hn
    exact hd.tableCallback hok fun _ _ _ _ => trivial
  | stop wid =>
    obtain ⟨wid', -, hnode, -⟩ := recoveryCallback_eq_some hn
    rw [hnode]
    exact hd.stopWorkload wid'

end Daemon

end Timpani
