import Timpani.Node.Stop

/-!
# What a node holds after its commands

Seen from the orchestrator, a table replaces what a node runs, and a STOP takes one workload out of
it.  The daemon does this piecemeal: three maps and the slots of TimerMaster are filled item by
item, and a STOP deletes what was remembered for the workload.

* `Daemon.Holds` : the daemon holds the part of a table that belongs to given tasks, and nothing
  else;
* `Daemon.runs_tableCallback` : **a table replaces everything**, if it is applied without error;
* `Daemon.Runs.recoveryCallback` : **a STOP takes out one workload**.
-/

namespace Timpani

open GlobalScheduler (fnv1aHash)

variable {t : HierarchicalScheduleTable} {findPid : ℕ → Option UInt32} {clock : ℕ → UInt64}
  {pid : UInt32}

/-- The task of an item. -/
def Item.pair? : Item → Option (Text × Text)
  | .tt slot _ => some slot.pair
  | .cbs e _ _ => some e.pair
  | .noCpu _ => none

/-- The table carries the hashes of its names. -/
structure HierarchicalScheduleTable.Stamped (t : HierarchicalScheduleTable) : Prop where
  slots : ∀ slot ∈ t.ttSlots,
    slot.workloadIdHash = fnv1aHash slot.workloadId ∧ slot.taskIdHash = fnv1aHash slot.taskId
  servers : ∀ e ∈ t.cbsEntries,
    e.workloadIdHash = fnv1aHash e.workloadId ∧ e.taskIdHash = fnv1aHash e.taskId

/-- The table can be applied to the node: nothing is forgotten, all processes are found, no error
about a task is reported, and the hashes tell the workloads apart. -/
structure Applicable (n : Node) (findPid : ℕ → Option UInt32) (clock : ℕ → UInt64)
    (t : HierarchicalScheduleTable) : Prop where
  complete : Complete n findPid t
  success : Harmless (n.tableCallback findPid clock t).2
  found : ∀ x ∈ t.items.zipIdx, x.1.pair?.isSome → (findPid x.2).isSome
  /-- No process is found for two tasks. -/
  pids : ∀ x ∈ t.items.zipIdx, ∀ y ∈ t.items.zipIdx, x.1.pair?.isSome → y.1.pair?.isSome →
    findPid x.2 = findPid y.2 → x.1.pair? = y.1.pair?
  hash_inj : ∀ wid ∈ t.names, ∀ wid' ∈ t.names, fnv1aHash wid = fnv1aHash wid' → wid = wid'
  keys : ∀ e ∈ t.cbsEntries, ∀ e' ∈ t.cbsEntries, e.key = e'.key → e.workloadId = e'.workloadId

instance {n : Node} : Decidable (Applicable n findPid clock t) :=
  decidable_of_iff
    (Complete n findPid t ∧
      (∀ error ∈ (n.tableCallback findPid clock t).2,
        text "CBS partition has empty cpuset: " <+: error) ∧
      (∀ x ∈ t.items.zipIdx, x.1.pair?.isSome → (findPid x.2).isSome) ∧
      (∀ x ∈ t.items.zipIdx, ∀ y ∈ t.items.zipIdx, x.1.pair?.isSome → y.1.pair?.isSome →
        findPid x.2 = findPid y.2 → x.1.pair? = y.1.pair?) ∧
      (∀ wid ∈ t.names, ∀ wid' ∈ t.names, fnv1aHash wid = fnv1aHash wid' → wid = wid') ∧
      (∀ e ∈ t.cbsEntries, ∀ e' ∈ t.cbsEntries, e.key = e'.key → e.workloadId = e'.workloadId))
    ⟨fun ⟨h₁, h₂, h₃, h₄, h₅, h₆⟩ => ⟨h₁, h₂, h₃, h₄, h₅, h₆⟩,
      fun ⟨h₁, h₂, h₃, h₄, h₅, h₆⟩ => ⟨h₁, h₂, h₃, h₄, h₅, h₆⟩⟩

namespace Daemon

/-- The daemon holds exactly what the table has for the given tasks. -/
structure Holds (t : HierarchicalScheduleTable) (running : List (Text × Text)) (d : Daemon) :
    Prop where
  slots : ∀ key slot, d.node.bpf.ttTableMap.lookup key = some slot ↔
    ∃ x ∈ t.ttSlots.zipIdx, x.1.pair ∈ running ∧ ⟨x.1.cpu, .ofNat x.2⟩ = key ∧ x.1.toBpf = slot
  /-- Every server is that of a CBS task. -/
  servers : ∀ key c, d.node.bpf.cbsMap.lookup key = some c →
    ∃ e ∈ t.cbsEntries, e.pair ∈ running ∧ e.key = key ∧ ∃ now, e.initial now = c
  /-- Every CBS task has a server. -/
  served : ∀ e ∈ t.cbsEntries, e.pair ∈ running → (d.node.bpf.cbsMap.lookup e.key).isSome
  /-- Every process that is registered belongs to one of the tasks. -/
  metas : ∀ pid m, d.node.bpf.taskMetaMap.lookup pid = some m →
    ∃ p ∈ running, m.workloadIdHash = fnv1aHash p.1 ∧ m.taskIdHash = fnv1aHash p.2
  /-- Every task has a process that is registered. -/
  registered : ∀ p ∈ running, ∃ pid m, d.node.bpf.taskMetaMap.lookup pid = some m ∧
    m.workloadIdHash = fnv1aHash p.1 ∧ m.taskIdHash = fnv1aHash p.2
  timer : ∀ e, e ∈ d.slotTable ↔ ∃ x ∈ t.ttSlots.zipIdx, x.1.pair ∈ running ∧ x.1.toEntry x.2 = e

/-- The daemon runs some tasks of a table, and remembers for each entry the workload it belongs
to. -/
structure Runs (t : HierarchicalScheduleTable) (running : List (Text × Text)) (d : Daemon) :
    Prop where
  stamped : t.Stamped
  keys : ∀ e ∈ t.cbsEntries, ∀ e' ∈ t.cbsEntries, e.key = e'.key → e.workloadId = e'.workloadId
  subset : running ⊆ t.pairs
  sorted : Sorted fnv1aHash t d
  holds : Holds t running d

end Daemon

/-! ### The items of a table -/

theorem mem_pairs_iff {p : Text × Text} : p ∈ t.pairs ↔ ∃ item ∈ t.items, item.pair? = some p := by
  have hpairs : t.items.filterMap Item.pair? = t.pairs := by
    refine filterMap_items (fun _ => rfl) (fun l layer cpu => ?_) t
    simp only [Item.pair?, List.filterMap_eq_map']
    rfl
  rw [← hpairs, List.mem_filterMap]

theorem exists_mem_zipIdx {item : Item} (h : item ∈ t.items) : ∃ i, (item, i) ∈ t.items.zipIdx := by
  obtain ⟨i, hi⟩ := List.mem_iff_getElem?.1 h
  exact ⟨i, List.mem_zipIdx_iff_getElem?.2 hi⟩

theorem exists_item_of_mem_ttSlots {slot : TtSlot} (h : slot ∈ t.ttSlots) :
    ∃ layer, .tt slot layer ∈ t.items := by
  rw [← filterMap_slot_items] at h
  obtain ⟨item, hitem, hslot⟩ := List.mem_filterMap.1 h
  cases item with
  | tt slot layer =>
    cases hslot
    exact ⟨layer, hitem⟩
  | cbs | noCpu => cases hslot

theorem exists_item_of_mem_cbsEntries {e : CbsConfig} (h : e ∈ t.cbsEntries) :
    ∃ layer cpu, .cbs e layer cpu ∈ t.items := by
  rw [← filterMap_config_items] at h
  obtain ⟨item, hitem, hconfig⟩ := List.mem_filterMap.1 h
  cases item with
  | cbs e layer cpu =>
    cases hconfig
    exact ⟨layer, cpu, hitem⟩
  | tt | noCpu => cases hconfig

theorem pair_mem_pairs_of_slot {slot : TtSlot} (h : slot ∈ t.ttSlots) : slot.pair ∈ t.pairs := by
  obtain ⟨layer, hitem⟩ := exists_item_of_mem_ttSlots h
  exact mem_pairs_iff.2 ⟨_, hitem, rfl⟩

theorem pair_mem_pairs_of_cbs {e : CbsConfig} (h : e ∈ t.cbsEntries) : e.pair ∈ t.pairs := by
  obtain ⟨layer, cpu, hitem⟩ := exists_item_of_mem_cbsEntries h
  exact mem_pairs_iff.2 ⟨_, hitem, rfl⟩

namespace HierarchicalScheduleTable.Stamped

theorem registration (h : t.Stamped) {item : Item} (hitem : item ∈ t.items) {r : Registration}
    (hr : item.registration? = some r) :
    ∃ p, item.pair? = some p ∧ r.workloadIdHash = fnv1aHash p.1 ∧ r.taskIdHash = fnv1aHash p.2 := by
  cases item with
  | tt slot layer =>
    cases hr
    refine ⟨_, rfl, h.slots slot ?_⟩
    rw [← filterMap_slot_items]
    exact List.mem_filterMap.2 ⟨_, hitem, rfl⟩
  | cbs e layer cpu =>
    cases hr
    refine ⟨_, rfl, h.servers e ?_⟩
    rw [← filterMap_config_items]
    exact List.mem_filterMap.2 ⟨_, hitem, rfl⟩
  | noCpu partitionId => cases hr

theorem workload (h : t.Stamped) : ∀ w ∈ t.items.filterMap Item.workload?, w.2 = fnv1aHash w.1 := by
  intro w hw
  obtain ⟨item, hitem, hw⟩ := List.mem_filterMap.1 hw
  cases item with
  | tt slot layer =>
    obtain ⟨_, ⟨⟩, hhash, -⟩ := h.registration hitem rfl
    cases hw
    exact hhash
  | cbs e layer cpu =>
    obtain ⟨_, ⟨⟩, hhash, -⟩ := h.registration hitem rfl
    cases hw
    exact hhash
  | noCpu partitionId => cases hw

end HierarchicalScheduleTable.Stamped

/-! ### A table -/

namespace Applying

variable {a : Applying} {items : List (Item × ℕ)}

theorem lookup_applyItem {item : Item} {now : UInt64} {r : Registration}
    (h : Harmless (a.applyItem (some pid) now item).errors) (hr : item.registration? = some r) :
    (a.applyItem (some pid) now item).node.bpf.taskMetaMap.lookup pid = some r.toMeta := by
  cases item with
  | noCpu partitionId => cases hr
  | tt slot layer =>
    obtain ⟨_, ⟨⟩, hmeta, -⟩ := applyTt_of_harmless h
    cases hr
    rw [applyItem, node_applyTt, BpfHash.lookup_update, if_pos ⟨rfl, hmeta⟩]
  | cbs e layer cpu =>
    obtain ⟨_, ⟨⟩, hmeta, hserver⟩ := applyCbs_of_harmless h
    cases hr
    have hnode := node_applyCbs a pid now e layer cpu
    dsimp only at hnode
    rw [if_pos hmeta, if_pos hserver] at hnode
    rw [applyItem, hnode, BpfHash.lookup_update, if_pos ⟨rfl, hmeta⟩]

theorem writesMeta_of_walk (h : Harmless (walk findPid clock a items).errors) {m : TaskMeta}
    (hfound : FoundIn findPid items pid)
    (hm : (walk findPid clock a items).node.bpf.taskMetaMap.lookup pid = some m) :
    WritesMeta findPid items pid m := by
  induction items generalizing a with
  | nil =>
    obtain ⟨x, hx, -⟩ := hfound
    cases hx
  | cons x items ih =>
    obtain ⟨item, i⟩ := x
    change Harmless (walk findPid clock (a.applyItem (findPid i) (clock i) item) items).errors at h
    change (walk findPid clock (a.applyItem (findPid i) (clock i) item) items).node.bpf.taskMetaMap.lookup
      pid = some m at hm
    by_cases hrest : FoundIn findPid items pid
    · exact writesMeta_cons.2 (Or.inr (ih h hrest hm))
    -- no later item writes it
    · obtain ⟨y, hy, htask, hpid⟩ := hfound
      rcases List.mem_cons.1 hy with rfl | hy
      · have hwrote := wrote_walk (k := (a.applyItem (findPid i) (clock i) item).slotIdx.toNat)
          (UInt32.ofNat_toNat).symm h
        have hitem : Harmless (a.applyItem (findPid i) (clock i) item).errors :=
          fun error herror => h error ((errors_prefix_walk items).subset herror)
        obtain ⟨r, hr⟩ : ∃ r, item.registration? = some r := by
          cases item with
          | tt slot layer => exact ⟨_, rfl⟩
          | cbs e layer cpu => exact ⟨_, rfl⟩
          | noCpu partitionId => cases htask
        dsimp only at hpid
        rw [hpid] at hitem hwrote hm
        rcases hwrote.metas.of_lookup pid m hm with hold | hnew
        · rw [lookup_applyItem hitem hr] at hold
          exact ⟨_, List.mem_cons_self, r, hr, hpid, Option.some.inj hold⟩
        · exact absurd (writesMeta_iff.1 ⟨m, hnew⟩) hrest
      · exact absurd ⟨y, hy, htask, hpid⟩ hrest

end Applying

namespace Applicable

variable {n : Node}

theorem wrote (h : Applicable n findPid clock t) :
    Applying.Wrote findPid clock t.items.zipIdx 0 ⟨n.evict t, 0, []⟩
      (Applying.walk findPid clock ⟨n.evict t, 0, []⟩ t.items.zipIdx) :=
  Applying.wrote_walk rfl h.success

theorem length_ttSlots (h : Applicable n findPid clock t) : t.ttSlots.length ≤ 2048 :=
  length_le_of_isSome fun key hkey => h.wrote.slots.isSome key (Or.inr (mem_slotKeys.1 hkey))

theorem separate (h : Applicable n findPid clock t) (hs : t.Stamped) :
    Separate fnv1aHash findPid t := by
  have hworkload : ∀ item : Item, item.workload?.map Prod.fst = item.pair?.map Prod.fst := by
    rintro (_ | _ | _) <;> rfl
  have hsome : ∀ item : Item, item.workload?.isSome → item.pair?.isSome := by
    rintro (_ | _ | _) hitem <;> first | rfl | cases hitem
  refine ⟨hs.workload, h.hash_inj, h.keys, fun x hx y hy hx' hy' _ heq => ?_,
    h.length_ttSlots.trans (by norm_num)⟩
  rw [hworkload, hworkload, h.pids x hx y hy (hsome _ hx') (hsome _ hy') heq]

end Applicable

namespace Daemon

variable {stdSort : StdSort} {d d' : Daemon} {running : List (Text × Text)} {wid : Text}

section Table

variable (h : Remembered (fun _ _ => True) d.node) (ha : Applicable d.node findPid clock t)

include h ha

theorem lookup_ttTableMap_tableCallback {key : TtSlotKey} {slot : TtSlotBpf} :
    (d.node.tableCallback findPid clock t).1.bpf.ttTableMap.lookup key = some slot ↔
      WritesSlot t.items.zipIdx 0 key slot := by
  have hslots : ∀ slot,
      (d.node.tableCallback findPid clock t).1.bpf.ttTableMap.lookup key = some slot →
        WritesSlot t.items.zipIdx 0 key slot := by
    intro slot hslot
    refine (ha.wrote.slots.of_lookup key slot hslot).resolve_left fun hold => ?_
    cases (Node.lookup_ttTableMap_evict h key).symm.trans hold
  refine ⟨hslots slot, fun hw => ?_⟩
  obtain ⟨slot', hslot'⟩ := Option.isSome_iff_exists.1
    (ha.wrote.slots.isSome key (Or.inr ⟨slot, hw⟩))
  rw [hw.unique ha.length_ttSlots (hslots slot' hslot')]
  exact hslot'

theorem writesServer_of_lookup {key : UInt64} {c : CbsState}
    (hc : (d.node.tableCallback findPid clock t).1.bpf.cbsMap.lookup key = some c) :
    WritesServer clock t.items.zipIdx key c := by
  refine (ha.wrote.servers.of_lookup key c hc).resolve_left fun hold => ?_
  cases (Node.lookup_cbsMap_evict h key).symm.trans hold

theorem writesMeta_of_lookup {m : TaskMeta}
    (hm : (d.node.tableCallback findPid clock t).1.bpf.taskMetaMap.lookup pid = some m) :
    WritesMeta findPid t.items.zipIdx pid m := by
  refine Applying.writesMeta_of_walk ha.success ?_ hm
  rcases ha.wrote.metas.of_lookup pid m hm with hold | hnew
  · obtain ⟨hstay, hold⟩ := Node.lookup_taskMetaMap_evict.1 hold
    obtain ⟨wid, -, htrack⟩ := h.metas pid m hold
    exact ha.complete.again wid (hstay wid htrack) pid htrack
  · exact writesMeta_iff.1 ⟨m, hnew⟩

theorem holds_tableCallback (hs : t.Stamped) :
    Holds t t.pairs (d.tableCallback stdSort findPid clock t) := by
  refine ⟨fun key slot => ?_, fun key c hc => ?_, fun e he _ => ?_, fun pid m hm => ?_,
    fun p hp => ?_, fun e => ?_⟩
  · refine (lookup_ttTableMap_tableCallback h ha).trans ?_
    rw [WritesSlot, slots_items_zipIdx]
    refine exists_congr fun x => and_congr_right fun hx => (and_iff_right ?_).symm
    exact pair_mem_pairs_of_slot (List.fst_mem_of_mem_zipIdx hx)
  · obtain ⟨x, hx, e, he, hkey, hinit⟩ := writesServer_of_lookup h ha hc
    have hmem : e ∈ t.cbsEntries := by
      rw [← filterMap_config_items]
      exact List.mem_filterMap.2 ⟨x.1, List.fst_mem_of_mem_zipIdx hx, he⟩
    exact ⟨e, hmem, pair_mem_pairs_of_cbs hmem, hkey, _, hinit⟩
  · exact ha.wrote.servers.isSome e.key
      (Or.inr ((writesServer_iff clock).2 (List.mem_map_of_mem he)))
  · obtain ⟨x, hx, r, hr, -, rfl⟩ := writesMeta_of_lookup h ha hm
    have hitem := List.fst_mem_of_mem_zipIdx hx
    obtain ⟨p, hp, hhashes⟩ := hs.registration hitem hr
    exact ⟨p, mem_pairs_iff.2 ⟨x.1, hitem, hp⟩, hhashes⟩
  · obtain ⟨item, hitem, hpair⟩ := mem_pairs_iff.1 hp
    obtain ⟨i, hi⟩ := exists_mem_zipIdx hitem
    obtain ⟨pid, hpid⟩ := Option.isSome_iff_exists.1 (ha.found _ hi (by rw [hpair]; rfl))
    have hfound : FoundIn findPid t.items.zipIdx pid := by
      refine ⟨_, hi, ?_, hpid⟩
      cases item <;> first | rfl | cases hpair
    obtain ⟨m, hm⟩ := Option.isSome_iff_exists.1
      (ha.wrote.metas.isSome pid (Or.inr (writesMeta_iff.2 hfound)))
    -- the item that registered the process is about the same task
    obtain ⟨y, hy, r, hr, hpid', rfl⟩ := writesMeta_of_lookup h ha hm
    obtain ⟨q, hq, hhashes⟩ := hs.registration (List.fst_mem_of_mem_zipIdx hy) hr
    have hsame := ha.pids _ hi _ hy (by rw [hpair]; rfl) (by rw [hq]; rfl) (hpid.trans hpid'.symm)
    cases hpair.symm.trans (hsame.trans hq)
    exact ⟨pid, _, hm, hhashes⟩
  · have hperm : (d.tableCallback stdSort findPid clock t).slotTable.Perm t.slotEntries :=
      perm_setScheduleTable _
    rw [hperm.mem_iff, HierarchicalScheduleTable.slotEntries, List.mem_map]
    refine exists_congr fun x => and_congr_right fun hx => (and_iff_right ?_).symm
    exact pair_mem_pairs_of_slot (List.fst_mem_of_mem_zipIdx hx)

/-- **A table replaces everything** that the daemon ran. -/
theorem runs_tableCallback (hs : t.Stamped) :
    Runs t t.pairs (d.tableCallback stdSort findPid clock t) :=
  ⟨hs, ha.keys, fun _ hp => hp, sorted_tableCallback h ha.complete (ha.separate hs),
    holds_tableCallback h ha hs⟩

end Table

/-! ### A STOP -/

namespace Runs

variable (h : Runs t running d)

include h

theorem fst_mem_names {p : Text × Text} (hp : p ∈ running) : p.1 ∈ t.names :=
  List.mem_map_of_mem (h.subset hp)

theorem tracks_slot_iff {x : TtSlot × ℕ} (hx : x ∈ t.ttSlots.zipIdx) (hrun : x.1.pair ∈ running) :
    Tracks d.node.workloadToSlots wid ⟨x.1.cpu, .ofNat x.2⟩ ↔ x.1.workloadId = wid := by
  obtain ⟨w, ⟨hw, hhash⟩, htrack⟩ := h.sorted.remembered.slots _ _
    ((h.holds.slots _ _).2 ⟨x, hx, hrun, rfl, rfl⟩)
  have hstamp := (h.stamped.slots x.1 (List.fst_mem_of_mem_zipIdx hx)).1
  have howner := h.sorted.hash_inj _ (h.fst_mem_names hrun) w hw (hstamp.symm.trans hhash)
  constructor
  · exact fun htrack' => howner.trans (h.sorted.slots_unique _ _ _ htrack htrack')
  · rintro rfl
    rwa [← howner] at htrack

theorem tracks_server_iff {e : CbsConfig} (he : e ∈ t.cbsEntries) (hrun : e.pair ∈ running) :
    Tracks d.node.workloadToCbsKeys wid e.key ↔ e.workloadId = wid := by
  obtain ⟨c, hc⟩ := Option.isSome_iff_exists.1 (h.holds.served e he hrun)
  obtain ⟨e', he', hrun', hkey, now, rfl⟩ := h.holds.servers _ c hc
  obtain ⟨w, ⟨hw, hhash⟩, htrack⟩ := h.sorted.remembered.servers _ _ hc
  have hstamp : fnv1aHash e'.workloadId = fnv1aHash w := by
    rw [← hhash, ← hkey, ← (h.stamped.servers e' he').1, CbsConfig.key, CbsConfig.initial,
      UInt64.xor_assoc, UInt64.xor_self, UInt64.xor_zero]
  have howner : e'.workloadId = w := h.sorted.hash_inj _ (h.fst_mem_names hrun') w hw hstamp
  rw [h.keys e he e' he' hkey.symm]
  constructor
  · exact fun htrack' => howner.trans (h.sorted.servers_unique _ _ _ htrack htrack')
  · rintro rfl
    exact howner ▸ htrack

theorem tracks_pid_iff {m : TaskMeta} {p : Text × Text}
    (hm : d.node.bpf.taskMetaMap.lookup pid = some m) (hrun : p ∈ running)
    (hp : m.workloadIdHash = fnv1aHash p.1) :
    Tracks d.node.workloadToPids wid pid ↔ p.1 = wid := by
  obtain ⟨w, ⟨hw, hhash⟩, htrack⟩ := h.sorted.remembered.metas _ _ hm
  have howner := h.sorted.hash_inj _ (h.fst_mem_names hrun) w hw (hp.symm.trans hhash)
  constructor
  · exact fun htrack' => howner.trans (h.sorted.metas_unique _ _ _ htrack htrack')
  · rintro rfl
    exact howner ▸ htrack

theorem mem_slotTable_stop {x : TtSlot × ℕ} (hx : x ∈ t.ttSlots.zipIdx)
    (hrun : x.1.pair ∈ running)
    (hslotTable : d'.slotTable = match d.node.workloadToHash[wid]? with
      | some hash => TimerMaster.removeWorkload hash d.slotTable
      | none => d.slotTable) :
    x.1.toEntry x.2 ∈ d'.slotTable ↔ x.1.workloadId ≠ wid := by
  have hmem : x.1.toEntry x.2 ∈ d.slotTable := (h.holds.timer _).2 ⟨x, hx, hrun, rfl⟩
  have hstamp : (x.1.toEntry x.2).workloadIdHash = fnv1aHash x.1.workloadId :=
    (h.stamped.slots x.1 (List.fst_mem_of_mem_zipIdx hx)).1
  have hname : x.1.workloadId ∈ t.names := h.fst_mem_names hrun
  rw [hslotTable]
  cases hget : d.node.workloadToHash[wid]? with
  | some hash =>
    obtain ⟨hwid, rfl⟩ := h.sorted.hashes wid hash hget
    dsimp only
    rw [TimerMaster.removeWorkload, List.mem_filter, and_iff_right hmem, decide_eq_true_iff, hstamp]
    exact not_congr ⟨h.sorted.hash_inj _ hname _ hwid, congrArg _⟩
  | none =>
    refine iff_of_true hmem ?_
    rintro rfl
    obtain ⟨w, hw, hhash⟩ := h.sorted.slotTable _ hmem
    obtain ⟨hash, hhash'⟩ := Option.isSome_iff_exists.1
      (Std.ExtTreeMap.mem_iff_isSome_getElem?.1 hw)
    have hnames := (h.sorted.hashes w hash hhash').1
    cases h.sorted.hash_inj _ hname w hnames (hstamp.symm.trans hhash)
    cases hget.symm.trans hhash'

/-- **A STOP takes out one workload**, if the daemon takes the name for itself. -/
theorem recoveryCallback (hresolve : d.node.resolve wid = some wid)
    (hstop : d.recoveryCallback wid = some d') : Runs t (running.filter (·.1 ≠ wid)) d' := by
  refine ⟨h.stamped, h.keys, fun p hp => h.subset (List.mem_filter.1 hp).1,
    h.sorted.recoveryCallback hstop, ?_⟩
  obtain ⟨_, hwid, hnode, -, hslotTable⟩ := recoveryCallback_eq_some hstop
  cases hresolve.symm.trans hwid
  have hmem : ∀ p : Text × Text, p ∈ running.filter (·.1 ≠ wid) ↔ p ∈ running ∧ p.1 ≠ wid := by
    simp
  refine ⟨fun key slot => ?_, fun key c hc => ?_, fun e he hrun => ?_, fun pid m hm => ?_,
    fun p hp => ?_, fun entry => ?_⟩
  · rw [hnode, Node.lookup_ttTableMap_stopWorkload, h.holds.slots]
    constructor
    · rintro ⟨hnot, x, hx, hrun, rfl, rfl⟩
      refine ⟨x, hx, (hmem _).2 ⟨hrun, fun heq => hnot ?_⟩, rfl, rfl⟩
      exact (h.tracks_slot_iff hx hrun).2 heq
    · rintro ⟨x, hx, hrun, rfl, rfl⟩
      obtain ⟨hrun, hne⟩ := (hmem _).1 hrun
      exact ⟨fun htrack => hne ((h.tracks_slot_iff hx hrun).1 htrack), x, hx, hrun, rfl, rfl⟩
  · rw [hnode, Node.lookup_cbsMap_stopWorkload] at hc
    obtain ⟨e, he, hrun, rfl, hinit⟩ := h.holds.servers key c hc.2
    refine ⟨e, he, (hmem _).2 ⟨hrun, fun heq => hc.1 ?_⟩, rfl, hinit⟩
    exact (h.tracks_server_iff he hrun).2 heq
  · obtain ⟨hrun, hne⟩ := (hmem _).1 hrun
    obtain ⟨c, hc⟩ := Option.isSome_iff_exists.1 (h.holds.served e he hrun)
    rw [Option.isSome_iff_exists]
    refine ⟨c, ?_⟩
    rw [hnode, Node.lookup_cbsMap_stopWorkload]
    exact ⟨fun htrack => hne ((h.tracks_server_iff he hrun).1 htrack), hc⟩
  · rw [hnode, Node.lookup_taskMetaMap_stopWorkload] at hm
    obtain ⟨p, hrun, hhashes⟩ := h.holds.metas pid m hm.2
    refine ⟨p, (hmem p).2 ⟨hrun, fun heq => hm.1 ?_⟩, hhashes⟩
    exact (h.tracks_pid_iff hm.2 hrun hhashes.1).2 heq
  · obtain ⟨hrun, hne⟩ := (hmem p).1 hp
    obtain ⟨pid, m, hm, hhashes⟩ := h.holds.registered p hrun
    refine ⟨pid, m, ?_, hhashes⟩
    rw [hnode, Node.lookup_taskMetaMap_stopWorkload]
    exact ⟨fun htrack => hne ((h.tracks_pid_iff hm hrun hhashes.1).1 htrack), hm⟩
  · constructor
    · intro hentry
      have hold : entry ∈ d.slotTable := by
        rw [hslotTable] at hentry
        split at hentry
        · exact (List.mem_filter.1 hentry).1
        · exact hentry
      obtain ⟨x, hx, hrun, rfl⟩ := (h.holds.timer entry).1 hold
      exact ⟨x, hx, (hmem _).2 ⟨hrun, (h.mem_slotTable_stop hx hrun hslotTable).1 hentry⟩, rfl⟩
    · rintro ⟨x, hx, hrun, rfl⟩
      obtain ⟨hrun, hne⟩ := (hmem _).1 hrun
      exact (h.mem_slotTable_stop hx hrun hslotTable).2 hne

end Runs

end Daemon

end Timpani
