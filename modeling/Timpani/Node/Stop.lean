import Timpani.Node.Exact

/-!
# Stopping a workload

A STOP should remove everything of one workload and nothing of another.  What belongs to a workload
is told by the hash of its name, which is in every entry (in that of a server, mixed into the key).
The daemon goes by what it remembers instead, and by names that a STOP may give as hashes.

* `Separate` : a table in which workloads share no hash, no server key and no process;
* `Evicted` : exactly the entries of the workload are gone;
* `evicted_of_separate` : a STOP does this in every run in which every table is applied completely
  and keeps its workloads separate;
* `not_evicted` : the slot of a task that was not found survives the STOP of its workload; and the
  STOP of `a` takes the server of `b/a` away, because `a/b` has the same key.
-/

namespace Timpani

variable {hash : Text → UInt64} {n n' : Node} {t : HierarchicalScheduleTable}
  {findPid : ℕ → Option UInt32} {clock : ℕ → UInt64} {pid : UInt32} {wid : Text}

/-! ### Separate workloads -/

/-- The names of the workloads of a table. -/
def HierarchicalScheduleTable.names (t : HierarchicalScheduleTable) : List Text :=
  t.pairs.map Prod.fst

/-- The workloads of the table have nothing in common. -/
structure Separate (hash : Text → UInt64) (findPid : ℕ → Option UInt32)
    (t : HierarchicalScheduleTable) : Prop where
  /-- The table carries the hashes of the names. -/
  hashed : ∀ w ∈ t.items.filterMap Item.workload?, w.2 = hash w.1
  hash_inj : ∀ wid ∈ t.names, ∀ wid' ∈ t.names, hash wid = hash wid' → wid = wid'
  keys : ∀ e ∈ t.cbsEntries, ∀ e' ∈ t.cbsEntries, e.key = e'.key → e.workloadId = e'.workloadId
  /-- No process is found for tasks of two workloads. -/
  pids : ∀ x ∈ t.items.zipIdx, ∀ y ∈ t.items.zipIdx, x.1.workload?.isSome → y.1.workload?.isSome →
    (findPid x.2).isSome → findPid x.2 = findPid y.2 →
    x.1.workload?.map Prod.fst = y.1.workload?.map Prod.fst
  /-- Every slot has a number of its own. -/
  numbered : t.ttSlots.length ≤ 2 ^ 32

instance : Decidable (Separate hash findPid t) :=
  decidable_of_iff
    ((∀ w ∈ t.items.filterMap Item.workload?, w.2 = hash w.1) ∧
      (∀ wid ∈ t.names, ∀ wid' ∈ t.names, hash wid = hash wid' → wid = wid') ∧
      (∀ e ∈ t.cbsEntries, ∀ e' ∈ t.cbsEntries, e.key = e'.key → e.workloadId = e'.workloadId) ∧
      (∀ x ∈ t.items.zipIdx, ∀ y ∈ t.items.zipIdx, x.1.workload?.isSome → y.1.workload?.isSome →
        (findPid x.2).isSome → findPid x.2 = findPid y.2 →
        x.1.workload?.map Prod.fst = y.1.workload?.map Prod.fst) ∧
      t.ttSlots.length ≤ 2 ^ 32)
    ⟨fun ⟨h₁, h₂, h₃, h₄, h₅⟩ => ⟨h₁, h₂, h₃, h₄, h₅⟩, fun ⟨h₁, h₂, h₃, h₄, h₅⟩ => ⟨h₁, h₂, h₃, h₄, h₅⟩⟩

/-- The name could be meant as a hash. -/
def NamesHash (wid : Text) : Prop := text "0x" <+: wid ∨ ∃ hash : UInt64, natText hash.toNat = wid

/-! ### What a STOP should do -/

/-- Exactly what belongs to the workload is gone. -/
structure Evicted (hash : Text → UInt64) (t : HierarchicalScheduleTable) (wid : Text)
    (d d' : Daemon) : Prop where
  slots : ∀ key slot, d'.node.bpf.ttTableMap.lookup key = some slot →
    slot.workloadIdHash ≠ hash wid
  servers : ∀ key c, d'.node.bpf.cbsMap.lookup key = some c → key ^^^ c.taskIdHash ≠ hash wid
  metas : ∀ pid m, d'.node.bpf.taskMetaMap.lookup pid = some m → m.workloadIdHash ≠ hash wid
  slotTable : ∀ e ∈ d'.slotTable, e.workloadIdHash ≠ hash wid
  other_slots : ∀ wid' ∈ t.names, wid' ≠ wid → ∀ key slot, slot.workloadIdHash = hash wid' →
    (d'.node.bpf.ttTableMap.lookup key = some slot ↔ d.node.bpf.ttTableMap.lookup key = some slot)
  other_servers : ∀ wid' ∈ t.names, wid' ≠ wid → ∀ key c, key ^^^ c.taskIdHash = hash wid' →
    (d'.node.bpf.cbsMap.lookup key = some c ↔ d.node.bpf.cbsMap.lookup key = some c)
  other_metas : ∀ wid' ∈ t.names, wid' ≠ wid → ∀ pid m, m.workloadIdHash = hash wid' →
    (d'.node.bpf.taskMetaMap.lookup pid = some m ↔ d.node.bpf.taskMetaMap.lookup pid = some m)
  other_slotTable : ∀ wid' ∈ t.names, wid' ≠ wid →
    d'.slotTable.filter (fun e => e.workloadIdHash = hash wid') =
      d.slotTable.filter (fun e => e.workloadIdHash = hash wid')

/-! ### What the walk remembers -/

/-- What is remembered after the items is remembered before, or about one of them. -/
structure Notes (findPid : ℕ → Option UInt32) (items : List (Item × ℕ)) (k : ℕ) (n n' : Node) :
    Prop where
  slots : ∀ wid key, Tracks n'.workloadToSlots wid key → Tracks n.workloadToSlots wid key ∨
    ∃ x ∈ (items.filterMap (·.1.slot?)).zipIdx k, x.1.workloadId = wid ∧ ⟨x.1.cpu, .ofNat x.2⟩ = key
  servers : ∀ wid key, Tracks n'.workloadToCbsKeys wid key → Tracks n.workloadToCbsKeys wid key ∨
    ∃ x ∈ items, ∃ e ∈ x.1.config?, e.workloadId = wid ∧ e.key = key
  metas : ∀ wid pid, Tracks n'.workloadToPids wid pid → Tracks n.workloadToPids wid pid ∨
    ∃ x ∈ items, (∃ h, x.1.workload? = some (wid, h)) ∧ findPid x.2 = some pid
  hashes : ∀ wid h, n'.workloadToHash[wid]? = some h → n.workloadToHash[wid]? = some h ∨
    ∃ x ∈ items, x.1.workload? = some (wid, h)
  /-- The hash of every TT slot is noted. -/
  slot_hashes : ∀ wid, wid ∈ n.workloadToHash ∨
    (∃ x ∈ items, ∃ slot ∈ x.1.slot?, slot.workloadId = wid) → wid ∈ n'.workloadToHash

namespace Notes

variable {items : List (Item × ℕ)} {k k' i : ℕ} {a : Applying} {slot : TtSlot} {e : CbsConfig}
  {layer : UInt8} {cpu : UInt32} {now : UInt64}

theorem refl (findPid : ℕ → Option UInt32) (k : ℕ) (n : Node) : Notes findPid [] k n n :=
  ⟨fun _ _ => Or.inl, fun _ _ => Or.inl, fun _ _ => Or.inl, fun _ _ => Or.inl,
    fun _ h => h.resolve_right (by simp)⟩

theorem cons {x : Item × ℕ} {n₁ : Node} (h : Notes findPid [x] k n n₁)
    (h' : Notes findPid items k' n₁ n')
    (hk : (((x :: items).filterMap (·.1.slot?)).zipIdx k) =
      ([x].filterMap (·.1.slot?)).zipIdx k ++ (items.filterMap (·.1.slot?)).zipIdx k') :
    Notes findPid (x :: items) k n n' where
  slots wid key htrack := by
    rw [hk]
    rcases h'.slots wid key htrack with hold | ⟨y, hy, hnew⟩
    · rcases h.slots wid key hold with hold | ⟨y, hy, hnew⟩
      · exact Or.inl hold
      · exact Or.inr ⟨y, List.mem_append_left _ hy, hnew⟩
    · exact Or.inr ⟨y, List.mem_append_right _ hy, hnew⟩
  servers wid key htrack := by
    rcases h'.servers wid key htrack with hold | ⟨y, hy, hnew⟩
    · refine (h.servers wid key hold).imp_right ?_
      rintro ⟨y, hy, hnew⟩
      exact ⟨y, List.mem_cons.2 (Or.inl (List.mem_singleton.1 hy)), hnew⟩
    · exact Or.inr ⟨y, List.mem_cons_of_mem _ hy, hnew⟩
  metas wid pid htrack := by
    rcases h'.metas wid pid htrack with hold | ⟨y, hy, hnew⟩
    · refine (h.metas wid pid hold).imp_right ?_
      rintro ⟨y, hy, hnew⟩
      exact ⟨y, List.mem_cons.2 (Or.inl (List.mem_singleton.1 hy)), hnew⟩
    · exact Or.inr ⟨y, List.mem_cons_of_mem _ hy, hnew⟩
  hashes wid hw hhash := by
    rcases h'.hashes wid hw hhash with hold | ⟨y, hy, hnew⟩
    · refine (h.hashes wid hw hold).imp_right ?_
      rintro ⟨y, hy, hnew⟩
      exact ⟨y, List.mem_cons.2 (Or.inl (List.mem_singleton.1 hy)), hnew⟩
    · exact Or.inr ⟨y, List.mem_cons_of_mem _ hy, hnew⟩
  slot_hashes wid hw := by
    refine h'.slot_hashes wid ?_
    rcases hw with hw | ⟨y, hy, hslot⟩
    · exact Or.inl (h.slot_hashes wid (Or.inl hw))
    · rcases List.mem_cons.1 hy with rfl | hy
      · exact Or.inl (h.slot_hashes wid (Or.inr ⟨y, List.mem_singleton_self y, hslot⟩))
      · exact Or.inr ⟨y, hy, hslot⟩

theorem getElem?_insert_cases {m : Std.ExtTreeMap Text UInt64} {wid wid' : Text} {h h' : UInt64}
    (hget : (m.insert wid h)[wid']? = some h') : m[wid']? = some h' ∨ wid = wid' ∧ h = h' := by
  rw [Std.ExtTreeMap.getElem?_insert] at hget
  split_ifs at hget with heq
  · exact Or.inr ⟨Std.LawfulEqOrd.eq_of_compare heq, Option.some.inj hget⟩
  · exact Or.inl hget

theorem mem_insert {m : Std.ExtTreeMap Text UInt64} {wid wid' : Text} {h : UInt64} :
    wid' ∈ m.insert wid h ↔ wid = wid' ∨ wid' ∈ m := by
  rw [Std.ExtTreeMap.mem_insert, Std.LawfulEqOrd.compare_eq_iff_eq]

theorem applyTt (hidx : a.slotIdx = .ofNat k) (hfound : findPid i = some pid) :
    Notes findPid [(.tt slot layer, i)] k a.node (a.applyTt (some pid) slot layer).node := by
  constructor <;> rw [Applying.node_applyTt]
  · intro wid key htrack
    refine (tracks_push.1 htrack).imp_right ?_
    rintro ⟨rfl, rfl⟩
    exact ⟨(slot, k), by simp [Item.slot?], rfl, by rw [hidx]⟩
  · exact fun wid key => Or.inl
  · intro wid pid' htrack
    refine (tracks_push.1 htrack).imp_right ?_
    rintro ⟨rfl, rfl⟩
    exact ⟨_, List.mem_singleton_self _, ⟨_, rfl⟩, hfound⟩
  · intro wid h hget
    refine (getElem?_insert_cases hget).imp_right ?_
    rintro ⟨rfl, rfl⟩
    exact ⟨_, List.mem_singleton_self _, rfl⟩
  · rintro wid (hold | ⟨x, hx, slot', hslot', rfl⟩)
    · exact mem_insert.2 (Or.inr hold)
    · obtain rfl := List.mem_singleton.1 hx
      cases hslot'
      exact mem_insert.2 (Or.inl rfl)

theorem applyCbs {p : Option UInt32} (hfound : findPid i = p) :
    Notes findPid [(.cbs e layer cpu, i)] k a.node (a.applyCbs p now e layer cpu).node := by
  have hsame : ∀ n' : Node, n'.workloadToSlots = a.node.workloadToSlots →
      n'.workloadToCbsKeys = a.node.workloadToCbsKeys → n'.workloadToPids = a.node.workloadToPids →
      n'.workloadToHash = a.node.workloadToHash →
      Notes findPid [(.cbs e layer cpu, i)] k a.node n' := by
    intro n' hslots hservers hpids hhash
    refine ⟨fun wid key h => Or.inl (hslots ▸ h), fun wid key h => Or.inl (hservers ▸ h),
      fun wid pid h => Or.inl (hpids ▸ h), fun wid h hget => Or.inl (hhash ▸ hget), fun wid h => ?_⟩
    rw [hhash]
    exact h.resolve_right (by simp [Item.slot?])
  cases p with
  | none => exact hsame _ rfl rfl rfl rfl
  | some pid =>
    rw [Applying.node_applyCbs]
    dsimp only
    split_ifs
    · constructor
      · exact fun wid key => Or.inl
      · intro wid key htrack
        refine (tracks_push.1 htrack).imp_right ?_
        rintro ⟨rfl, rfl⟩
        exact ⟨_, List.mem_singleton_self _, e, rfl, rfl, rfl⟩
      · intro wid pid' htrack
        refine (tracks_push.1 htrack).imp_right ?_
        rintro ⟨rfl, rfl⟩
        exact ⟨_, List.mem_singleton_self _, ⟨_, rfl⟩, hfound⟩
      · intro wid h hget
        refine (getElem?_insert_cases hget).imp_right ?_
        rintro ⟨rfl, rfl⟩
        exact ⟨_, List.mem_singleton_self _, rfl⟩
      · rintro wid (hold | ⟨x, hx, slot', hslot', -⟩)
        · exact mem_insert.2 (Or.inr hold)
        · obtain rfl := List.mem_singleton.1 hx
          cases hslot'
    · exact hsame _ rfl rfl rfl rfl
    · exact hsame _ rfl rfl rfl rfl

theorem walk (hidx : a.slotIdx = .ofNat k)
    (hfound : ∀ x ∈ items, x.1.slot?.isSome → (findPid x.2).isSome) :
    Notes findPid items k a.node (Applying.walk findPid clock a items).node := by
  induction items generalizing a k with
  | nil => exact refl findPid k a.node
  | cons x items ih =>
    obtain ⟨item, i⟩ := x
    have hrest : ∀ x ∈ items, x.1.slot?.isSome → (findPid x.2).isSome :=
      fun x hx => hfound x (List.mem_cons_of_mem _ hx)
    cases item with
    | tt slot layer =>
      obtain ⟨pid, hpid⟩ := Option.isSome_iff_exists.1 (hfound _ List.mem_cons_self rfl)
      have hfirst : Notes findPid [(.tt slot layer, i)] k a.node
          (a.applyTt (findPid i) slot layer).node := hpid ▸ applyTt hidx hpid
      have hnext : (a.applyTt (findPid i) slot layer).slotIdx = .ofNat (k + 1) := by
        rw [hpid, Applying.slotIdx_applyTt, hidx, UInt32.ofNat_add]
        rfl
      exact hfirst.cons (ih hnext hrest) (by simp [Item.slot?])
    | cbs e layer cpu =>
      have hfirst : Notes findPid [(.cbs e layer cpu, i)] k a.node
          (a.applyCbs (findPid i) (clock i) e layer cpu).node := applyCbs rfl
      have hnext : (a.applyCbs (findPid i) (clock i) e layer cpu).slotIdx = .ofNat k := by
        rw [Applying.slotIdx_applyCbs, hidx]
      exact hfirst.cons (ih hnext hrest) (by simp [Item.slot?])
    | noCpu partitionId =>
      have hfirst : Notes findPid [(.noCpu partitionId, i)] k a.node a.node :=
        ⟨fun _ _ => Or.inl, fun _ _ => Or.inl, fun _ _ => Or.inl, fun _ _ => Or.inl,
          fun _ h => h.resolve_right (by simp [Item.slot?])⟩
      have htail : Notes findPid items k a.node (Applying.walk findPid clock
          (a.applyItem (findPid i) (clock i) (.noCpu partitionId)) items).node :=
        ih (a := a.applyItem (findPid i) (clock i) (.noCpu partitionId)) hidx hrest
      exact hfirst.cons htail (by simp [Item.slot?])

end Notes

/-! ### What a table leaves -/

theorem mem_names_of_mem_items {item : Item} {w : Text × UInt64} (hitem : item ∈ t.items)
    (hw : item.workload? = some w) : w.1 ∈ t.names := by
  simp only [HierarchicalScheduleTable.items, PartitionConfig.items, List.mem_flatMap,
    List.mem_append, List.mem_map] at hitem
  simp only [HierarchicalScheduleTable.names, HierarchicalScheduleTable.pairs,
    HierarchicalScheduleTable.layers, List.mem_map, List.mem_flatMap, List.mem_append]
  obtain ⟨p, hp, l, hl, (⟨slot, hslot, rfl⟩ | hno) | ⟨e, he, rfl⟩⟩ := hitem
  · cases hw
    exact ⟨slot.pair, ⟨l, ⟨p, hp, hl⟩, Or.inl ⟨slot, hslot, rfl⟩⟩, rfl⟩
  · split_ifs at hno
    · obtain rfl := List.mem_singleton.1 hno
      cases hw
    · cases hno
  · cases hw
    exact ⟨e.pair, ⟨l, ⟨p, hp, hl⟩, Or.inr ⟨e, he, rfl⟩⟩, rfl⟩

namespace Daemon

variable {stdSort : StdSort} {d d' : Daemon}

/-- Everything the daemon holds is remembered for the one workload of the table it belongs to. -/
structure Sorted (hash : Text → UInt64) (t : HierarchicalScheduleTable) (d : Daemon) : Prop where
  hash_inj : ∀ wid ∈ t.names, ∀ wid' ∈ t.names, hash wid = hash wid' → wid = wid'
  remembered : Remembered (fun wid h => wid ∈ t.names ∧ h = hash wid) d.node
  slots_unique : ∀ wid wid' key, Tracks d.node.workloadToSlots wid key →
    Tracks d.node.workloadToSlots wid' key → wid = wid'
  servers_unique : ∀ wid wid' key, Tracks d.node.workloadToCbsKeys wid key →
    Tracks d.node.workloadToCbsKeys wid' key → wid = wid'
  metas_unique : ∀ wid wid' pid, Tracks d.node.workloadToPids wid pid →
    Tracks d.node.workloadToPids wid' pid → wid = wid'
  hashes : ∀ wid h, d.node.workloadToHash[wid]? = some h → wid ∈ t.names ∧ h = hash wid
  slotTable : ∀ e ∈ d.slotTable, ∃ wid ∈ d.node.workloadToHash, e.workloadIdHash = hash wid

theorem sorted_tableCallback (h : Remembered (fun _ _ => True) d.node)
    (hc : Complete d.node findPid t) (hs : Separate hash findPid t) :
    Sorted hash t (d.tableCallback stdSort findPid clock t) := by
  have hmark : ∀ item ∈ t.items, ∀ w ∈ item.workload?, w.1 ∈ t.names ∧ w.2 = hash w.1 :=
    fun item hitem w hw => ⟨mem_names_of_mem_items hitem hw,
      hs.hashed w (List.mem_filterMap.2 ⟨item, hitem, hw⟩)⟩
  have hnotes : Notes findPid t.items.zipIdx 0 (d.node.evict t)
      (d.node.tableCallback findPid clock t).1 :=
    Notes.walk (a := ⟨d.node.evict t, 0, []⟩) rfl hc.found
  -- nothing is remembered when the walk starts
  have hslots : ∀ wid key, Tracks (d.node.tableCallback findPid clock t).1.workloadToSlots wid key →
      ∃ x ∈ t.ttSlots.zipIdx, x.1.workloadId = wid ∧ (⟨x.1.cpu, .ofNat x.2⟩ : TtSlotKey) = key := by
    intro wid key htrack
    have hnew := (hnotes.slots wid key htrack).resolve_left not_tracks_empty
    rwa [slots_items_zipIdx] at hnew
  have hservers : ∀ wid key, Tracks (d.node.tableCallback findPid clock t).1.workloadToCbsKeys
      wid key → ∃ e ∈ t.cbsEntries, e.workloadId = wid ∧ e.key = key := by
    intro wid key htrack
    obtain ⟨x, hx, e, he, hnew⟩ := (hnotes.servers wid key htrack).resolve_left not_tracks_empty
    refine ⟨e, ?_, hnew⟩
    rw [← filterMap_config_items]
    exact List.mem_filterMap.2 ⟨x.1, List.fst_mem_of_mem_zipIdx hx, he⟩
  have hmetas : ∀ wid pid, Tracks (d.node.tableCallback findPid clock t).1.workloadToPids wid pid →
      ∃ x ∈ t.items.zipIdx, (∃ h, x.1.workload? = some (wid, h)) ∧ findPid x.2 = some pid :=
    fun wid pid htrack => (hnotes.metas wid pid htrack).resolve_left not_tracks_empty
  refine ⟨hs.hash_inj, h.tableCallback hc hmark, fun wid wid' key htrack htrack' => ?_,
    fun wid wid' key htrack htrack' => ?_, fun wid wid' pid htrack htrack' => ?_, fun wid h hget => ?_,
    fun entry hentry => ?_⟩
  · obtain ⟨x, hx, rfl, hkey⟩ := hslots wid key htrack
    obtain ⟨y, hy, rfl, hkey'⟩ := hslots wid' key htrack'
    have hinj := List.inj_on_of_nodup_map (nodup_slotKeys hs.numbered)
    rw [hinj hx hy (hkey.trans hkey'.symm)]
  · obtain ⟨e, he, rfl, hkey⟩ := hservers wid key htrack
    obtain ⟨e', he', rfl, hkey'⟩ := hservers wid' key htrack'
    exact hs.keys e he e' he' (hkey.trans hkey'.symm)
  · obtain ⟨x, hx, ⟨h, hw⟩, hfound⟩ := hmetas wid pid htrack
    obtain ⟨y, hy, ⟨h', hw'⟩, hfound'⟩ := hmetas wid' pid htrack'
    have hsame := hs.pids x hx y hy (by rw [hw]; rfl) (by rw [hw']; rfl) (by rw [hfound]; rfl)
      (hfound.trans hfound'.symm)
    rw [hw, hw'] at hsame
    exact Option.some.inj hsame
  · obtain ⟨x, hx, hw⟩ := (hnotes.hashes wid h hget).resolve_left (by simp [Node.evict])
    exact hmark x.1 (List.fst_mem_of_mem_zipIdx hx) _ hw
  · obtain ⟨⟨slot, i⟩, hslot, rfl⟩ := List.mem_map.1
      ((perm_setScheduleTable t.slotEntries).mem_iff.1 hentry)
    have hmem : slot ∈ t.ttSlots := List.fst_mem_of_mem_zipIdx hslot
    rw [← filterMap_slot_items, List.mem_filterMap] at hmem
    obtain ⟨item, hitem, hitemslot⟩ := hmem
    obtain ⟨j, hj⟩ := List.mem_iff_getElem?.1 hitem
    refine ⟨slot.workloadId, hnotes.slot_hashes _ (Or.inr ⟨(item, j),
      List.mem_zipIdx_iff_getElem?.2 hj, slot, hitemslot, rfl⟩), ?_⟩
    cases item with
    | tt slot' layer =>
      cases hitemslot
      exact (hmark _ hitem _ rfl).2
    | cbs | noCpu => cases hitemslot

theorem Sorted.recoveryCallback (h : Sorted hash t d) (hstop : d.recoveryCallback wid = some d') :
    Sorted hash t d' := by
  obtain ⟨wid', -, hnode, -, hslotTable⟩ := recoveryCallback_eq_some hstop
  refine ⟨h.hash_inj, ?_, ?_, ?_, ?_, ?_, ?_⟩ <;> rw [hnode]
  · exact h.remembered.stopWorkload wid'
  · exact fun w w' key ht ht' => h.slots_unique w w' key (tracks_erase.1 ht).2 (tracks_erase.1 ht').2
  · exact fun w w' key ht ht' =>
      h.servers_unique w w' key (tracks_erase.1 ht).2 (tracks_erase.1 ht').2
  · exact fun w w' pid ht ht' => h.metas_unique w w' pid (tracks_erase.1 ht).2 (tracks_erase.1 ht').2
  · intro w hw hget
    simp only [Node.stopWorkload, Std.ExtTreeMap.getElem?_erase] at hget
    split_ifs at hget
    exact h.hashes w hw hget
  · intro e he
    rw [hslotTable] at he
    simp only [Node.stopWorkload, Std.ExtTreeMap.mem_erase, ne_eq,
      Std.LawfulEqOrd.compare_eq_iff_eq]
    cases hget : d.node.workloadToHash[wid']? with
    | none =>
      rw [hget] at he
      obtain ⟨w, hw, hhash⟩ := h.slotTable e he
      refine ⟨w, ⟨fun heq => ?_, hw⟩, hhash⟩
      rw [← heq, Std.ExtTreeMap.mem_iff_isSome_getElem?, hget] at hw
      cases hw
    | some x =>
      rw [hget] at he
      obtain ⟨he, hne⟩ := List.mem_filter.1 he
      obtain ⟨w, hw, hhash⟩ := h.slotTable e he
      refine ⟨w, ⟨fun heq => ?_, hw⟩, hhash⟩
      rw [(h.hashes wid' x hget).2, heq] at hne
      exact of_decide_eq_true hne hhash

/-- Every table is applied completely and keeps its workloads separate. -/
def AppliesSeparately (hash : Text → UInt64) (d : Daemon) : Action → Prop
  | .table findPid _ t => Complete d.node findPid t ∧ Separate hash findPid t
  | .stop _ => True

theorem sorted_of_reachableIf (h : (machine stdSort).ReachableIf (AppliesSeparately hash) d)
    (ht : d.lastTable = some t) : Sorted hash t d := by
  have hinv : Remembered (fun _ _ => True) d.node ∧ ∀ t, d.lastTable = some t → Sorted hash t d := by
    refine h.invariant (I := fun d => Remembered (fun _ _ => True) d.node ∧
      ∀ t, d.lastTable = some t → Sorted hash t d)
      (fun d hd => ⟨remembered_fresh hd, fun t ht => ?_⟩) fun d a d' hd hok hn => ?_
    · cases hd.lastTable.symm.trans ht
    · cases a with
      | table findPid clock t =>
        cases hn
        refine ⟨hd.1.tableCallback hok.1 fun _ _ _ _ => trivial, fun t' ht' => ?_⟩
        cases ht'
        exact sorted_tableCallback hd.1 hok.1 hok.2
      | stop wid =>
        obtain ⟨wid', -, hnode, hlast, -⟩ := recoveryCallback_eq_some hn
        refine ⟨hnode ▸ hd.1.stopWorkload wid', fun t' ht' => ?_⟩
        exact (hd.2 t' (hlast.symm.trans ht')).recoveryCallback hn
  exact hinv.2 t ht

/-! ### Main results -/

theorem Sorted.evicted (h : Sorted hash t d) (hwid : wid ∈ t.names)
    (hnode : d'.node = d.node.stopWorkload wid)
    (hslotTable : d'.slotTable = match d.node.workloadToHash[wid]? with
      | some hash => TimerMaster.removeWorkload hash d.slotTable
      | none => d.slotTable) : Evicted hash t wid d d' := by
  -- the workload an entry is remembered for is the one its hash says
  have howner : ∀ {wid' : Text} {x : UInt64} {P : Text → Prop}, wid' ∈ t.names → x = hash wid' →
      (∃ w, (w ∈ t.names ∧ x = hash w) ∧ P w) → P wid' := by
    rintro wid' x P hwid' hx ⟨w, ⟨hw, hxw⟩, hP⟩
    rwa [h.hash_inj wid' hwid' w hw (hx.symm.trans hxw)]
  refine ⟨fun key slot hslot heq => ?_, fun key c hc heq => ?_, fun pid m hm heq => ?_,
    fun e he heq => ?_, fun wid' hwid' hne key slot heq => ?_, fun wid' hwid' hne key c heq => ?_,
    fun wid' hwid' hne pid m heq => ?_, fun wid' hwid' hne => ?_⟩
  · rw [hnode, Node.lookup_ttTableMap_stopWorkload] at hslot
    exact hslot.1 (howner hwid heq (h.remembered.slots key slot hslot.2))
  · rw [hnode, Node.lookup_cbsMap_stopWorkload] at hc
    exact hc.1 (howner hwid heq (h.remembered.servers key c hc.2))
  · rw [hnode, Node.lookup_taskMetaMap_stopWorkload] at hm
    exact hm.1 (howner hwid heq (h.remembered.metas pid m hm.2))
  · rw [hslotTable] at he
    cases hget : d.node.workloadToHash[wid]? with
    | none =>
      rw [hget] at he
      obtain ⟨w, hw, hhash⟩ := h.slotTable e he
      obtain ⟨x, hx⟩ := Option.isSome_iff_exists.1 (Std.ExtTreeMap.mem_iff_isSome_getElem?.1 hw)
      rw [h.hash_inj w (h.hashes w x hx).1 wid hwid (hhash.symm.trans heq), hget] at hx
      cases hx
    | some x =>
      rw [hget] at he
      have hkept := (List.mem_filter.1 he).2
      rw [(h.hashes wid x hget).2] at hkept
      exact of_decide_eq_true hkept heq
  · rw [hnode, Node.lookup_ttTableMap_stopWorkload, and_iff_right_iff_imp]
    intro hslot htrack
    exact hne (h.slots_unique _ _ key (howner hwid' heq (h.remembered.slots key slot hslot)) htrack)
  · rw [hnode, Node.lookup_cbsMap_stopWorkload, and_iff_right_iff_imp]
    intro hc htrack
    exact hne (h.servers_unique _ _ key (howner hwid' heq (h.remembered.servers key c hc)) htrack)
  · rw [hnode, Node.lookup_taskMetaMap_stopWorkload, and_iff_right_iff_imp]
    intro hm htrack
    exact hne (h.metas_unique _ _ pid (howner hwid' heq (h.remembered.metas pid m hm)) htrack)
  · rw [hslotTable]
    cases hget : d.node.workloadToHash[wid]? with
    | none => rfl
    | some x =>
      dsimp only
      rw [TimerMaster.removeWorkload, List.filter_filter]
      refine List.filter_congr fun e _ => ?_
      by_cases heq : e.workloadIdHash = hash wid'
      · have hx : e.workloadIdHash ≠ x := by
          rw [heq, (h.hashes wid x hget).2]
          exact fun hh => hne (h.hash_inj wid' hwid' wid hwid hh)
        simp [heq, heq ▸ hx]
      · simp [heq]

theorem resolveHash_of_not_namesHash (h : ¬ NamesHash wid) (entries : List (UInt64 × Text)) :
    resolveHash wid entries = some wid := by
  obtain ⟨hhex, hdec⟩ := not_or.1 h
  induction entries with
  | nil => rfl
  | cons entry entries ih =>
    obtain ⟨x, name⟩ := entry
    rw [resolveHash, if_neg fun heq => hdec ⟨x, heq⟩, if_neg hhex]
    exact ih

/-- **A STOP removes exactly the workload it names** in every run in which every table is applied
completely and keeps its workloads separate, if the workload is remembered or its name is not meant
as a hash. -/
theorem evicted_of_separate (hd : (machine stdSort).ReachableIf (AppliesSeparately hash) d)
    (ht : d.lastTable = some t) (hwid : wid ∈ t.names)
    (hname : wid ∈ d.node.workloadToPids ∨ ¬ NamesHash wid) :
    ∃ d', d.recoveryCallback wid = some d' ∧ Evicted hash t wid d d' := by
  have hresolve : d.node.resolve wid = some wid := by
    unfold Node.resolve
    split_ifs with hmem
    · rfl
    · exact resolveHash_of_not_namesHash (hname.resolve_left hmem) _
  have hsome : ∃ d', d.recoveryCallback wid = some d' := by
    unfold Daemon.recoveryCallback
    rw [hresolve]
    exact ⟨_, rfl⟩
  obtain ⟨d', hd'⟩ := hsome
  obtain ⟨wid', hwid', hnode, -, hslotTable⟩ := recoveryCallback_eq_some hd'
  cases hresolve.symm.trans hwid'
  exact ⟨d', hd', (sorted_of_reachableIf hd ht).evicted hwid hnode hslotTable⟩

/-! ### Three runs -/

open GlobalScheduler (fnv1aHash)

instance {a : Action} : Decidable (AppliesSeparately hash d a) :=
  match a with
  | .table findPid _ t =>
    inferInstanceAs (Decidable (Complete d.node findPid t ∧ Separate hash findPid t))
  | .stop _ => inferInstanceAs (Decidable True)

/-- Workload `a` has a TT task and a CBS task, `b` a CBS task; `a` is stopped. -/
theorem evicted_one_of_two :
    ∃ d d', (machine insertionStdSort).ReachableIf (AppliesSeparately fnv1aHash) d ∧
      d.slotTable.length = 1 ∧ d.recoveryCallback (text "a") = some d' ∧
      Evicted fnv1aHash (tableOf [sampleSlot "a" "t"] [sampleServer "a" "u", sampleServer "b" "v"])
        (text "a") d d' := by
  have heval : ((machine insertionStdSort).execIf
      (fun d a => decide (AppliesSeparately fnv1aHash d a)) started
      [.table (finding [some 7, some 8, some 9]) (fun _ => 0)
        (tableOf [sampleSlot "a" "t"] [sampleServer "a" "u", sampleServer "b" "v"])]).any
      (fun d => decide (d.slotTable.length = 1 ∧ text "a" ∈ d.node.workloadToPids ∧ d.lastTable =
        some (tableOf [sampleSlot "a" "t"] [sampleServer "a" "u", sampleServer "b" "v"]))) = true := by
    decide +kernel
  obtain ⟨d, hd, hall⟩ := (Option.any_eq_true _ _).1 heval
  obtain ⟨hlength, hmem, hlast⟩ := of_decide_eq_true hall
  have hreach : (machine insertionStdSort).ReachableIf (AppliesSeparately fnv1aHash) d :=
    (Machine.ReachableIf.of_init fresh_started).leads
      (Machine.leads_of_execIf (fun _ _ => of_decide_eq_true) hd)
  obtain ⟨d', hd', hevicted⟩ := @evicted_of_separate fnv1aHash _ (text "a") _ d hreach hlast
    (by decide +kernel) (Or.inl hmem)
  exact ⟨d, d', hreach, hlength, hd', hevicted⟩

/-- Workload `a` has a TT task that is not found: after its STOP the slot is still in `tt_table_map`
and in TimerMaster.  Workloads `a` and `b` have the CBS tasks `a/b` and `b/a`: the STOP of `a` deletes
the server of `b/a`. -/
theorem not_evicted :
    (∃ d d', (machine insertionStdSort).Reachable d ∧
      d.lastTable = some (tableOf [sampleSlot "a" "t"] []) ∧
      d.recoveryCallback (text "a") = some d' ∧ d'.slotTable.length = 1 ∧
      d'.node.bpf.ttTableMap.lookup ⟨2, 0⟩ = some (sampleSlot "a" "t").toBpf ∧
      ¬ Evicted fnv1aHash (tableOf [sampleSlot "a" "t"] []) (text "a") d d') ∧
    ∃ d d', (machine insertionStdSort).Reachable d ∧
      d.lastTable = some (tableOf [] [sampleServer "a" "b", sampleServer "b" "a"]) ∧
      d.recoveryCallback (text "a") = some d' ∧
      d.node.bpf.cbsMap.lookup (sampleServer "b" "a").key = some ((sampleServer "b" "a").initial 0) ∧
      d'.node.bpf.cbsMap.lookup (sampleServer "b" "a").key = none ∧
      ¬ Evicted fnv1aHash (tableOf [] [sampleServer "a" "b", sampleServer "b" "a"]) (text "a") d d' := by
  constructor
  · have heval : ((machine insertionStdSort).exec started [.table (finding [none]) (fun _ => 0)
        (tableOf [sampleSlot "a" "t"] [])]).any (fun d => decide
          (d.lastTable = some (tableOf [sampleSlot "a" "t"] [])) &&
          (d.recoveryCallback (text "a")).any fun d' => decide (d'.slotTable.length = 1 ∧
            d'.node.bpf.ttTableMap.lookup ⟨2, 0⟩ = some (sampleSlot "a" "t").toBpf)) = true := by
      decide +kernel
    obtain ⟨d, hd, hall⟩ := (Option.any_eq_true _ _).1 heval
    obtain ⟨hlast, hstop⟩ := Bool.and_eq_true_iff.1 hall
    obtain ⟨d', hd', hstop⟩ := (Option.any_eq_true _ _).1 hstop
    obtain ⟨hlength, hslot⟩ := of_decide_eq_true hstop
    exact ⟨d, d', Machine.reachable_of_exec fresh_started hd, of_decide_eq_true hlast, hd', hlength,
      hslot, fun h => h.slots _ _ hslot rfl⟩
  · have heval : ((machine insertionStdSort).exec started [.table (finding [some 7, some 8])
        (fun _ => 0) (tableOf [] [sampleServer "a" "b", sampleServer "b" "a"])]).any (fun d => decide
          (d.lastTable = some (tableOf [] [sampleServer "a" "b", sampleServer "b" "a"]) ∧
            d.node.bpf.cbsMap.lookup (sampleServer "b" "a").key =
              some ((sampleServer "b" "a").initial 0)) &&
          (d.recoveryCallback (text "a")).any fun d' => decide
            (d'.node.bpf.cbsMap.lookup (sampleServer "b" "a").key = none)) = true := by
      decide +kernel
    obtain ⟨d, hd, hall⟩ := (Option.any_eq_true _ _).1 heval
    obtain ⟨hbefore, hstop⟩ := Bool.and_eq_true_iff.1 hall
    obtain ⟨hlast, hserver⟩ := of_decide_eq_true hbefore
    obtain ⟨d', hd', hstop⟩ := (Option.any_eq_true _ _).1 hstop
    have hgone := of_decide_eq_true hstop
    refine ⟨d, d', Machine.reachable_of_exec fresh_started hd, hlast, hd', hserver, hgone, fun h => ?_⟩
    have hkept := (h.other_servers (text "b") (by decide +kernel) (by decide) _ _
      (by decide +kernel)).2 hserver
    cases hgone.symm.trans hkept

end Daemon

end Timpani
