import Timpani.Run.Basic
import Timpani.Store.Service

/-!
# Coherence of the store

The tables of the store should always be those the scheduler generates for the stored workloads
(`Coherent`).  Both calls edit the workloads first and regenerate afterwards, and keep the old
tables when that fails.

* `coherent_of_erasuresSchedulable` : the store stays coherent as long as no stored workload is
  erased whose erasure leaves something unschedulable, and such an erasure always breaks it;
* `not_coherent_after_remove` : removing a workload can make the rest unschedulable, because
  first-fit placement is not monotone;
* `unchanged_iff_of_rejected` : a rejected `AddSchedInfo` changes nothing, unless it was for a
  workload that is already stored;
* `rejected_resubmission_loses_workload` : in that case the stored workload is lost.
-/

namespace Timpani

namespace SchedInfoService

variable {U : Type} [Floating U]

/-- Every target node has a table, and every table is up to date. -/
structure Coherent (G : GlobalScheduler U) (s : SchedInfoService) : Prop where
  targets : ∀ (id : Text) (entry : WorkloadEntry), s.workloadTasks[id]? = some entry →
    ∀ n ∈ entry.targetNodes, n ∈ s.scheduleTables
  fresh : ∀ (n : Text) (table : HierarchicalScheduleTable),
    s.scheduleTables[n]? = some table → Fresh G s.workloadTasks n table

/-- The calls of a run, with the clock readings they see. -/
inductive StoreAction where
  | addSchedInfo (clock clock' : ℕ → UInt64) (request : SchedInfo)
  | removeWorkload (clock : ℕ → UInt64) (workloadId : Text) (triggerPush : Bool)

/-- The store under any sequence of calls. -/
def machine (G : GlobalScheduler U) : Machine SchedInfoService StoreAction where
  init s := s = new
  next s
    | .addSchedInfo clock clock' request => some (addSchedInfo G clock clock' s request).1
    | .removeWorkload clock workloadId triggerPush =>
      some (afterRemove G clock s workloadId triggerPush)

/-! ### Coherence and schedulability -/

variable {G : GlobalScheduler U} {s s' : SchedInfoService}

theorem coherent_of_regenerate {clock : ℕ → UInt64} {tables : ScheduleTableMap}
    (h : regenerateAllSchedules G clock s.workloadTasks tables = .ok s.scheduleTables) :
    Coherent G s := by
  obtain ⟨hmem, hfresh⟩ := regenerateAllSchedules_eq_ok h
  exact ⟨fun id entry hentry n hn => (hmem n).2 (mem_allNodes.2 (Or.inl ⟨id, entry, hentry, hn⟩)),
    hfresh⟩

theorem Coherent.mem_allNodes_iff (h : Coherent G s) {n : Text} :
    n ∈ allNodes s.workloadTasks s.scheduleTables ↔ n ∈ s.scheduleTables := by
  rw [mem_allNodes]
  constructor
  · rintro (⟨id, entry, hentry, hn⟩ | hn)
    · exact h.targets id entry hentry n hn
    · exact hn
  · exact Or.inr

theorem Coherent.schedulable (h : Coherent G s) :
    Schedulable G s.workloadTasks s.scheduleTables := by
  intro n hn
  obtain ⟨table, htable⟩ := Option.isSome_iff_exists.1
    (Std.ExtTreeMap.mem_iff_isSome_getElem?.1 (h.mem_allNodes_iff.1 hn))
  exact ⟨table, h.fresh n table htable⟩

theorem Erased.coherent_iff {id : Text} (h : Erased G s id s') :
    Coherent G s' ↔ Schedulable G (s.workloadTasks.erase id) s.scheduleTables := by
  obtain ⟨hw, ⟨clock, hreg⟩ | ⟨hnot, htables⟩⟩ := h
  · exact iff_of_true (coherent_of_regenerate (hw ▸ hreg))
      (regenerateAllSchedules_isOk_iff.1 ⟨_, hreg⟩)
  · refine iff_of_false (fun hco => hnot ?_) hnot
    have := hco.schedulable
    rwa [hw, htables] at this

/-! ### Runs -/

/-- The call does not erase a stored workload whose erasure leaves something unschedulable: neither
a removal, nor the rollback of an infeasible resubmission. -/
def ErasureSchedulable (G : GlobalScheduler U) (s : SchedInfoService) : StoreAction → Prop
  | .addSchedInfo _ _ request => ∀ entry, requestedEntry G request = some entry →
      request.workloadId ∈ s.workloadTasks →
      ¬ Schedulable G (s.workloadTasks.insert request.workloadId entry) s.scheduleTables →
      Schedulable G (s.workloadTasks.erase request.workloadId) s.scheduleTables
  | .removeWorkload _ workloadId _ => ∀ actualId,
      resolve s.workloadTasks workloadId = .ok (some actualId) →
      Schedulable G (s.workloadTasks.erase actualId) s.scheduleTables

theorem Coherent.next_iff {a : StoreAction} (h : Coherent G s)
    (hn : (machine G).next s a = some s') : Coherent G s' ↔ ErasureSchedulable G s a := by
  cases a with
  | addSchedInfo clock clock' request =>
    obtain rfl := Option.some.inj hn
    rcases addSchedInfo_cases G clock clock' s request with ⟨hnone, hs⟩ | ⟨entry, hentry, hcase⟩
    · rw [hs]
      refine iff_of_true h fun entry hentry => ?_
      rw [hnone] at hentry
      cases hentry
    · rcases hcase with ⟨tables, hreg, hs⟩ | ⟨hnot, -, -, herased⟩
      · rw [hs]
        refine iff_of_true (coherent_of_regenerate hreg) fun entry' hentry' _ hnot => ?_
        rw [hentry] at hentry'
        cases hentry'
        exact absurd (regenerateAllSchedules_isOk_iff.1 ⟨_, hreg⟩) hnot
      · rw [herased.coherent_iff]
        constructor
        · exact fun hs _ _ _ _ => hs
        · intro hok
          -- rolling back a workload that was not stored restores what was there
          by_cases hmem : request.workloadId ∈ s.workloadTasks
          · exact hok entry hentry hmem hnot
          · rw [erase_of_notMem hmem]
            exact h.schedulable
  | removeWorkload clock workloadId triggerPush =>
    obtain rfl := Option.some.inj hn
    unfold afterRemove
    cases hr : removeWorkload G clock s workloadId triggerPush with
    | error e =>
      refine iff_of_true h fun actualId hres => ?_
      rw [resolve_of_removeWorkload_error hr] at hres
      cases hres
    | ok r =>
      rcases removeWorkload_cases hr with ⟨hnone, rfl⟩ | ⟨actualId, hres, -, herased, -⟩
      · refine iff_of_true h fun actualId hres => ?_
        rw [hnone] at hres
        cases hres
      · rw [herased.coherent_iff]
        constructor
        · intro hs actualId' hres'
          rw [hres] at hres'
          cases hres'
          exact hs
        · exact fun hok => hok actualId hres

theorem coherent_new : Coherent G new where
  targets id entry h := by simp [new] at h
  fresh n table h := by simp [new] at h

theorem coherent_of_reachableIf (h : (machine G).ReachableIf (ErasureSchedulable G) s) :
    Coherent G s :=
  h.invariant (by rintro _ rfl; exact coherent_new) fun _ _ _ hs hok hn => (hs.next_iff hn).2 hok

/-! ### Stored workloads -/

theorem workloadTasks_next {a : StoreAction} (hn : (machine G).next s a = some s') :
    s'.workloadTasks = s.workloadTasks ∨ (∃ id, s'.workloadTasks = s.workloadTasks.erase id) ∨
      ∃ (clock clock' : ℕ → UInt64) (request : SchedInfo) (entry : WorkloadEntry),
        a = .addSchedInfo clock clock' request ∧ requestedEntry G request = some entry ∧
        s'.workloadTasks = s.workloadTasks.insert request.workloadId entry := by
  cases a with
  | addSchedInfo clock clock' request =>
    obtain rfl := Option.some.inj hn
    rcases addSchedInfo_cases G clock clock' s request with ⟨-, hs⟩ | ⟨entry, hentry, hcase⟩
    · exact Or.inl (by rw [hs])
    · rcases hcase with ⟨tables, -, hs⟩ | ⟨-, -, -, hw, -⟩
      · exact Or.inr (Or.inr ⟨clock, clock', request, entry, rfl, hentry, by rw [hs]⟩)
      · exact Or.inr (Or.inl ⟨_, hw⟩)
  | removeWorkload clock workloadId triggerPush =>
    obtain rfl := Option.some.inj hn
    unfold afterRemove
    cases hr : removeWorkload G clock s workloadId triggerPush with
    | error e => exact Or.inl rfl
    | ok r =>
      rcases removeWorkload_cases hr with ⟨-, rfl⟩ | ⟨actualId, -, -, ⟨hw, -⟩, -⟩
      · exact Or.inl rfl
      · exact Or.inr (Or.inl ⟨_, hw⟩)

/-- Every stored workload has the property. -/
def EveryEntry (P : Text → WorkloadEntry → Prop) (workloads : WorkloadMap) : Prop :=
  ∀ (id : Text) (entry : WorkloadEntry), workloads[id]? = some entry → P id entry

namespace EveryEntry

variable {P : Text → WorkloadEntry → Prop} {workloads : WorkloadMap} {id : Text}
  {entry : WorkloadEntry}

omit [Floating U] in
theorem insert (h : EveryEntry P workloads) (hentry : P id entry) :
    EveryEntry P (workloads.insert id entry) := by
  intro id' entry' hget
  rw [Std.ExtTreeMap.getElem?_insert] at hget
  split_ifs at hget with hid
  · cases hget
    rwa [← Std.LawfulEqCmp.eq_of_compare hid]
  · exact h id' entry' hget

omit [Floating U] in
theorem erase (h : EveryEntry P workloads) (id : Text) : EveryEntry P (workloads.erase id) := by
  intro id' entry' hget
  rw [Std.ExtTreeMap.getElem?_erase] at hget
  split_ifs at hget
  exact h id' entry' hget

theorem next {a : StoreAction} (h : EveryEntry P s.workloadTasks)
    (hrequest : ∀ clock clock' request entry, a = .addSchedInfo clock clock' request →
      requestedEntry G request = some entry → P request.workloadId entry)
    (hn : (machine G).next s a = some s') : EveryEntry P s'.workloadTasks := by
  rcases workloadTasks_next hn with heq | ⟨id, heq⟩ | ⟨clock, clock', request, entry, ha, hentry, heq⟩
  · rwa [heq]
  · rw [heq]
    exact h.erase id
  · rw [heq]
    exact h.insert (hrequest clock clock' request entry ha hentry)

/-- A property that the entries of all allowed requests have is one of every stored workload. -/
theorem of_reachableIf {ok : SchedInfoService → StoreAction → Prop}
    (h : (machine G).ReachableIf ok s)
    (hrequest : ∀ s clock clock' request entry, ok s (.addSchedInfo clock clock' request) →
      requestedEntry G request = some entry → P request.workloadId entry) :
    EveryEntry P s.workloadTasks := by
  refine h.invariant (I := fun s => EveryEntry P s.workloadTasks) ?_ fun s a s' hs hok hn => ?_
  · rintro _ rfl id entry hget
    simp [new] at hget
  · exact hs.next (fun clock clock' request entry ha => hrequest s clock clock' request entry
      (ha ▸ hok)) hn

end EveryEntry

/-! ### Stored tasks carry the id of their workload -/

/-- The tasks of an entry belong to its workload. -/
def Labelled (workloads : WorkloadMap) : Prop :=
  ∀ (id : Text) (entry : WorkloadEntry), workloads[id]? = some entry →
    ∀ t ∈ entry.tasks, t.workloadId = id

omit [Floating U] in
theorem labelled_requestedEntry {request : SchedInfo} {entry : WorkloadEntry}
    (h : requestedEntry G request = some entry) :
    ∀ t ∈ entry.tasks, t.workloadId = request.workloadId := by
  obtain ⟨-, -, mechanism, -, htasks⟩ := requestedEntry_eq_some h
  rw [htasks, List.forall_mem_map]
  exact fun _ _ => rfl

omit [Floating U] in
theorem Labelled.insert {workloads : WorkloadMap} {id : Text} {entry : WorkloadEntry}
    (h : Labelled workloads) (hentry : ∀ t ∈ entry.tasks, t.workloadId = id) :
    Labelled (workloads.insert id entry) :=
  EveryEntry.insert h hentry

omit [Floating U] in
theorem toList_erase (workloads : WorkloadMap) (w : Text) :
    (workloads.erase w).toList = workloads.toList.filter (·.1 ≠ w) := by
  have hlt : ∀ a b : Text × WorkloadEntry, compare a.1 b.1 = .lt → compare b.1 a.1 = .lt → a = b :=
    fun a b hab hba => absurd (Std.OrientedCmp.gt_of_lt hab) (by rw [hba]; simp)
  have hord : (workloads.toList.filter (·.1 ≠ w)).Pairwise fun a b => compare a.1 b.1 = .lt :=
    Std.ExtTreeMap.ordered_keys_toList.filter _
  refine List.Perm.eq_of_pairwise (fun a b _ _ => hlt a b) Std.ExtTreeMap.ordered_keys_toList hord
    ((List.perm_ext_iff_of_nodup ?_ ?_).2 ?_)
  · exact Std.ExtTreeMap.ordered_keys_toList.imp fun h => by rintro rfl; simp at h
  · exact hord.imp fun h => by rintro rfl; simp at h
  · rintro ⟨id, entry⟩
    rw [List.mem_filter, Std.ExtTreeMap.mem_toList_iff_getElem?_eq_some,
      Std.ExtTreeMap.mem_toList_iff_getElem?_eq_some, Std.ExtTreeMap.getElem?_erase]
    by_cases hid : id = w
    · simp [hid]
    · have hne : ¬ compare w id = .eq := fun h => hid (Std.LawfulEqCmp.eq_of_compare h).symm
      simp [hid, hne]

omit [Floating U] in
theorem Labelled.tasksFor_erase {workloads : WorkloadMap} (h : Labelled workloads) (w n : Text) :
    tasksFor (workloads.erase w) n = (tasksFor workloads n).filter (·.workloadId ≠ w) := by
  have hlabel : ∀ p ∈ workloads.toList, ∀ t ∈ p.2.tasks, t.workloadId = p.1 := fun p hp =>
    h p.1 p.2 (Std.ExtTreeMap.mem_toList_iff_getElem?_eq_some.1 hp)
  rw [tasksFor, tasksFor, toList_erase]
  generalize workloads.toList = l at hlabel ⊢
  induction l with
  | nil => rfl
  | cons p l ih =>
    have ih := ih fun q hq => hlabel q (List.mem_cons_of_mem _ hq)
    have hp := hlabel p List.mem_cons_self
    rw [List.flatMap_cons, List.filter_append, ← ih]
    by_cases hw : p.1 = w
    · rw [List.filter_cons_of_neg (by simpa using hw)]
      have hnil : (if n ∈ p.2.targetNodes then p.2.tasks else []).filter (·.workloadId ≠ w) = [] := by
        refine List.filter_eq_nil_iff.2 fun t ht => ?_
        split_ifs at ht
        · simp [hp t ht, hw]
        · cases ht
      rw [hnil, List.nil_append]
    · rw [List.filter_cons_of_pos (by simpa using hw), List.flatMap_cons]
      have hself : (if n ∈ p.2.targetNodes then p.2.tasks else []).filter (·.workloadId ≠ w) =
          if n ∈ p.2.targetNodes then p.2.tasks else [] := by
        refine List.filter_eq_self.2 fun t ht => ?_
        split_ifs at ht
        · simp [hp t ht, hw]
        · cases ht
      rw [hself]

theorem labelled_next {a : StoreAction} (h : Labelled s.workloadTasks)
    (hn : (machine G).next s a = some s') : Labelled s'.workloadTasks :=
  EveryEntry.next h (fun _ _ _ _ _ => labelled_requestedEntry) hn

theorem labelled_of_reachable (h : (machine G).Reachable s) : Labelled s.workloadTasks :=
  EveryEntry.of_reachableIf h fun _ _ _ _ _ _ => labelled_requestedEntry

theorem Fresh.mem_of_mem_pairs [LawfulFloating U] {workloads : WorkloadMap} {n : Text}
    {table : HierarchicalScheduleTable} (h : Fresh G workloads n table) (hl : Labelled workloads)
    {p : Text × Text} (hp : p ∈ table.pairs) : p.1 ∈ workloads := by
  obtain ⟨table', hgen⟩ := h.exists_generateSchedule 0
  rw [HierarchicalScheduleTable.pairs_eq_of_sansEpoch_eq
    (h.sansEpoch_eq (fresh_of_generateSchedule hgen)),
    GlobalScheduler.mem_pairs_generateSchedule hgen] at hp
  obtain ⟨t, ht, -, rfl⟩ := hp
  obtain ⟨id, entry, hentry, -, htask⟩ := mem_tasksFor.1 ht
  rw [hl id entry hentry t htask]
  exact Std.ExtTreeMap.mem_iff_isSome_getElem?.2 (by rw [hentry]; rfl)

/-! ### Main results -/

/-- **The store is coherent** in every state of a run in which no call erases a stored workload
whose erasure leaves something unschedulable; in particular its tables mention stored workloads
only.  A call that does erase one makes it incoherent. -/
theorem coherent_of_erasuresSchedulable [LawfulFloating U] (G : GlobalScheduler U) :
    (∀ s, (machine G).ReachableIf (ErasureSchedulable G) s → Coherent G s ∧
      ∀ (n : Text) (table : HierarchicalScheduleTable), s.scheduleTables[n]? = some table →
        ∀ p ∈ table.pairs, p.1 ∈ s.workloadTasks) ∧
    ∀ s a s', (machine G).ReachableIf (ErasureSchedulable G) s →
      (machine G).next s a = some s' → ¬ ErasureSchedulable G s a → ¬ Coherent G s' := by
  refine ⟨fun s hs => ⟨coherent_of_reachableIf hs, fun n table htable p hp => ?_⟩, ?_⟩
  · exact ((coherent_of_reachableIf hs).fresh n table htable).mem_of_mem_pairs
      (labelled_of_reachable hs.reachable) hp
  · intro s a s' hs hn hnot hco
    exact hnot (((coherent_of_reachableIf hs).next_iff hn).1 hco)

/-- A TT workload on node `n`, from the names, periods, runtimes and deadlines of its tasks. -/
def periodicWorkload (id : String) (tasks : List (String × Int32 × Int32 × Int32)) : SchedInfo where
  workloadId := text id
  tasks := tasks.map fun (name, period, runtime, deadline) =>
    { name := text name, period, runtime, deadline, maxDmiss := 0, nodeId := text "n" }
  temporalClass := .periodic

/-- The scheduler of a node `n` with the single CPU 2. -/
def singleCpu : GlobalScheduler ℚ where
  stdSort := insertionStdSort
  nodeConfigManager := some {
    nodes := .ofList [(text "n", (⟨text "n", [2], 4096, text "aarch64", [], []⟩ : NodeConfig))]
    loaded := true }

/-- The store with one workload. -/
def alone : SchedInfoService :=
  (addSchedInfo singleCpu (fun _ => 0) (fun _ => 0) new
    (periodicWorkload "a" [("t1", 5, 1, 5)])).1

/-- The store with two workloads that can be scheduled without each other. -/
def apart : SchedInfoService :=
  (addSchedInfo singleCpu (fun _ => 0) (fun _ => 0) alone
    (periodicWorkload "b" [("t2", 10, 2, 10)])).1

/-- Accepting two workloads and removing the first keeps the store coherent. -/
theorem coherent_after_removal :
    let s := afterRemove singleCpu (fun _ => 0) apart (text "a") true
    text "a" ∈ apart.workloadTasks ∧ text "a" ∉ s.workloadTasks ∧ text "b" ∈ s.workloadTasks ∧
      Coherent singleCpu s := by
  intro s
  refine ⟨by decide +kernel, by decide +kernel, by decide +kernel, ?_⟩
  have halone : (machine singleCpu).ReachableIf (ErasureSchedulable singleCpu) alone :=
    .next (a := .addSchedInfo (fun _ => 0) (fun _ => 0) (periodicWorkload "a" [("t1", 5, 1, 5)]))
      (.of_init rfl) (fun _ _ hmem => absurd hmem (by simp [new])) rfl
  have hapart : (machine singleCpu).ReachableIf (ErasureSchedulable singleCpu) apart :=
    halone.next (a := .addSchedInfo (fun _ => 0) (fun _ => 0) (periodicWorkload "b" [("t2", 10, 2, 10)]))
      (fun _ _ hmem => absurd hmem (by decide +kernel)) rfl
  refine ((coherent_of_erasuresSchedulable singleCpu).1 _ (hapart.next
    (a := .removeWorkload (fun _ => 0) (text "a") true) ?_ rfl)).1
  -- without the first workload the second can be scheduled
  intro actualId hres
  have hresolve : resolve apart.workloadTasks (text "a") = .ok (some (text "a")) := by decide +kernel
  obtain rfl : text "a" = actualId := by simpa using hresolve.symm.trans hres
  have hok : (regenerateAllSchedules singleCpu (fun _ => 0) (apart.workloadTasks.erase (text "a"))
      apart.scheduleTables).toOption.isSome = true := by decide +kernel
  obtain ⟨tables, htables⟩ := Option.isSome_iff_exists.1 hok
  exact regenerateAllSchedules_isOk_iff.1 ⟨tables, toOption_eq_some.1 htables⟩

/-- Two workloads that can be scheduled together. -/
def together : SchedInfoService :=
  (addSchedInfo singleCpu (fun _ => 0) (fun _ => 0) alone (periodicWorkload "b"
    [("t0", 20, 3, 8), ("t2", 10, 1, 3), ("t3", 10, 4, 10), ("t4", 20, 3, 17)])).1

theorem reachable_alone : (machine singleCpu).Reachable alone :=
  Machine.ReachableIf.next (a := .addSchedInfo (fun _ => 0) (fun _ => 0) _) (.of_init rfl)
    trivial rfl

theorem reachable_together : (machine singleCpu).Reachable together :=
  reachable_alone.next (a := .addSchedInfo (fun _ => 0) (fun _ => 0) _) trivial rfl

/-- Both workloads are accepted; but after the removal of the first one the slots of the second
move, and its last task finds no free slot any more.  The old table stays, with the slots of the
removed workload. -/
theorem not_coherent_after_remove :
    let s := afterRemove singleCpu (fun _ => 0) together (text "a") true
    (machine singleCpu).Reachable s ∧ text "a" ∉ s.workloadTasks ∧
      (∃ table, s.scheduleTables[text "n"]? = some table ∧
        (text "a", text "t1") ∈ table.pairs) ∧ ¬ Coherent singleCpu s := by
  intro s
  have htable : (s.scheduleTables[text "n"]?.map fun t => decide ((text "a", text "t1") ∈ t.pairs))
      = some true := by decide +kernel
  obtain ⟨table, hget, hpairs⟩ := Option.map_eq_some_iff.1 htable
  refine ⟨reachable_together.next (a := .removeWorkload (fun _ => 0) (text "a") true) trivial rfl,
    by decide +kernel, ⟨table, hget,
    of_decide_eq_true hpairs⟩, fun hco => ?_⟩
  obtain ⟨table', hgen⟩ := (hco.fresh _ table hget).exists_generateSchedule 0
  have hnone : (singleCpu.generateSchedule 0 (text "n")
      (tasksFor s.workloadTasks (text "n"))).toOption.isNone = true := by decide +kernel
  rw [hgen] at hnone
  cases hnone

/-! ### Rejected requests -/

/-- Everything but the epochs of the tables is as before. -/
structure Unchanged (s s' : SchedInfoService) : Prop where
  workloadTasks : s'.workloadTasks = s.workloadTasks
  scheduleChanged : s'.scheduleChanged = s.scheduleChanged
  scheduleTables : ∀ n : Text,
    s'.scheduleTables[n]?.map (·.sansEpoch) = s.scheduleTables[n]?.map (·.sansEpoch)

theorem coherent_or_not_schedulable (hs : (machine G).Reachable s) :
    Coherent G s ∨ ¬ Schedulable G s.workloadTasks s.scheduleTables := by
  refine hs.invariant
    (I := fun s => Coherent G s ∨ ¬ Schedulable G s.workloadTasks s.scheduleTables) ?_ ?_
  · rintro _ rfl
    exact Or.inl coherent_new
  · intro s a s' hs _ hn
    have herased : ∀ {id}, Erased G s id s' →
        Coherent G s' ∨ ¬ Schedulable G s'.workloadTasks s'.scheduleTables := by
      rintro id ⟨hw, ⟨clock, hreg⟩ | ⟨hnot, htables⟩⟩
      · exact Or.inl (coherent_of_regenerate (hw ▸ hreg))
      · exact Or.inr (by rwa [hw, htables])
    cases a with
    | addSchedInfo clock clock' request =>
      obtain rfl := Option.some.inj hn
      rcases addSchedInfo_cases G clock clock' s request with ⟨-, heq⟩ | ⟨entry, -, hcase⟩
      · rwa [heq]
      · rcases hcase with ⟨tables, hreg, heq⟩ | ⟨-, -, -, h⟩
        · rw [heq]
          exact Or.inl (coherent_of_regenerate hreg)
        · exact herased h
    | removeWorkload clock workloadId triggerPush =>
      obtain rfl := Option.some.inj hn
      unfold afterRemove at herased ⊢
      cases hr : removeWorkload G clock s workloadId triggerPush with
      | error e => exact hs
      | ok r =>
        rw [hr] at herased
        rcases removeWorkload_cases hr with ⟨-, rfl⟩ | ⟨actualId, -, -, h, -⟩
        · exact hs
        · exact herased h

theorem Coherent.regenerate_eq {clock : ℕ → UInt64} {new : ScheduleTableMap} (h : Coherent G s)
    (hreg : regenerateAllSchedules G clock s.workloadTasks s.scheduleTables = .ok new) (n : Text) :
    new[n]?.map (·.sansEpoch) = s.scheduleTables[n]?.map (·.sansEpoch) := by
  obtain ⟨hmem, hfresh⟩ := regenerateAllSchedules_eq_ok hreg
  have hiff : n ∈ new ↔ n ∈ s.scheduleTables := (hmem n).trans h.mem_allNodes_iff
  rw [Std.ExtTreeMap.mem_iff_isSome_getElem?, Std.ExtTreeMap.mem_iff_isSome_getElem?] at hiff
  cases hnew : new[n]? with
  | none =>
    rw [hnew] at hiff
    have hnone : s.scheduleTables[n]? = none := by
      rw [← Option.not_isSome_iff_eq_none, ← hiff]
      simp
    rw [hnone]
  | some table =>
    rw [hnew] at hiff
    obtain ⟨table', htable'⟩ := Option.isSome_iff_exists.1 (hiff.1 rfl)
    rw [htable', Option.map_some, Option.map_some,
      (hfresh n table hnew).sansEpoch_eq (h.fresh n table' htable')]

/-- **A rejected request changes nothing, unless its workload was already stored** and the request
got as far as the regeneration. -/
theorem unchanged_iff_of_rejected (G : GlobalScheduler U) (s : SchedInfoService)
    (hs : (machine G).Reachable s) (clock clock' : ℕ → UInt64) (request : SchedInfo)
    (hrej : (addSchedInfo G clock clock' s request).2 = -1) :
    Unchanged s (addSchedInfo G clock clock' s request).1 ↔
      ¬ (request.workloadId ∈ s.workloadTasks ∧ (requestedEntry G request).isSome) := by
  rcases addSchedInfo_cases G clock clock' s request with ⟨hnone, heq⟩ | ⟨entry, hentry, hcase⟩
  · rw [heq, hnone]
    exact iff_of_true ⟨rfl, rfl, fun _ => rfl⟩ (by simp)
  · rcases hcase with ⟨tables, -, heq⟩ | ⟨-, -, hchanged, hw, htables⟩
    · rw [heq] at hrej
      cases hrej
    · by_cases hmem : request.workloadId ∈ s.workloadTasks
      · refine iff_of_false (fun h => ?_) (not_not.2 ⟨hmem, by rw [hentry]; rfl⟩)
        rw [← h.workloadTasks, hw] at hmem
        simp at hmem
      · refine iff_of_true ⟨?_, hchanged, fun n => ?_⟩ fun h => hmem h.1
        · rw [hw, erase_of_notMem hmem]
        · rw [erase_of_notMem hmem] at htables
          rcases htables with ⟨clock'', hreg⟩ | ⟨-, htables⟩
          · have hco := (coherent_or_not_schedulable hs).resolve_right
              (not_not.2 (regenerateAllSchedules_isOk_iff.1 ⟨_, hreg⟩))
            exact hco.regenerate_eq hreg n
          · rw [htables]

/-- An infeasible new workload is rejected and nothing changes. -/
theorem unchanged_after_rejected_new :
    Unchanged alone (addSchedInfo singleCpu (fun _ => 0) (fun _ => 0) alone
      (periodicWorkload "b" [("t", 5, 9, 5)])).1 :=
  (unchanged_iff_of_rejected singleCpu alone reachable_alone _ _ _ (by decide +kernel)).2
    (by decide +kernel)

/-- An infeasible resubmission of a stored workload is rejected, and the workload is gone. -/
theorem rejected_resubmission_loses_workload :
    let call := addSchedInfo singleCpu (fun _ => 0) (fun _ => 0) alone
      (periodicWorkload "a" [("t1", 5, 9, 5)])
    (machine singleCpu).Reachable alone ∧ call.2 = -1 ∧ text "a" ∈ alone.workloadTasks ∧
      text "a" ∉ call.1.workloadTasks ∧ ¬ Unchanged alone call.1 := by
  intro call
  have hin : text "a" ∈ alone.workloadTasks := by decide +kernel
  have hout : text "a" ∉ call.1.workloadTasks := by decide +kernel
  exact ⟨reachable_alone, by decide +kernel, hin, hout, fun h => hout (h.workloadTasks ▸ hin)⟩

end SchedInfoService

end Timpani
