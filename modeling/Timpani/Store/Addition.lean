import Timpani.Scheduler.Stability
import Timpani.Store.Removal

/-!
# Adding a workload

Adding a workload should not disturb the ones that run already, as long as there is a CPU left for
it.  But the regenerated table depends on the name of the new workload, which decides about the CPUs
of the TT workloads, and on its utilisation, which decides about those of the CBS tasks.

* `Unobtrusive` : the name of a TT workload comes last and its CPU is not used yet; the tasks of a
  CBS workload are smaller than all others, which have distinct utilisations;
* `undisturbed_of_unobtrusive` : additions of such workloads disturb nothing;
* `disturbed_by_name` : a TT workload is moved to another CPU by one with a smaller name.
-/

namespace Timpani

namespace SchedInfoService

open GlobalScheduler

variable {U : Type} [Floating U]

omit [Floating U] in
/-- The node has more CPUs than TT workloads. -/
def Roomy (G : GlobalScheduler U) (workloads : WorkloadMap) (n : Text) : Prop :=
  (ttWorkloadIds (ttTasks (tasksFor workloads n))).length < (stdSet (G.availableCpus n)).length

/-- What is to be stored as workload `w` comes last on the node: in the order of the TT workloads,
where the next CPU has no partition yet, or in the order of the CBS tasks, which is the only
possible one. -/
def Unobtrusive (G : GlobalScheduler U) (s : SchedInfoService) (w : Text) (entry : WorkloadEntry)
    (n : Text) : Prop :=
  let tasks := tasksFor s.workloadTasks n
  ((∀ t ∈ entry.tasks, t.mechanism = .tt) ∧
    (∀ id ∈ ttWorkloadIds (ttTasks tasks), compare id w = .lt) ∧
    ∀ table ∈ s.scheduleTables[n]?, ∀ p ∈ table.partitions, p.cpu ≠ some (cpuNumber
      ((G.availableCpus n).getD (ttWorkloadIds (ttTasks tasks)).length 0))) ∨
  ((∀ t ∈ entry.tasks, t.mechanism ≠ .tt) ∧
    ((cbsTasks tasks).Pairwise fun t t' =>
      t.byUtilization U t' = true ∨ t'.byUtilization U t = true) ∧
    ∀ t ∈ cbsTasks tasks, ∀ t' ∈ entry.tasks, t.byUtilization U t' = true)

instance (G : GlobalScheduler U) (s : SchedInfoService) (w : Text) (entry : WorkloadEntry)
    (n : Text) : Decidable (Unobtrusive G s w entry n) := by
  unfold Unobtrusive
  infer_instance

/-- The call does not erase too much, and a new workload comes last on every node it goes to that
has a CPU for it. -/
def Undisturbing (G : GlobalScheduler U) (s : SchedInfoService) (a : StoreAction) : Prop :=
  ErasureSchedulable G s a ∧
    match a with
    | .addSchedInfo _ _ request => request.workloadId ∉ s.workloadTasks →
        ∀ entry, requestedEntry G request = some entry → ∀ n ∈ entry.targetNodes,
          Roomy G s.workloadTasks n → Unobtrusive G s request.workloadId entry n
    | .removeWorkload _ _ _ => True

/-! ### The tasks of a node -/

variable {G : GlobalScheduler U} {workloads : WorkloadMap} {w n : Text} {entry : WorkloadEntry}

omit [Floating U] in
theorem Labelled.mem_tasksFor_insert (h : Labelled (workloads.insert w entry)) {t : ClassifiedTask}
    (ht : t ∈ tasksFor (workloads.insert w entry) n) (hw : t.workloadId = w) :
    n ∈ entry.targetNodes ∧ t ∈ entry.tasks := by
  obtain ⟨id, entry', hget, hn, htask⟩ := mem_tasksFor.1 ht
  have hid : id = w := by rw [← h id entry' hget t htask, hw]
  subst hid
  rw [Std.ExtTreeMap.getElem?_insert_self] at hget
  cases hget
  exact ⟨hn, htask⟩

omit [Floating U] in
theorem Labelled.tasksFor_insert (h : Labelled (workloads.insert w entry)) (hw : w ∉ workloads)
    (n : Text) :
    tasksFor workloads n = (tasksFor (workloads.insert w entry) n).filter (·.workloadId ≠ w) := by
  rw [← h.tasksFor_erase, erase_insert, erase_of_notMem hw]

omit [Floating U] in
theorem tasks_ne_nil_of_requestedEntry {request : SchedInfo}
    (h : requestedEntry G request = some entry) : entry.tasks ≠ [] := by
  obtain ⟨hne, -, mechanism, -, htasks⟩ := requestedEntry_eq_some h
  rw [htasks]
  exact mt List.map_eq_nil_iff.1 hne

theorem Undisturbed.congr {t t' u u' : HierarchicalScheduleTable} (h : Undisturbed w t t')
    (ht : t.sansEpoch = u.sansEpoch) (ht' : t'.sansEpoch = u'.sansEpoch) :
    Undisturbed w u u' := by
  have hp := HierarchicalScheduleTable.partitions_eq_of_sansEpoch_eq ht
  have hp' := HierarchicalScheduleTable.partitions_eq_of_sansEpoch_eq ht'
  refine ⟨fun cpu => ?_, fun cpu => ?_⟩
  · have := h.ttSlots cpu
    rwa [HierarchicalScheduleTable.ttSlotsOn, HierarchicalScheduleTable.ttSlotsOn, hp, hp'] at this
  · have := h.cbsEntries cpu
    rwa [HierarchicalScheduleTable.cbsEntriesOn, HierarchicalScheduleTable.cbsEntriesOn, hp,
      hp'] at this

/-! ### Main results -/

/-- **Adding a workload that comes last disturbs nothing.**  In every state of a run in which no call
erases a stored workload whose erasure leaves something unschedulable, an addition that is accepted and
comes last on its nodes leaves the slots and entries of all other workloads where they were, on every
node that had a CPU for the new one. -/
theorem undisturbed_of_unobtrusive [LawfulFloating U] [OrderedLoads U] (G : GlobalScheduler U)
    (s : SchedInfoService) (hs : (machine G).ReachableIf (ErasureSchedulable G) s)
    (clock clock' : ℕ → UInt64) (request : SchedInfo)
    (hok : Undisturbing G s (.addSchedInfo clock clock' request))
    (hnew : request.workloadId ∉ s.workloadTasks)
    (hacc : (addSchedInfo G clock clock' s request).2 = 0) (n : Text)
    (table table' : HierarchicalScheduleTable) (htable : s.scheduleTables[n]? = some table)
    (htable' : (addSchedInfo G clock clock' s request).1.scheduleTables[n]? = some table')
    (hroom : Roomy G s.workloadTasks n) : Undisturbed request.workloadId table table' := by
  have hco : Coherent G s := coherent_of_reachableIf hs
  rcases addSchedInfo_cases G clock clock' s request with
    ⟨-, heq⟩ | ⟨entry, hentry, ⟨tables, hreg, heq⟩ | ⟨-, hrej, -⟩⟩
  · rw [heq] at hacc
    cases hacc
  swap
  · rw [hrej] at hacc
    cases hacc
  rw [heq] at htable'
  have hfresh := hco.fresh n table htable
  have hfresh' := (regenerateAllSchedules_eq_ok hreg).2 n table' htable'
  obtain ⟨t, ht⟩ := hfresh.exists_generateSchedule 0
  obtain ⟨t', ht'⟩ := hfresh'.exists_generateSchedule 0
  have hsame := (fresh_of_generateSchedule ht).sansEpoch_eq hfresh
  suffices h : Undisturbed request.workloadId t t' from
    Undisturbed.congr h hsame ((fresh_of_generateSchedule ht').sansEpoch_eq hfresh')
  have hlabel : Labelled (s.workloadTasks.insert request.workloadId entry) :=
    (labelled_of_reachable hs.reachable).insert (labelled_requestedEntry hentry)
  have htasks := hlabel.tasksFor_insert hnew n
  by_cases hn : n ∈ entry.targetNodes
  swap
  · -- nothing changes on a node the workload does not go to
    have hnone : ∀ t ∈ tasksFor (s.workloadTasks.insert request.workloadId entry) n,
        t.workloadId ≠ request.workloadId := fun t ht hw => hn (hlabel.mem_tasksFor_insert ht hw).1
    rw [htasks, List.filter_eq_self.2 fun t ht => decide_eq_true (hnone t ht)] at ht
    exact undisturbed_of_forall_ne ht ht' hnone
  rcases hok.2 hnew entry hentry n hn hroom with ⟨htt, hlast, hfree⟩ | ⟨hcbs, hdistinct, hsmall⟩
  · refine undisturbed_tt htasks ht ht'
      (fun t ht hw => htt t (hlabel.mem_tasksFor_insert ht hw).2) ?_ hlast ?_ ?_
    · obtain ⟨t, hmem⟩ := List.exists_mem_of_ne_nil _ (tasks_ne_nil_of_requestedEntry hentry)
      have hmem' : t ∈ tasksFor (s.workloadTasks.insert request.workloadId entry) n :=
        mem_tasksFor.2 ⟨request.workloadId, entry, Std.ExtTreeMap.getElem?_insert_self, hn, hmem⟩
      exact mem_ttWorkloadIds.2 ⟨t, mem_ttTasks.2 ⟨hmem', htt t hmem⟩,
        labelled_requestedEntry hentry t hmem⟩
    · exact hroom.trans_le (length_stdSet_le _)
    · rw [HierarchicalScheduleTable.partitions_eq_of_sansEpoch_eq hsame]
      exact hfree table htable
  · exact undisturbed_cbs htasks ht ht'
      (fun t ht hw => hcbs t (hlabel.mem_tasksFor_insert ht hw).2) hdistinct
      fun t ht t' ht' hw => hsmall t ht t' (hlabel.mem_tasksFor_insert ht' hw).2

/-! ### Two additions -/

theorem undisturbing_of_all {G : GlobalScheduler U} {s : SchedInfoService}
    {clock clock' : ℕ → UInt64} {request : SchedInfo} (hnew : request.workloadId ∉ s.workloadTasks)
    (h : (requestedEntry G request).all (fun entry => entry.targetNodes.toList.all fun n =>
      decide (Unobtrusive G s request.workloadId entry n)) = true) :
    Undisturbing G s (.addSchedInfo clock clock' request) := by
  refine ⟨fun entry _ hmem => absurd hmem hnew, fun _ entry hentry n hn _ => ?_⟩
  rw [hentry] at h
  have hall := List.all_eq_true.1 h n (by simpa using hn)
  exact of_decide_eq_true hall

/-- Workload `b` after workload `a`: the slots of `a` stay on CPU 2. -/
theorem undisturbed_in_order :
    let s := submitted unconfigured [periodicWorkload "a" [("t", 10, 3, 10)]]
    let s' := (addSchedInfo unconfigured (fun _ => 0) (fun _ => 0) s
      (periodicWorkload "b" [("t", 20, 5, 20)])).1
    ∃ table table', s.scheduleTables[text "n"]? = some table ∧
      s'.scheduleTables[text "n"]? = some table' ∧ table.ttSlotsOn 2 ≠ [] ∧
      Undisturbed (text "b") table table' := by
  intro s s'
  have heval : s.scheduleTables[text "n"]?.any (fun table => decide (table.ttSlotsOn 2 ≠ []) &&
      (s'.scheduleTables[text "n"]?).isSome) = true := by decide +kernel
  obtain ⟨table, htable, hrest⟩ := (Option.any_eq_true _ _).1 heval
  obtain ⟨hslots, hsome⟩ := Bool.and_eq_true_iff.1 hrest
  obtain ⟨table', htable'⟩ := Option.isSome_iff_exists.1 hsome
  refine ⟨table, table', htable, htable', of_decide_eq_true hslots, ?_⟩
  have hs : (machine unconfigured).ReachableIf (ErasureSchedulable unconfigured) s :=
    .next (a := .addSchedInfo (fun _ => 0) (fun _ => 0) (periodicWorkload "a" [("t", 10, 3, 10)]))
      (.of_init rfl) (fun _ _ hmem => absurd hmem (by simp [new])) rfl
  have hnew : (periodicWorkload "b" [("t", 20, 5, 20)]).workloadId ∉ s.workloadTasks := by
    decide +kernel
  exact undisturbed_of_unobtrusive unconfigured s hs (fun _ => 0) (fun _ => 0) _
    (undisturbing_of_all hnew (by decide +kernel)) hnew (by decide +kernel) (text "n") table table'
    htable htable' (by unfold Roomy; decide +kernel)

/-- Workload `a` after workload `b`: the slots of `b` move from CPU 2 to CPU 3. -/
theorem disturbed_by_name :
    let s := submitted unconfigured [periodicWorkload "b" [("t", 20, 5, 20)]]
    let call := addSchedInfo unconfigured (fun _ => 0) (fun _ => 0) s
      (periodicWorkload "a" [("t", 10, 3, 10)])
    (machine unconfigured).Reachable s ∧ text "a" ∉ s.workloadTasks ∧ call.2 = 0 ∧
      Roomy unconfigured s.workloadTasks (text "n") ∧
      ∃ table table', s.scheduleTables[text "n"]? = some table ∧
        call.1.scheduleTables[text "n"]? = some table' ∧
        (table.ttSlotsOn 2).map (·.workloadId) = [text "b"] ∧
        (table'.ttSlotsOn 3).map (·.workloadId) = [text "b"] ∧
        ¬ Undisturbed (text "a") table table' := by
  intro s call
  have heval : s.scheduleTables[text "n"]?.any (fun table =>
      (call.1.scheduleTables[text "n"]?).any fun table' => decide
        ((table.ttSlotsOn 2).map (·.workloadId) = [text "b"] ∧
          (table'.ttSlotsOn 3).map (·.workloadId) = [text "b"] ∧
          (table'.ttSlotsOn 2).filter (·.workloadId ≠ text "a") = [])) = true := by
    decide +kernel
  obtain ⟨table, htable, hrest⟩ := (Option.any_eq_true _ _).1 heval
  obtain ⟨table', htable', hrest⟩ := (Option.any_eq_true _ _).1 hrest
  obtain ⟨hbefore, hafter, hgone⟩ := of_decide_eq_true hrest
  refine ⟨reachable_submitted _ _, by decide +kernel, by decide +kernel,
    by unfold Roomy; decide +kernel, table, table', htable, htable', hbefore, hafter, fun h => ?_⟩
  have hslots := h.ttSlots 2
  rw [hgone] at hslots
  rw [← hslots] at hbefore
  cases hbefore

end SchedInfoService

end Timpani
