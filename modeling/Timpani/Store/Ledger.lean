import Timpani.Run.Transcript
import Timpani.Store.Coherence

/-!
# The store as a ledger of workloads

`SchedInfoServiceImpl` keeps the accepted workloads and, beside them, one table per node that was
ever a target.  The tables carry the time at which they were generated, tables of nodes that lost
their last workload stay, and after a failed erasure they are stale.  None of this shows: what the
service replies depends on the stored workloads alone.

* `Ledger` : the service as its clients see it, a map of workloads;
* `refines_ledger` : **refinement**: in every run the service replies what the ledger replies and
  stores the workloads of the ledger, whatever the clock reads; and if these can be scheduled, every
  node with tasks has the table of the ledger, up to its epoch.
-/

namespace Timpani

open SchedInfoService

variable {U : Type} [Floating U]

/-! ### The ledger -/

namespace Ledger

/-- A call, without the clock readings and the push flag. -/
inductive Call where
  | addSchedInfo (request : SchedInfo)
  | removeWorkload (workloadId : Text)

inductive Reply where
  | status (status : ℤ)
  /-- What `RemoveWorkload` writes to `resolved_id`, and what it returns. -/
  | removal (outcome : Except ConversionError (Option Text × Bool))

/-- Every node can be scheduled. -/
def Feasible (G : GlobalScheduler U) (workloads : WorkloadMap) : Prop :=
  ∀ n, ∃ table, Fresh G workloads n table

open Classical in
/-- A workload is accepted if all nodes can be scheduled with it; if not, it is erased. -/
noncomputable def addSchedInfo (G : GlobalScheduler U) (workloads : WorkloadMap)
    (request : SchedInfo) : WorkloadMap × ℤ :=
  match requestedEntry G request with
  | none => (workloads, -1)
  | some entry =>
    if Feasible G (workloads.insert request.workloadId entry) then
      (workloads.insert request.workloadId entry, 0)
    else (workloads.erase request.workloadId, -1)

open Classical in
/-- A workload is erased in any case; the result says whether the others can be scheduled. -/
noncomputable def removeWorkload (G : GlobalScheduler U) (workloads : WorkloadMap)
    (workloadId : Text) : WorkloadMap × Except ConversionError (Option Text × Bool) :=
  match resolve workloads workloadId with
  | .error e => (workloads, .error e)
  | .ok none => (workloads, .ok (none, false))
  | .ok (some actualId) =>
    (workloads.erase actualId, .ok (some actualId, decide (Feasible G (workloads.erase actualId))))

noncomputable def answer (G : GlobalScheduler U) (workloads : WorkloadMap) :
    Call → WorkloadMap × Reply
  | .addSchedInfo request => (addSchedInfo G workloads request).map id .status
  | .removeWorkload workloadId => (removeWorkload G workloads workloadId).map id .removal

/-- The table of a node, without its epoch. -/
def table (G : GlobalScheduler U) (workloads : WorkloadMap) (n : Text) :
    Option HierarchicalScheduleTable :=
  (G.generateSchedule 0 n (tasksFor workloads n)).toOption.map (·.sansEpoch)

end Ledger

/-! ### One call -/

namespace SchedInfoService

variable {G : GlobalScheduler U} {workloads : WorkloadMap} {s : SchedInfoService}

/-- The call as the ledger sees it. -/
def StoreAction.call : StoreAction → Ledger.Call
  | .addSchedInfo _ _ request => .addSchedInfo request
  | .removeWorkload _ workloadId _ => .removeWorkload workloadId

/-- The state after a call, and the reply. -/
def answer (G : GlobalScheduler U) (s : SchedInfoService) : StoreAction → SchedInfoService × Ledger.Reply
  | .addSchedInfo clock clock' request => (addSchedInfo G clock clock' s request).map id .status
  | .removeWorkload clock workloadId triggerPush =>
    match removeWorkload G clock s workloadId triggerPush with
    | .ok r => (r.service, .removal (.ok (r.resolvedId, r.result)))
    | .error e => (s, .removal (.error e))

theorem next_eq_answer (s : SchedInfoService) (a : StoreAction) :
    (machine G).next s a = some (answer G s a).1 := by
  cases a with
  | addSchedInfo clock clock' request => rfl
  | removeWorkload clock workloadId triggerPush =>
    simp only [machine, afterRemove, answer]
    cases removeWorkload G clock s workloadId triggerPush <;> rfl

theorem exists_fresh_of_tasksFor_eq_nil {n : Text} (h : tasksFor workloads n = []) :
    ∃ table, Fresh G workloads n table := by
  have hgen : G.generateSchedule 0 n (tasksFor workloads n) =
      .ok (GlobalScheduler.buildTable 0 n ([] : List (PerCpuSchedule U)) 10000) := by
    rw [h]
    rfl
  exact ⟨_, fresh_of_generateSchedule hgen⟩

theorem mem_allNodes_of_tasksFor {tables : ScheduleTableMap} {n : Text}
    (h : tasksFor workloads n ≠ []) : n ∈ allNodes workloads tables := by
  obtain ⟨t, ht⟩ := List.exists_mem_of_ne_nil _ h
  obtain ⟨id, entry, hentry, hn, -⟩ := mem_tasksFor.1 ht
  exact mem_allNodes.2 (Or.inl ⟨id, entry, hentry, hn⟩)

theorem schedulable_iff_feasible {tables : ScheduleTableMap} :
    Schedulable G workloads tables ↔ Ledger.Feasible G workloads := by
  constructor
  · intro h n
    by_cases hn : tasksFor workloads n = []
    · exact exists_fresh_of_tasksFor_eq_nil hn
    · exact h n (mem_allNodes_of_tasksFor hn)
  · exact fun h n _ => h n

theorem regenerateAllSchedules_cases (G : GlobalScheduler U) (clock : ℕ → UInt64)
    (workloads : WorkloadMap) (tables : ScheduleTableMap) :
    (Ledger.Feasible G workloads ∧
        ∃ new, regenerateAllSchedules G clock workloads tables = .ok new) ∨
      ¬ Ledger.Feasible G workloads ∧
        ∃ e, regenerateAllSchedules G clock workloads tables = .error e := by
  cases hreg : regenerateAllSchedules G clock workloads tables with
  | ok new =>
    exact Or.inl ⟨schedulable_iff_feasible.1 (regenerateAllSchedules_isOk_iff.1 ⟨new, hreg⟩), new, rfl⟩
  | error e =>
    exact Or.inr ⟨fun h => regenerateAllSchedules_eq_error hreg (schedulable_iff_feasible.2 h), e, rfl⟩

theorem ledger_addSchedInfo (clock clock' : ℕ → UInt64) (s : SchedInfoService)
    (request : SchedInfo) :
    Ledger.addSchedInfo G s.workloadTasks request =
      ((addSchedInfo G clock clock' s request).1.workloadTasks,
        (addSchedInfo G clock clock' s request).2) := by
  unfold Ledger.addSchedInfo addSchedInfo
  cases requestedEntry G request with
  | none => rfl
  | some entry =>
    dsimp only
    rcases regenerateAllSchedules_cases G clock
      (s.workloadTasks.insert request.workloadId entry) s.scheduleTables with
      ⟨hok, new, hnew⟩ | ⟨hnot, e, he⟩
    · rw [if_pos hok, hnew]
    · rw [if_neg hnot, he, erase_insert]
      -- the rollback erases the workload, whether the tables can be regenerated or not
      cases regenerateAllSchedules G clock' (s.workloadTasks.erase request.workloadId)
        s.scheduleTables <;> rfl

theorem ledger_removeWorkload (clock : ℕ → UInt64) (s : SchedInfoService) (workloadId : Text)
    (triggerPush : Bool) :
    Ledger.removeWorkload G s.workloadTasks workloadId =
      match removeWorkload G clock s workloadId triggerPush with
      | .ok r => (r.service.workloadTasks, .ok (r.resolvedId, r.result))
      | .error e => (s.workloadTasks, .error e) := by
  unfold Ledger.removeWorkload removeWorkload
  cases resolve s.workloadTasks workloadId with
  | error e => rfl
  | ok found =>
    cases found with
    | none => rfl
    | some actualId =>
      dsimp only [bind, Except.bind]
      rcases regenerateAllSchedules_cases G clock (s.workloadTasks.erase actualId)
        s.scheduleTables with ⟨hok, new, hnew⟩ | ⟨hnot, e, he⟩
      · simp only [hnew, hok, decide_true]
        rfl
      · simp only [he, hnot, decide_false]
        rfl

theorem ledger_answer (s : SchedInfoService) (a : StoreAction) :
    Ledger.answer G s.workloadTasks a.call =
      ((answer G s a).1.workloadTasks, (answer G s a).2) := by
  cases a with
  | addSchedInfo clock clock' request =>
    simp only [Ledger.answer, StoreAction.call, ledger_addSchedInfo clock clock', answer, id, Prod.map]
  | removeWorkload clock workloadId triggerPush =>
    simp only [Ledger.answer, StoreAction.call, answer,
      ledger_removeWorkload clock s workloadId triggerPush]
    cases removeWorkload G clock s workloadId triggerPush <;> rfl

/-! ### Runs -/

theorem reachable_transcript (as : List StoreAction) :
    (machine G).Reachable (transcript (answer G) new as).1 := by
  have hrun : ∀ (as : List StoreAction) (s : SchedInfoService), (machine G).Reachable s →
      (machine G).Reachable (transcript (answer G) s as).1 := by
    intro as
    induction as with
    | nil => exact fun s hs => hs
    | cons a as ih => exact fun s hs => ih _ (hs.next trivial (next_eq_answer s a))
  exact hrun as new ⟨new, rfl, .refl⟩

theorem Coherent.table_eq (h : Coherent G s) {n : Text}
    (hn : tasksFor s.workloadTasks n ≠ [] ∨ n ∈ s.scheduleTables) :
    s.scheduleTables[n]?.map (·.sansEpoch) = Ledger.table G s.workloadTasks n := by
  have hmem : n ∈ s.scheduleTables :=
    hn.elim (fun hn => h.mem_allNodes_iff.1 (mem_allNodes_of_tasksFor hn)) fun hn => hn
  obtain ⟨table, htable⟩ := Option.isSome_iff_exists.1 (Std.ExtTreeMap.mem_iff_isSome_getElem?.1 hmem)
  have hfresh := h.fresh n table htable
  rw [htable, Ledger.table]
  unfold Fresh at hfresh
  cases hgen : G.generateSchedule 0 n (tasksFor s.workloadTasks n) with
  | error e =>
    rw [hgen] at hfresh
    cases hfresh
  | ok table' =>
    rw [hgen] at hfresh
    exact congrArg some (Except.ok.inj hfresh).symm

/-- **The service refines the ledger.**  In every run it replies what the ledger replies and stores
what the ledger stores, whatever the clock reads and whether pushes are triggered.  If the stored
workloads can be scheduled, every node with tasks has the table of the ledger, up to its epoch; so
has every other node with a table. -/
theorem refines_ledger (G : GlobalScheduler U) (as : List StoreAction) :
    let s := (transcript (answer G) new as).1
    let replies := (transcript (answer G) new as).2
    transcript (Ledger.answer G) ∅ (as.map StoreAction.call) = (s.workloadTasks, replies) ∧
      (Ledger.Feasible G s.workloadTasks → ∀ n : Text,
        tasksFor s.workloadTasks n ≠ [] ∨ n ∈ s.scheduleTables →
        s.scheduleTables[n]?.map (·.sansEpoch) = Ledger.table G s.workloadTasks n) := by
  refine ⟨transcript_map (·.workloadTasks) StoreAction.call ledger_answer new as, fun hfeas n hn => ?_⟩
  have hco := (coherent_or_not_schedulable (reachable_transcript as)).resolve_right
    (not_not.2 (schedulable_iff_feasible.2 hfeas))
  exact hco.table_eq hn

end SchedInfoService

end Timpani
