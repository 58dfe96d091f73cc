import Timpani.Cpp.Loop
import Timpani.Scheduler.Assign

/-!
# Gaps and CBS budgets

Step 4 of the pipeline: `GlobalScheduler::compute_gaps` extracts what the TT slots of a CPU leave
free, and `GlobalScheduler::allocate_cbs_budgets` reserves the bandwidth of its CBS tasks.

* `allocateCbsBudgets_eq_ok` : a successful allocation gives every CBS task of the CPU its own
  budget, and changes nothing but the budgets and their total.
-/

namespace Timpani

namespace GlobalScheduler

/-- The gap `[start, stop)`. -/
def gapBetween (start stop : UInt32) : GapInterval where
  startUs := start
  endUs := stop
  lengthUs := stop - start

/-- One slot of the scan; `cursor` is the end of the timeline covered so far. -/
def gapStep (st : List GapInterval × UInt32) (slot : TtSlotPlacement) :
    List GapInterval × UInt32 :=
  let (gaps, cursor) := st
  let slotEnd := slot.offsetUs + slot.durationUs
  (if cursor < slot.offsetUs then gaps ++ [gapBetween cursor slot.offsetUs] else gaps,
    if slotEnd > cursor then slotEnd else cursor)

/-- The gaps between slots sorted by offset, and the one behind the last slot. -/
def computeGaps (slots : List TtSlotPlacement) (hyperperiodUs : UInt64) : List GapInterval :=
  let (gaps, cursor) := slots.foldl gapStep ([], 0)
  if cursor < hyperperiodUs.toUInt32 then gaps ++ [gapBetween cursor hyperperiodUs.toUInt32]
  else gaps

/-! ### Budgets -/

/-- The server of a CBS task: its budget is the WCET, its period the minimal inter-arrival time. -/
def allocationOf (cpu : ℤ) (task : ClassifiedTask) : CbsAllocation where
  workloadId := task.workloadId
  taskId := task.taskId
  budgetUs := task.wcetUs
  periodUs := task.periodUs
  deadlineUs := task.deadlineUs
  maxDmiss := task.maxDmiss
  cpu := cpu

variable {U : Type} [Floating U]

/-- Reserve the bandwidth of one task; `st` is the allocations and the utilisation so far. -/
def allocateStep (cpu : ℤ) (uAvail : U) (st : List CbsAllocation × U) (task : ClassifiedTask) :
    Except InfeasibleError (List CbsAllocation × U) :=
  let us : U := task.utilization
  if Floating.lt uAvail (Floating.add st.2 us) then
    .error {
      reason := .safetyCbsExceeded
      cpu := cpu
      taskId := task.taskId
      details := text "CBS task '" ++ task.taskId ++ text "' requires U_s=" ++
        Floating.toText us ++ text " but only " ++ Floating.toText (Floating.sub uAvail st.2) ++
        text " available on CPU " ++ intText cpu }
  else .ok (st.1 ++ [allocationOf cpu task], Floating.add st.2 us)

/-- `allocate_cbs_budgets`; the gaps are only looked at for a warning about short ones. -/
def allocateCbsBudgets (G : GlobalScheduler U) (cpu : ℤ) (cbsTasks : List ClassifiedTask) (uTt : U)
    (schedule : PerCpuSchedule U) : Except InfeasibleError (PerCpuSchedule U) :=
  let uAvail : U := Floating.sub (Floating.sub uBound uTt) uOverhead
  if Floating.le uAvail (Floating.ofDecimal 0 0) then
    .error {
      reason := .noCbsBandwidth
      cpu := cpu
      taskId := []
      details := text "No residual bandwidth on CPU " ++ intText cpu ++ text " (U_tt=" ++
        Floating.toText uTt ++ text ")" }
  else do
    let sorted := G.stdSort.sort (ClassifiedTask.byUtilization U) cbsTasks
    let (allocations, uAlloc) ← sorted.foldlM (allocateStep cpu uAvail)
      (schedule.cbsAllocations, Floating.ofDecimal 0 0)
    return { schedule with cbsAllocations := allocations, uCbs := uAlloc }

theorem foldlM_allocateStep {cpu : ℤ} {uAvail : U} {tasks : List ClassifiedTask}
    {st st' : List CbsAllocation × U} (h : tasks.foldlM (allocateStep cpu uAvail) st = .ok st') :
    st'.1 = st.1 ++ tasks.map (allocationOf cpu) := by
  refine foldlM_ok_induction h (motive := fun done acc =>
    acc.1 = st.1 ++ done.map (allocationOf cpu)) (by simp) ?_
  intro done task acc acc' _ hacc hstep
  unfold allocateStep at hstep
  dsimp only at hstep
  split_ifs at hstep
  cases hstep
  simp [hacc]

variable {G : GlobalScheduler U} {cpu : ℤ} {tasks : List ClassifiedTask} {uTt : U}
  {schedule schedule' : PerCpuSchedule U}

/-- **Allocation.** The tasks of the CPU get their budgets in the order of the sort; only the
budgets and their total change. -/
theorem allocateCbsBudgets_eq_ok (h : G.allocateCbsBudgets cpu tasks uTt schedule = .ok schedule') :
    schedule' = { schedule with
      cbsAllocations := schedule.cbsAllocations ++
        (G.stdSort.sort (ClassifiedTask.byUtilization U) tasks).map (allocationOf cpu)
      uCbs := schedule'.uCbs } := by
  unfold allocateCbsBudgets at h
  dsimp only at h
  split_ifs at h
  obtain ⟨st, hst, h⟩ := bind_eq_ok.1 h
  cases h
  rw [foldlM_allocateStep hst]

end GlobalScheduler

end Timpani
