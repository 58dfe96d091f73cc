import Timpani.Scheduler.Feasible

/-!
# The two bandwidth checks

Step 2 of the pipeline accounts the CBS tasks to the CPUs it gives them, and step 4 checks the
budgets of every CPU once more, in another order and with another comparison.  With exact
utilisations the second check never fails where the first one has put some load:

* `uCbs_assignCpus` : the load step 2 has accounted to a CPU is that of its CBS tasks, and fits;
* `uCbs_allocateCbsBudgets` : the load step 4 reports;
* `allocateCbsBudgets_assigned` : **step 4 accepts what step 2 has assigned**, for any gaps.
-/

namespace Timpani

namespace GlobalScheduler

theorem foldlM_allocateStep_total {cpu : ℤ} {uAvail : ℚ} {tasks : List ClassifiedTask}
    {st st' : List CbsAllocation × ℚ} (h : tasks.foldlM (allocateStep cpu uAvail) st = .ok st') :
    st'.2 = st.2 + taskLoad tasks := by
  refine foldlM_ok_induction h (motive := fun done acc => acc.2 = st.2 + taskLoad done)
    (by simp [taskLoad]) ?_
  intro done task acc acc' _ hacc hstep
  unfold allocateStep at hstep
  dsimp only at hstep
  split_ifs at hstep
  cases hstep
  have hdone : taskLoad (done ++ [task]) = taskLoad done + task.load := by simp [taskLoad]
  change acc.2 + (task.utilization : ℚ) = _
  rw [ClassifiedTask.utilization_eq_load, hacc, hdone, add_assoc]

variable {G : GlobalScheduler ℚ} {nodeId : Text} {tt cbs : List ClassifiedTask}
  {a : Assignment ℚ} {s : PerCpuSchedule ℚ}

/-- The load step 4 reports is that of the tasks. -/
theorem uCbs_allocateCbsBudgets {cpu : ℤ} {tasks : List ClassifiedTask} {uTt : ℚ}
    {s' : PerCpuSchedule ℚ} (h : G.allocateCbsBudgets cpu tasks uTt s = .ok s') :
    s'.uCbs = taskLoad tasks := by
  have hperm := G.stdSort.perm (ClassifiedTask.byUtilization_strictWeak (U := ℚ)) tasks
  unfold allocateCbsBudgets at h
  dsimp only at h
  split_ifs at h
  obtain ⟨st, hst, h⟩ := bind_eq_ok.1 h
  cases h
  change st.2 = _
  rw [foldlM_allocateStep_total hst, Floating.ofDecimal_zero, zero_add, taskLoad_perm hperm]

/-- **The books of step 2.** The load of a CPU is that of the CBS tasks it was given, and if there
are any they fit beside the TT tasks. -/
theorem uCbs_assignCpus (h : G.assignCpus nodeId tt cbs = .ok a) (hs : s ∈ a.cpuSchedules) :
    s.uCbs = taskLoad (assignedTo s.cpuId a.cbsTasks) ∧
      (assignedTo s.cpuId a.cbsTasks ≠ [] → s.uCbs ≤ 78 / 100 - s.uTt) := by
  obtain ⟨chosen, uCbs, hrun, rfl⟩ := assignCpus_eq_ok_iff.1 h
  have hloads : ((G.cbsOrder cbs).map fun i => ((cbs.get i).utilization : ℚ)) = G.cbsLoads cbs :=
    List.map_congr_left fun i _ => ClassifiedTask.utilization_eq_load _
  rw [hloads] at hrun
  have hlen := worstFitRun_length hrun
  obtain ⟨hsum, hfits⟩ := worstFitRun_loads (cbsLoads_nonneg G _) hrun
  obtain ⟨c, hc, rfl⟩ := List.mem_map.1 hs
  refine ⟨?_, fun hne => ?_⟩
  · change uCbs c = taskLoad (assignedTo c _)
    rw [taskLoad_assignedTo hlen, hsum c, show (unloaded c : ℚ) = 0 from Floating.ofDecimal_zero, zero_add]
  · have hmem := (assignedTo_ne_nil_iff (by simpa [cbsLoads] using hlen) c).1 hne
    exact (hfits c hmem).2

/-- **Step 4 accepts what step 2 has assigned.** On a CPU with a CBS task of positive utilisation
the budgets are allocated, whatever slots and gaps step 3 has left: every CBS task of the CPU gets
one, and the load is the one step 2 has accounted. -/
theorem allocateCbsBudgets_assigned (h : G.assignCpus nodeId tt cbs = .ok a)
    (hs : s ∈ a.cpuSchedules)
    (hload : ∃ t ∈ assignedTo s.cpuId a.cbsTasks, 0 < (t.utilization : ℚ))
    (slots : List TtSlotPlacement) (gaps : List GapInterval) :
    ∃ s', G.allocateCbsBudgets s.cpuId (assignedTo s.cpuId a.cbsTasks) s.uTt
        { s with ttSlots := slots, gaps := gaps } = .ok s' ∧
      s'.cbsAllocations.Perm
        ((assignedTo s.cpuId a.cbsTasks).map (allocationOf s.cpuId)) ∧
      s'.uCbs = s.uCbs := by
  obtain ⟨t, ht, hpos⟩ := hload
  rw [ClassifiedTask.utilization_eq_load] at hpos
  have hne := List.ne_nil_of_mem ht
  obtain ⟨hbooked, hfits⟩ := uCbs_assignCpus h hs
  have hfits := hfits hne
  have hnonneg : ∀ u ∈ (assignedTo s.cpuId a.cbsTasks).map (·.load), 0 ≤ u := by
    intro u hu
    obtain ⟨t, -, rfl⟩ := List.mem_map.1 hu
    exact t.load_nonneg
  have hle : t.load ≤ taskLoad (assignedTo s.cpuId a.cbsTasks) :=
    List.single_le_sum hnonneg _ (List.mem_map_of_mem ht)
  obtain ⟨s', hs'⟩ : ∃ s', G.allocateCbsBudgets s.cpuId (assignedTo s.cpuId a.cbsTasks) s.uTt
      { s with ttSlots := slots, gaps := gaps } = .ok s' :=
    (exists_allocateCbsBudgets_iff hne).2 ⟨by linarith, hbooked ▸ hfits⟩
  refine ⟨s', hs', ?_, (uCbs_allocateCbsBudgets hs').trans hbooked.symm⟩
  rw [allocateCbsBudgets_eq_ok hs']
  have hnone : s.cbsAllocations = [] := (blank_assignCpus h).cbsAllocations s hs
  rw [hnone]
  exact (G.stdSort.perm ClassifiedTask.byUtilization_strictWeak _).map _

/-- Two CBS tasks beside a TT task, on the CPU that has more room for both. -/
theorem allocateCbsBudgets_assigned_two :
    let tt : List ClassifiedTask := [.periodic (text "w") (text "loop") 10 7 10]
    let cbs : List ClassifiedTask := [
      { ClassifiedTask.periodic (text "v") (text "aux") 50 5 50 with mechanism := .cbs },
      { ClassifiedTask.periodic (text "v") (text "log") 100 50 100 with mechanism := .cbs }]
    ∃ a, unconfigured.assignCpus (text "n") tt cbs = .ok a ∧ ∃ s ∈ a.cpuSchedules,
      ∃ s', unconfigured.allocateCbsBudgets s.cpuId (assignedTo s.cpuId a.cbsTasks) s.uTt
          { s with ttSlots := [], gaps := [gapBetween 7 10] } = .ok s' ∧
        s'.cbsAllocations.Perm
          ((assignedTo s.cpuId a.cbsTasks).map (allocationOf s.cpuId)) ∧
        s'.uCbs = s.uCbs := by
  intro tt cbs
  have hrun : (unconfigured.assignCpus (text "n") tt cbs).toOption.any (fun a =>
      decide (∃ s ∈ a.cpuSchedules,
        ∃ t ∈ assignedTo s.cpuId a.cbsTasks, 0 < (t.utilization : ℚ))) = true := by
    decide +kernel
  obtain ⟨a, h, hs⟩ := (Option.any_eq_true _ _).1 hrun
  obtain ⟨s, hs, hload⟩ := of_decide_eq_true hs
  have h := toOption_eq_some.1 h
  exact ⟨a, h, s, hs, allocateCbsBudgets_assigned h hs hload [] [gapBetween 7 10]⟩

end GlobalScheduler

end Timpani
