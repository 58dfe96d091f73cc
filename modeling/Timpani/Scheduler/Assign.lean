import Timpani.Cpp.Float
import Timpani.Cpp.Loop
import Timpani.Scheduler.Types
import Mathlib.Data.List.Induction
import Mathlib.Data.List.GetD

/-!
# CPU assignment

Step 2 of the pipeline, `GlobalScheduler::assign_cpus`.  Time-triggered workloads are taken in name
order and each gets the next CPU of the node, the last CPU being shared by all that are left over.
CBS tasks are taken by decreasing utilisation and each goes to the CPU with the largest residual
capacity.

* `ttTasks_assignCpus` : every TT task keeps its data and runs on the dedicated CPU of its workload;
* `cbsTasks_assignCpus` : every CBS task keeps its data and its place, and runs on a CPU of the node;
* `blank_assignCpus` : the schedules of the CPUs are still empty, one for each CPU of the node.
-/

namespace Timpani

/-- The scheduler: its node configurations, and the `std::sort` it is linked with. -/
structure GlobalScheduler (U : Type) where
  stdSort : StdSort
  nodeConfigManager : Option NodeConfigManager

/-- The `PerCpuSchedule(int cpu)` constructor. -/
def PerCpuSchedule.new {U : Type} [Floating U] (cpu : ℤ) : PerCpuSchedule U where
  cpuId := cpu
  ttSlots := []
  gaps := []
  cbsAllocations := []
  uTt := Floating.ofDecimal 0 0
  uCbs := Floating.ofDecimal 0 0

namespace ClassifiedTask

variable {U : Type} [Floating U]

/-- `wcet / period`, or `0.0` for a task without period. -/
def utilization (t : ClassifiedTask) : U := Floating.ratio t.wcetUs.toNat t.periodUs.toNat

variable (U) in
/-- The comparator of both sorts by utilisation: larger utilisations come first. -/
def byUtilization (a b : ClassifiedTask) : Bool := Floating.lt (b.utilization : U) a.utilization

theorem byUtilization_strictWeak [LawfulFloating U] : StrictWeak (byUtilization U) :=
  LawfulFloating.ratio_strictWeak.comap fun t : ClassifiedTask => (t.wcetUs, t.periodUs)

/-- The task on another CPU. -/
def onCpu (t : ClassifiedTask) (cpu : ℤ) : ClassifiedTask := { t with assignedCpu := cpu }

end ClassifiedTask

namespace GlobalScheduler

variable {U : Type} [Floating U]

/-- Timer Master and BPF dispatch. -/
def uOverhead : U := Floating.ofDecimal 2 2

/-- The conservative utilisation bound. -/
def uBound : U := Floating.ofDecimal 80 2

omit [Floating U] in
/-- The CPUs of the node in increasing order; `[2, 3]` when none are configured. -/
def availableCpus (G : GlobalScheduler U) (nodeId : Text) : List ℤ :=
  let configured := match G.nodeConfigManager with
    | some m => if m.loaded then m.getAvailableCpus nodeId else []
    | none => []
  G.stdSort.sort (fun a b => decide (a < b)) (if configured.isEmpty then [2, 3] else configured)

omit [Floating U] in
/-- Change the schedule of one CPU. -/
def updateCpu (cpu : ℤ) (f : PerCpuSchedule U → PerCpuSchedule U)
    (schedules : List (PerCpuSchedule U)) : List (PerCpuSchedule U) :=
  schedules.map fun s => if s.cpuId = cpu then f s else s

/-! ### Time-triggered workloads -/

/-- The keys of `tt_workload_groups`, in iteration order. -/
def ttWorkloadIds (tt : List ClassifiedTask) : List Text :=
  stdSet (tt.map (·.workloadId))

/-- What the loop over the TT workloads changes. -/
structure TtAssignment (U : Type) where
  cpuIdx : ℕ
  ttTasks : List ClassifiedTask
  cpuSchedules : List (PerCpuSchedule U)

/-- One iteration: the workload goes to the next CPU, or shares the last one. -/
def assignTtWorkload (cpus : List ℤ) (st : TtAssignment U) (wlId : Text) : TtAssignment U :=
  let cpuIdx := if cpus.length ≤ st.cpuIdx then cpus.length - 1 else st.cpuIdx
  let cpu := cpus.getD cpuIdx 0
  let wlUtil := (st.ttTasks.filter (·.workloadId = wlId)).foldl
    (fun u t => if 0 < t.periodUs then Floating.add u t.utilization else u)
    (Floating.ofDecimal 0 0 : U)
  { cpuIdx := cpuIdx + 1
    ttTasks := st.ttTasks.map fun t => if t.workloadId = wlId then t.onCpu cpu else t
    cpuSchedules :=
      updateCpu cpu (fun s => { s with uTt := Floating.add s.uTt wlUtil }) st.cpuSchedules }

/-! ### CBS tasks -/

/-- One CPU of the search for the largest residual capacity; `best` is the best CPU so far and its
residual capacity. -/
def worstFitStep (schedules : List (PerCpuSchedule U)) (us : U) (best : ℤ × U) (cpu : ℤ) : ℤ × U :=
  let s := (schedules.find? (·.cpuId = cpu)).getD (PerCpuSchedule.new cpu)
  let residual := Floating.sub (Floating.sub (Floating.sub uBound s.uTt) s.uCbs) uOverhead
  if Floating.le us residual && Floating.lt best.2 residual then (cpu, residual) else best

/-- The CPU with the most residual capacity among those that can take utilisation `us`; `-1` when
there is none. -/
def worstFitCpu (cpus : List ℤ) (schedules : List (PerCpuSchedule U)) (us : U) : ℤ :=
  (cpus.foldl (worstFitStep schedules us) (-1, Floating.ofDecimal (-1) 0)).1

/-- What the loop over the CBS tasks changes. -/
structure CbsAssignment (U : Type) where
  cbsTasks : List ClassifiedTask
  cpuSchedules : List (PerCpuSchedule U)

/-- One iteration, for the task at index `idx`; it fails when no CPU can accommodate the task. -/
def assignCbsTask (cpus : List ℤ) (cbs : List ClassifiedTask) (st : CbsAssignment U)
    (idx : Fin cbs.length) : Except Unit (CbsAssignment U) :=
  let us : U := (cbs.get idx).utilization
  let bestCpu := worstFitCpu cpus st.cpuSchedules us
  if bestCpu < 0 then .error ()
  else .ok
    { cbsTasks := st.cbsTasks.modify idx (·.onCpu bestCpu)
      cpuSchedules :=
        updateCpu bestCpu (fun s => { s with uCbs := Floating.add s.uCbs us }) st.cpuSchedules }

/-- The result of a successful assignment. -/
structure Assignment (U : Type) where
  ttTasks : List ClassifiedTask
  cbsTasks : List ClassifiedTask
  cpuSchedules : List (PerCpuSchedule U)

/-- `assign_cpus`; the error is the return value `false`. -/
def assignCpus (G : GlobalScheduler U) (nodeId : Text) (tt cbs : List ClassifiedTask) :
    Except Unit (Assignment U) := do
  let cpus := G.availableCpus nodeId
  let afterTt := (ttWorkloadIds tt).foldl (assignTtWorkload cpus)
    { cpuIdx := 0, ttTasks := tt, cpuSchedules := (stdSet cpus).map .new }
  let cbsIndices := G.stdSort.sort
    (fun a b => (cbs.get a).byUtilization U (cbs.get b)) (List.finRange cbs.length)
  let afterCbs ← cbsIndices.foldlM (assignCbsTask cpus cbs)
    { cbsTasks := cbs, cpuSchedules := afterTt.cpuSchedules }
  return { ttTasks := afterTt.ttTasks
           cbsTasks := afterCbs.cbsTasks
           cpuSchedules := afterCbs.cpuSchedules }

/-! ### What the assignment leaves alone -/

/-- The schedules before slots are placed: one empty schedule for each CPU of the node. -/
structure Blank (cpus : List ℤ) (schedules : List (PerCpuSchedule U)) : Prop where
  cpuIds : schedules.map (·.cpuId) = stdSet cpus
  ttSlots : ∀ s ∈ schedules, s.ttSlots = []
  cbsAllocations : ∀ s ∈ schedules, s.cbsAllocations = []

theorem blank_new (cpus : List ℤ) : Blank cpus ((stdSet cpus).map (.new (U := U))) where
  cpuIds := by simp [Function.comp_def, PerCpuSchedule.new]
  ttSlots := by simp [PerCpuSchedule.new]
  cbsAllocations := by simp [PerCpuSchedule.new]

omit [Floating U] in
theorem Blank.updateCpu {cpus : List ℤ} {schedules : List (PerCpuSchedule U)} {cpu : ℤ}
    {f : PerCpuSchedule U → PerCpuSchedule U} (h : Blank cpus schedules)
    (hid : ∀ s, (f s).cpuId = s.cpuId) (htt : ∀ s, (f s).ttSlots = s.ttSlots)
    (hcbs : ∀ s, (f s).cbsAllocations = s.cbsAllocations) :
    Blank cpus (updateCpu cpu f schedules) where
  cpuIds := by
    rw [← h.cpuIds, GlobalScheduler.updateCpu, List.map_map]
    refine List.map_congr_left fun s _ => ?_
    dsimp only [Function.comp_apply]
    split_ifs
    · exact hid s
    · rfl
  ttSlots := by
    simp only [GlobalScheduler.updateCpu, List.forall_mem_map]
    intro s hs
    split_ifs
    · rw [htt, h.ttSlots s hs]
    · exact h.ttSlots s hs
  cbsAllocations := by
    simp only [GlobalScheduler.updateCpu, List.forall_mem_map]
    intro s hs
    split_ifs
    · rw [hcbs, h.cbsAllocations s hs]
    · exact h.cbsAllocations s hs

/-! ### Dedicated CPUs -/

theorem nodup_ttWorkloadIds (tt : List ClassifiedTask) : (ttWorkloadIds tt).Nodup :=
  nodup_stdSet _

theorem mem_ttWorkloadIds {tt : List ClassifiedTask} {w : Text} :
    w ∈ ttWorkloadIds tt ↔ ∃ t ∈ tt, t.workloadId = w := by
  simp [ttWorkloadIds]

/-- The CPU of the `i`-th workload in name order: the `i`-th CPU of the node, or the last one. -/
def dedicatedCpu (cpus : List ℤ) (ids : List Text) (w : Text) : ℤ :=
  cpus.getD (min (ids.idxOf w) (cpus.length - 1)) 0

theorem dedicatedCpu_mem {cpus : List ℤ} (hne : cpus ≠ []) (ids : List Text) (w : Text) :
    dedicatedCpu cpus ids w ∈ cpus := by
  have hpos := List.length_pos_of_ne_nil hne
  have hlt : min (ids.idxOf w) (cpus.length - 1) < cpus.length := by omega
  rw [dedicatedCpu, List.getD_eq_getElem _ _ hlt]
  exact List.getElem_mem hlt

theorem foldl_assignTtWorkload {cpus : List ℤ} (hne : cpus ≠ []) {ids : List Text}
    (hnd : ids.Nodup) (tt : List ClassifiedTask) (schedules : List (PerCpuSchedule U)) :
    let st := ids.foldl (assignTtWorkload cpus)
      { cpuIdx := 0, ttTasks := tt, cpuSchedules := schedules }
    st.cpuIdx = min ids.length cpus.length ∧
    st.ttTasks = tt.map (fun t =>
      if t.workloadId ∈ ids then t.onCpu (dedicatedCpu cpus ids t.workloadId) else t) ∧
    (Blank cpus schedules → Blank cpus st.cpuSchedules) := by
  -- the loop takes the workloads from the left, so the induction adds one at the right end
  induction ids using List.reverseRecOn with
  | nil => simp
  | append_singleton ids w ih =>
    have hpos := List.length_pos_of_ne_nil hne
    rw [List.nodup_append_comm, List.singleton_append, List.nodup_cons] at hnd
    obtain ⟨hw, hnd⟩ := hnd
    obtain ⟨hidx, htt, hblank⟩ := ih hnd
    simp only [List.foldl_append, List.foldl_cons, List.foldl_nil]
    set st := ids.foldl (assignTtWorkload cpus)
      { cpuIdx := 0, ttTasks := tt, cpuSchedules := schedules } with hst
    have huse : (if cpus.length ≤ st.cpuIdx then cpus.length - 1 else st.cpuIdx)
        = min ids.length (cpus.length - 1) := by
      rw [hidx]; split_ifs <;> omega
    refine ⟨?_, ?_, fun hb => ?_⟩
    · simp only [assignTtWorkload, huse, List.length_append, List.length_singleton]
      omega
    · simp only [assignTtWorkload, huse, htt, List.map_map]
      refine List.map_congr_left fun t _ => ?_
      dsimp only [Function.comp_apply]
      by_cases ht : t.workloadId = w
      · have hlast : (ids ++ [w]).idxOf w = ids.length := by
          rw [List.idxOf_append_of_notMem hw]; simp
        simp [ht, hw, dedicatedCpu, hlast]
      · by_cases hm : t.workloadId ∈ ids
        · have hkeep : (ids ++ [w]).idxOf t.workloadId = ids.idxOf t.workloadId :=
            List.idxOf_append_of_mem hm
          simp [ht, hm, dedicatedCpu, hkeep, ClassifiedTask.onCpu]
        · simp [ht, hm]
    · exact (hblank hb).updateCpu (fun _ => rfl) (fun _ => rfl) fun _ => rfl

/-! ### Worst fit -/

theorem foldl_worstFitStep_mem (schedules : List (PerCpuSchedule U)) (us : U) (cpus : List ℤ)
    (best : ℤ × U) :
    (cpus.foldl (worstFitStep schedules us) best).1 = best.1 ∨
      (cpus.foldl (worstFitStep schedules us) best).1 ∈ cpus := by
  induction cpus generalizing best with
  | nil => exact Or.inl rfl
  | cons c cpus ih =>
    rw [List.foldl_cons]
    rcases ih (worstFitStep schedules us best c) with h | h
    · rw [h, worstFitStep]
      split_ifs
      · exact Or.inr List.mem_cons_self
      · exact Or.inl rfl
    · exact Or.inr (List.mem_cons_of_mem _ h)

theorem worstFitCpu_mem {cpus : List ℤ} {schedules : List (PerCpuSchedule U)} {us : U}
    (h : ¬ worstFitCpu cpus schedules us < 0) : worstFitCpu cpus schedules us ∈ cpus := by
  rcases foldl_worstFitStep_mem schedules us cpus
    (-1, Floating.ofDecimal (-1) 0) with hneg | hmem
  · exact absurd (show worstFitCpu cpus schedules us < 0 by rw [worstFitCpu, hneg]; simp) h
  · exact hmem

theorem assignCbsTask_eq_ok {cpus : List ℤ} {cbs : List ClassifiedTask} {st st' : CbsAssignment U}
    {idx : Fin cbs.length} (h : assignCbsTask cpus cbs st idx = .ok st') :
    (∃ cpu ∈ cpus, st'.cbsTasks = st.cbsTasks.modify idx (·.onCpu cpu)) ∧
      (Blank cpus st.cpuSchedules → Blank cpus st'.cpuSchedules) := by
  unfold assignCbsTask at h
  dsimp only at h
  split_ifs at h with hneg
  cases h
  exact ⟨⟨_, worstFitCpu_mem hneg, rfl⟩,
    fun hb => hb.updateCpu (fun _ => rfl) (fun _ => rfl) fun _ => rfl⟩

/-- The state after the loop over the CBS tasks at the indices `idxs`: every task keeps its data,
and those whose turn has come are on CPUs of the node. -/
theorem foldlM_assignCbsTask {cpus : List ℤ} {cbs : List ClassifiedTask}
    {schedules : List (PerCpuSchedule U)} {idxs : List (Fin cbs.length)} {st : CbsAssignment U}
    (h : idxs.foldlM (assignCbsTask cpus cbs) { cbsTasks := cbs, cpuSchedules := schedules }
      = .ok st) :
    (∀ i : Fin cbs.length, ∃ cpu, st.cbsTasks[i.val]? = some ((cbs.get i).onCpu cpu) ∧
      (i ∈ idxs → cpu ∈ cpus)) ∧ st.cbsTasks.length = cbs.length ∧
    (Blank cpus schedules → Blank cpus st.cpuSchedules) := by
  refine foldlM_ok_induction h (motive := fun done st =>
    (∀ i : Fin cbs.length, ∃ cpu, st.cbsTasks[i.val]? = some ((cbs.get i).onCpu cpu) ∧
      (i ∈ done → cpu ∈ cpus)) ∧ st.cbsTasks.length = cbs.length ∧
    (Blank cpus schedules → Blank cpus st.cpuSchedules)) ⟨fun i => ?_, rfl, id⟩ ?_
  · refine ⟨(cbs.get i).assignedCpu, ?_, by simp⟩
    rw [List.getElem?_eq_getElem i.isLt]
    rfl
  · rintro done idx st st' - ⟨htasks, hlen, hblank⟩ hst
    obtain ⟨⟨cpu, hcpu, hmod⟩, hb⟩ := assignCbsTask_eq_ok hst
    refine ⟨fun i => ?_, by rw [hmod, List.length_modify, hlen], hb ∘ hblank⟩
    obtain ⟨cpu₀, hget, hdone⟩ := htasks i
    rw [hmod, List.getElem?_modify, hget]
    by_cases hi : idx = i
    · exact ⟨cpu, by simp [hi, ClassifiedTask.onCpu], fun _ => hcpu⟩
    · refine ⟨cpu₀, by simp [Fin.val_ne_of_ne hi], fun hm => hdone ?_⟩
      rcases List.mem_append.1 hm with hm | hm
      · exact hm
      · exact absurd (List.mem_singleton.1 hm).symm hi

/-! ### The assignment as a whole -/

omit [Floating U] in
theorem availableCpus_ne_nil (G : GlobalScheduler U) (nodeId : Text) :
    G.availableCpus nodeId ≠ [] := by
  intro h
  unfold availableCpus at h
  have hperm := G.stdSort.perm (StrictWeak.of_lt (κ := ℤ))
  have hnil := List.nil_perm.1 (h ▸ hperm _)
  split_ifs at hnil with hemp
  exact hemp (by rw [hnil]; rfl)

variable {G : GlobalScheduler U} {nodeId : Text} {tt cbs : List ClassifiedTask} {a : Assignment U}

theorem assignCpus_eq_ok (h : G.assignCpus nodeId tt cbs = .ok a) :
    ∃ st : CbsAssignment U,
      let afterTt := (ttWorkloadIds tt).foldl (assignTtWorkload (G.availableCpus nodeId))
        { cpuIdx := 0, ttTasks := tt, cpuSchedules := (stdSet (G.availableCpus nodeId)).map .new }
      (G.stdSort.sort (fun a b => (cbs.get a).byUtilization U (cbs.get b))
        (List.finRange cbs.length)).foldlM (assignCbsTask (G.availableCpus nodeId) cbs)
          { cbsTasks := cbs, cpuSchedules := afterTt.cpuSchedules } = .ok st ∧
      a = { ttTasks := afterTt.ttTasks, cbsTasks := st.cbsTasks, cpuSchedules := st.cpuSchedules } := by
  obtain ⟨st, hst, ha⟩ := bind_eq_ok.1 h
  cases ha
  exact ⟨st, hst, rfl⟩

/-- **TT tasks run on the dedicated CPU of their workload.** -/
theorem ttTasks_assignCpus (h : G.assignCpus nodeId tt cbs = .ok a) :
    a.ttTasks = tt.map fun t =>
      t.onCpu (dedicatedCpu (G.availableCpus nodeId) (ttWorkloadIds tt) t.workloadId) := by
  obtain ⟨st, -, rfl⟩ := assignCpus_eq_ok h
  have htt := (foldl_assignTtWorkload (G.availableCpus_ne_nil nodeId) (nodup_ttWorkloadIds tt) tt
    ((stdSet (G.availableCpus nodeId)).map (.new (U := U)))).2.1
  refine htt.trans ?_
  refine List.map_congr_left fun t ht => ?_
  rw [if_pos (mem_ttWorkloadIds.2 ⟨t, ht, rfl⟩)]

/-- **CBS tasks run on CPUs of the node**, with their data and order unchanged. -/
theorem cbsTasks_assignCpus [LawfulFloating U] (h : G.assignCpus nodeId tt cbs = .ok a) :
    List.Forall₂ (fun t t' => ∃ cpu ∈ G.availableCpus nodeId, t' = t.onCpu cpu) cbs a.cbsTasks := by
  obtain ⟨st, hst, rfl⟩ := assignCpus_eq_ok h
  obtain ⟨htasks, hlen, -⟩ := foldlM_assignCbsTask hst
  have hall : ∀ i, i ∈ G.stdSort.sort (fun a b => (cbs.get a).byUtilization U (cbs.get b))
      (List.finRange cbs.length) := fun i =>
    (G.stdSort.perm (ClassifiedTask.byUtilization_strictWeak.comap cbs.get) _).mem_iff.2
      (List.mem_finRange i)
  refine List.forall₂_iff_get.2 ⟨hlen.symm, fun i hi hi' => ?_⟩
  obtain ⟨cpu, hget, hcpu⟩ := htasks ⟨i, hi⟩
  refine ⟨cpu, hcpu (hall _), ?_⟩
  rw [List.getElem?_eq_getElem hi'] at hget
  exact Option.some.inj hget

/-- **The schedules start blank.** -/
theorem blank_assignCpus (h : G.assignCpus nodeId tt cbs = .ok a) :
    Blank (G.availableCpus nodeId) a.cpuSchedules := by
  obtain ⟨st, hst, rfl⟩ := assignCpus_eq_ok h
  refine (foldlM_assignCbsTask hst).2.2 ?_
  exact (foldl_assignTtWorkload (G.availableCpus_ne_nil nodeId)
    (nodup_ttWorkloadIds tt) tt _).2.2 (blank_new _)

end GlobalScheduler

end Timpani
