import Timpani.Scheduler.Budget
import Timpani.Scheduler.Hyperperiod
import Timpani.Scheduler.Place

/-!
# Schedule generation

`GlobalScheduler::generate_schedule` runs the five steps of the pipeline for one node and
`GlobalScheduler::build_table` emits the result as a `HierarchicalScheduleTable`.

* `generateSchedule_eq_ok` : the stages of a successful run;
* `Stages.cpuResult` : what the schedule of each CPU holds at the end;
* `Stages.ids_ttSlots`, `Stages.perm_budgets` : the tasks behind the slots and budgets of a table;
* `mem_pairs_generateSchedule` : the tasks a generated table mentions are exactly the CBS tasks and
  the TT tasks with a period it was generated from.
-/

namespace Timpani

/-! ### Grouping by a key -/

theorem perm_flatMap_filter {α κ : Type} [DecidableEq κ] (f : α → κ) {keys : List κ}
    (hnd : keys.Nodup) {l : List α} (h : ∀ x ∈ l, f x ∈ keys) :
    (keys.flatMap fun k => l.filter (f · = k)).Perm l := by
  induction keys generalizing l with
  | nil =>
    rw [List.eq_nil_iff_forall_not_mem.2 fun x hx => List.not_mem_nil (h x hx)]
    rfl
  | cons k keys ih =>
    obtain ⟨hk, hnd⟩ := List.nodup_cons.1 hnd
    have hrest : (keys.flatMap fun k' => l.filter (f · = k')).Perm (l.filter (f · ≠ k)) := by
      refine List.Perm.trans (.of_eq (List.flatMap_congr fun k' hk' => ?_))
        (ih hnd (l := l.filter (f · ≠ k)) fun x hx => ?_)
      · rw [List.filter_filter]
        refine List.filter_congr fun x _ => ?_
        by_cases hx : f x = k'
        · have hne : f x ≠ k := fun hxk => hk (hxk ▸ hx ▸ hk')
          simp [hx, hx ▸ hne]
        · simp [hx]
      · obtain ⟨hx, hne⟩ := List.mem_filter.1 hx
        exact (List.mem_cons.1 (h x hx)).resolve_left (of_decide_eq_true hne)
    rw [List.flatMap_cons]
    refine (hrest.append_left _).trans ?_
    simpa using List.filter_append_perm (fun x => decide (f x = k)) l

namespace GlobalScheduler

/-- `fnv1a_hash` of the C string of a name: the bytes before the first zero byte. -/
def fnv1aHash (s : Text) : UInt64 :=
  (s.takeWhile (· ≠ 0)).foldl (fun hash b => (hash ^^^ b.toUInt64) * 1099511628211)
    14695981039346656037

/-! ### Step 5: the table -/

/-- `static_cast<uint32_t>` of a CPU number. -/
def cpuNumber (cpu : ℤ) : UInt32 := (Int32.ofInt cpu).toUInt32

/-- The table entry of a placed slot. -/
def ttSlotOf (slot : TtSlotPlacement) : TtSlot where
  workloadId := slot.workloadId
  taskId := slot.taskId
  offsetUs := slot.offsetUs
  durationUs := slot.durationUs
  deadlineUs := slot.deadlineUs
  cpu := cpuNumber slot.cpu
  workloadIdHash := fnv1aHash slot.workloadId
  taskIdHash := fnv1aHash slot.taskId
  currentLimit := slot.maxDmiss

/-- The table entry of a budget. -/
def cbsConfigOf (alloc : CbsAllocation) : CbsConfig where
  workloadId := alloc.workloadId
  taskId := alloc.taskId
  budgetUs := alloc.budgetUs
  periodUs := alloc.periodUs
  deadlineUs := alloc.deadlineUs
  workloadIdHash := fnv1aHash alloc.workloadId
  taskIdHash := fnv1aHash alloc.taskId
  currentLimit := alloc.maxDmiss

variable {U : Type}

/-- The partition of an isolated CPU: one layer with its TT slots and CBS entries. -/
def partitionOf (sched : PerCpuSchedule U) : PartitionConfig where
  partitionId := text "isolated-" ++ intText sched.cpuId
  cpuset := some { cpus := [cpuNumber sched.cpuId], isolated := true }
  layers := [{
    layerIndex := 1
    model := .timeTriggered
    ttSlots := sched.ttSlots.map ttSlotOf
    cbsEntries := sched.cbsAllocations.map cbsConfigOf }]

/-- A CPU without slots and budgets gets no partition. -/
def inUse (sched : PerCpuSchedule U) : Bool :=
  !(sched.ttSlots.isEmpty && sched.cbsAllocations.isEmpty)

/-- `build_table`; `now` is the wall-clock reading. -/
def buildTable (now : UInt64) (nodeId : Text) (cpuSchedules : List (PerCpuSchedule U))
    (hyperperiodUs : UInt64) : HierarchicalScheduleTable where
  tableId := text "table_v1"
  nodeId := nodeId
  hyperperiodUs := hyperperiodUs.toUInt32
  epochNs := now
  partitions := (cpuSchedules.filter inUse).map partitionOf

/-! ### The pipeline -/

/-- Step 1: the TT tasks. -/
def ttTasks (tasks : List ClassifiedTask) : List ClassifiedTask :=
  tasks.filter (·.mechanism = .tt)

/-- Step 1: all other tasks. -/
def cbsTasks (tasks : List ClassifiedTask) : List ClassifiedTask :=
  tasks.filter (·.mechanism ≠ .tt)

/-- The tasks assigned to a CPU. -/
def assignedTo (cpu : ℤ) (tasks : List ClassifiedTask) : List ClassifiedTask :=
  tasks.filter (·.assignedCpu = cpu)

theorem mem_assignedTo {cpu : ℤ} {tasks : List ClassifiedTask} {t : ClassifiedTask} :
    t ∈ assignedTo cpu tasks ↔ t ∈ tasks ∧ t.assignedCpu = cpu := by
  simp [assignedTo]

/-- The periods a hyperperiod is computed from. -/
def periodsOf (tasks : List ClassifiedTask) : List UInt64 :=
  (tasks.filter (0 < ·.periodUs)).map (·.periodUs.toUInt64)

/-- Step 3 for one CPU. -/
def placeOnCpu (G : GlobalScheduler U) (tt : List ClassifiedTask) (sched : PerCpuSchedule U) :
    Except InfeasibleError (PerCpuSchedule U) :=
  let cpuTt := assignedTo sched.cpuId tt
  if cpuTt.isEmpty then .ok sched
  else
    let periods := periodsOf cpuTt
    if validateHarmonic periods then
      G.placeTtSlots sched.cpuId cpuTt (calculateHyperperiod periods) sched
    else .error {
      reason := .nonHarmonicPeriod
      cpu := sched.cpuId
      taskId := []
      details := text "Non-harmonic periods on CPU " ++ intText sched.cpuId ++ text ":" ++
        periods.flatMap fun p => text " " ++ natText p.toNat }

variable [Floating U]

/-- Step 4 for one CPU; without any TT period the gaps are those of a 10 ms hyperperiod. -/
def allocateOnCpu (G : GlobalScheduler U) (cbs : List ClassifiedTask) (globalHp : UInt64)
    (sched : PerCpuSchedule U) : Except InfeasibleError (PerCpuSchedule U) :=
  let hpUs := if globalHp = 0 then 10000 else globalHp
  let sched := { sched with gaps := computeGaps sched.ttSlots hpUs }
  let cpuCbs := assignedTo sched.cpuId cbs
  if cpuCbs.isEmpty then .ok sched
  else G.allocateCbsBudgets sched.cpuId cpuCbs sched.uTt sched

/-- `generate_schedule`; `now` is the wall-clock reading the table is stamped with. -/
def generateSchedule (G : GlobalScheduler U) (now : UInt64) (nodeId : Text)
    (tasks : List ClassifiedTask) : Except InfeasibleError HierarchicalScheduleTable :=
  if tasks.isEmpty then .ok (buildTable now nodeId ([] : List (PerCpuSchedule U)) 10000)
  else
    match G.assignCpus nodeId (ttTasks tasks) (cbsTasks tasks) with
    | .error _ => .error {
        reason := .utilizationExceeded
        cpu := -1
        taskId := []
        details := text "CPU assignment failed — no isolated CPUs available for node '" ++
          nodeId ++ text "'" }
    | .ok a => do
      let placed ← a.cpuSchedules.mapM (G.placeOnCpu a.ttTasks)
      let globalHp := calculateHyperperiod (periodsOf a.ttTasks)
      let allocated ← placed.mapM (G.allocateOnCpu a.cbsTasks globalHp)
      return buildTable now nodeId allocated globalHp

/-! ### The stages of a run -/

variable {G : GlobalScheduler U} {now : UInt64} {nodeId : Text} {tasks : List ClassifiedTask}
  {table : HierarchicalScheduleTable}

/-- A successful run of the pipeline: `a` is the assignment of step 2, and `allocated` the
schedules of the CPUs after step 4. -/
structure Stages (G : GlobalScheduler U) (nodeId : Text) (tasks : List ClassifiedTask)
    (a : Assignment U) (allocated : List (PerCpuSchedule U)) : Prop where
  assign : G.assignCpus nodeId (ttTasks tasks) (cbsTasks tasks) = .ok a
  steps : ∃ placed,
    List.Forall₂ (fun s s' => G.placeOnCpu a.ttTasks s = .ok s') a.cpuSchedules placed ∧
    List.Forall₂ (fun s s' => G.allocateOnCpu a.cbsTasks
      (calculateHyperperiod (periodsOf a.ttTasks)) s = .ok s') placed allocated

/-- **The pipeline succeeds iff all its stages do.** -/
theorem generateSchedule_eq_ok (hne : tasks ≠ []) :
    G.generateSchedule now nodeId tasks = .ok table ↔
      ∃ a allocated, Stages G nodeId tasks a allocated ∧
        table = buildTable now nodeId allocated (calculateHyperperiod (periodsOf a.ttTasks)) := by
  rw [generateSchedule, if_neg (by simpa using hne)]
  cases ha : G.assignCpus nodeId (ttTasks tasks) (cbsTasks tasks) with
  | error e =>
    constructor
    · intro h; cases h
    · rintro ⟨a, allocated, ⟨hassign, -⟩, -⟩
      rw [ha] at hassign; cases hassign
  | ok a =>
    constructor
    · intro h
      obtain ⟨placed, hplaced, h⟩ := bind_eq_ok.1 h
      obtain ⟨allocated, halloc, h⟩ := bind_eq_ok.1 h
      cases h
      exact ⟨a, allocated, ⟨ha, placed, mapM_eq_ok.1 hplaced, mapM_eq_ok.1 halloc⟩, rfl⟩
    · rintro ⟨a', allocated, ⟨hassign, placed, hplaced, halloc⟩, rfl⟩
      rw [ha] at hassign
      cases hassign
      exact bind_eq_ok.2 ⟨placed, mapM_eq_ok.2 hplaced,
        bind_eq_ok.2 ⟨allocated, mapM_eq_ok.2 halloc, rfl⟩⟩

theorem generateSchedule_now (G : GlobalScheduler U) (now now' : UInt64) (nodeId : Text)
    (tasks : List ClassifiedTask) :
    G.generateSchedule now' nodeId tasks =
      (G.generateSchedule now nodeId tasks).map ({ · with epochNs := now' }) := by
  unfold generateSchedule
  split_ifs
  · rfl
  · cases G.assignCpus nodeId (ttTasks tasks) (cbsTasks tasks) with
    | error => rfl
    | ok a =>
      dsimp only
      cases a.cpuSchedules.mapM (G.placeOnCpu a.ttTasks) with
      | error => rfl
      | ok placed =>
        cases hp : placed.mapM (G.allocateOnCpu a.cbsTasks
            (calculateHyperperiod (periodsOf a.ttTasks))) with
        | error => simp only [bind, Except.bind, hp]; rfl
        | ok allocated => simp only [bind, Except.bind, hp]; rfl

theorem epochNs_generateSchedule (h : G.generateSchedule now nodeId tasks = .ok table) :
    table.epochNs = now := by
  have hnow := G.generateSchedule_now now now nodeId tasks
  rw [h] at hnow
  exact congrArg (·.epochNs) (Except.ok.inj hnow)

theorem placement_nil (cpu : ℤ) (hp : UInt64) : Placement cpu hp [] [] where
  sorted := .nil
  apart := .nil
  frames := ⟨[], [], .nil, .nil, .nil⟩

omit [Floating U] in
theorem placeOnCpu_cases {tt : List ClassifiedTask} {s s' : PerCpuSchedule U}
    (h : G.placeOnCpu tt s = .ok s') :
    (assignedTo s.cpuId tt = [] ∧ s' = s) ∨
      validateHarmonic (periodsOf (assignedTo s.cpuId tt)) = true ∧
        G.placeTtSlots s.cpuId (assignedTo s.cpuId tt)
          (calculateHyperperiod (periodsOf (assignedTo s.cpuId tt))) s = .ok s' := by
  unfold placeOnCpu at h
  dsimp only at h
  split_ifs at h with hemp hharm
  · exact Or.inl ⟨List.isEmpty_iff.1 hemp, (Except.ok.inj h).symm⟩
  · exact Or.inr ⟨hharm, h⟩

omit [Floating U] in
/-- Step 3 for one CPU: it only adds slots, and they are a placement of the CPU's TT tasks. -/
theorem placeOnCpu_eq_ok {tt : List ClassifiedTask} {s s' : PerCpuSchedule U}
    (h : G.placeOnCpu tt s = .ok s') (hblank : s.ttSlots = []) :
    s' = { s with ttSlots := s'.ttSlots } ∧
      validateHarmonic (periodsOf (assignedTo s.cpuId tt)) = true ∧
      Placement s.cpuId (calculateHyperperiod (periodsOf (assignedTo s.cpuId tt)))
        (assignedTo s.cpuId tt) s'.ttSlots := by
  rcases placeOnCpu_cases h with ⟨hnil, rfl⟩ | ⟨hharm, h⟩
  · rw [hnil, hblank]
    exact ⟨by rw [← hblank], rfl, placement_nil _ _⟩
  · exact ⟨(placeTtSlots_spec h hblank).1, hharm, (placeTtSlots_spec h hblank).2⟩

theorem allocateOnCpu_eq_ok {cbs : List ClassifiedTask} {hp : UInt64} {s s' : PerCpuSchedule U}
    (h : G.allocateOnCpu cbs hp s = .ok s') :
    s'.cpuId = s.cpuId ∧ s'.ttSlots = s.ttSlots ∧
      s'.cbsAllocations = s.cbsAllocations ++
        if (assignedTo s.cpuId cbs).isEmpty then []
        else (G.stdSort.sort (ClassifiedTask.byUtilization U) (assignedTo s.cpuId cbs)).map
          (allocationOf s.cpuId) := by
  unfold allocateOnCpu at h
  dsimp only at h
  by_cases hemp : (assignedTo s.cpuId cbs).isEmpty = true
  · rw [if_pos hemp] at h ⊢
    cases h
    simp
  · rw [if_neg hemp] at h ⊢
    rw [allocateCbsBudgets_eq_ok h]
    exact ⟨rfl, rfl, rfl⟩

/-- What the final schedule of a CPU holds: a placement of its TT tasks, whose periods are
harmonic. -/
structure CpuResult (a : Assignment U) (s : PerCpuSchedule U) : Prop where
  harmonic : validateHarmonic (periodsOf (assignedTo s.cpuId a.ttTasks)) = true
  placement : Placement s.cpuId (calculateHyperperiod (periodsOf (assignedTo s.cpuId a.ttTasks)))
    (assignedTo s.cpuId a.ttTasks) s.ttSlots

theorem toUInt64_ne_zero {p : UInt32} (h : p ≠ 0) : p.toUInt64 ≠ 0 := by
  intro h0
  have := congrArg UInt64.toNat h0
  rw [UInt32.toNat_toUInt64] at this
  exact h (UInt32.toNat_inj.1 this)

theorem mem_periodsOf {ts : List ClassifiedTask} {p : UInt64} :
    p ∈ periodsOf ts ↔ ∃ t ∈ ts, t.periodUs ≠ 0 ∧ t.periodUs.toUInt64 = p := by
  simp [periodsOf, UInt32.pos_iff_ne_zero, and_assoc]

theorem periodsOf_ne_zero {ts : List ClassifiedTask} : ∀ p ∈ periodsOf ts, p ≠ 0 := by
  rintro p hp rfl
  obtain ⟨t, -, h0, hp⟩ := mem_periodsOf.1 hp
  exact toUInt64_ne_zero h0 hp

/-- The least common multiple, over the unbounded integers, of the nonzero periods. -/
def lcmPeriods (ts : List ClassifiedTask) : ℕ :=
  Multiset.lcm ((periodsOf ts).map UInt64.toNat : List ℕ)

theorem dvd_lcmPeriods {ts : List ClassifiedTask} {t : ClassifiedTask} (ht : t ∈ ts)
    (h0 : t.periodUs ≠ 0) : t.periodUs.toNat ∣ lcmPeriods ts := by
  refine Multiset.dvd_lcm ?_
  rw [Multiset.mem_coe, ← UInt32.toNat_toUInt64]
  exact List.mem_map_of_mem (mem_periodsOf.2 ⟨t, ht, h0, rfl⟩)

theorem lcmPeriods_ne_zero (ts : List ClassifiedTask) : lcmPeriods ts ≠ 0 := by
  rw [lcmPeriods, Ne, Multiset.lcm_eq_zero_iff, Multiset.mem_coe, List.mem_map]
  rintro ⟨p, hp, h0⟩
  exact periodsOf_ne_zero p hp (UInt64.toNat_inj.1 h0)

theorem calculateHyperperiod_periodsOf {ts : List ClassifiedTask} (hne : periodsOf ts ≠ [])
    (h : validateHarmonic (periodsOf ts) = true) :
    (calculateHyperperiod (periodsOf ts)).toNat = lcmPeriods ts :=
  (calculateHyperperiod_of_validateHarmonic hne periodsOf_ne_zero h).1

namespace Stages

variable {a : Assignment U} {allocated : List (PerCpuSchedule U)}

theorem origin (h : Stages G nodeId tasks a allocated) :
    List.Forall₂ (fun s s' => ∃ s₁, G.placeOnCpu a.ttTasks s = .ok s₁ ∧
      G.allocateOnCpu a.cbsTasks (calculateHyperperiod (periodsOf a.ttTasks)) s₁ = .ok s')
      a.cpuSchedules allocated := by
  obtain ⟨placed, hplaced, halloc⟩ := h.steps
  exact forall₂_comp hplaced halloc

theorem cpuIds (h : Stages G nodeId tasks a allocated) :
    allocated.map (·.cpuId) = stdSet (G.availableCpus nodeId) := by
  have hblank := blank_assignCpus h.assign
  have hids : List.Forall₂ (fun s s' => s.cpuId = s'.cpuId) a.cpuSchedules allocated := by
    refine ((List.forall₂_and_left _ _).2 ⟨hblank.ttSlots, h.origin⟩).imp ?_
    rintro s s' ⟨hs, s₁, h₁, h₂⟩
    rw [(allocateOnCpu_eq_ok h₂).1, (placeOnCpu_eq_ok h₁ hs).1]
  rw [← hblank.cpuIds]
  exact (List.forall₂_eq_eq_eq ▸ List.forall₂_map_left_iff.2
    (List.forall₂_map_right_iff.2 hids) : _ = _).symm

theorem nodup_cpuIds (h : Stages G nodeId tasks a allocated) :
    (allocated.map (·.cpuId)).Nodup := by
  rw [h.cpuIds]
  exact nodup_stdSet _

/-- The partitions of the table belong to distinct CPUs, and what holds for the slots of every CPU
holds for those of its partition. -/
theorem exists_partitions (h : Stages G nodeId tasks a allocated) (hp : UInt64)
    {P : ℤ → List TtSlot → Prop} (hP : ∀ s ∈ allocated, P s.cpuId (s.ttSlots.map ttSlotOf)) :
    ∃ cpus : List ℤ, cpus.Nodup ∧ List.Forall₂ (fun cpu p =>
      p.partitionId = text "isolated-" ++ intText cpu ∧
      p.cpuset = some { cpus := [cpuNumber cpu], isolated := true } ∧
      P cpu (p.layers.flatMap (·.ttSlots))) cpus (buildTable now nodeId allocated hp).partitions := by
  refine ⟨(allocated.filter inUse).map (·.cpuId), ?_, ?_⟩
  · exact h.nodup_cpuIds.sublist (List.filter_sublist.map _)
  · rw [buildTable, List.forall₂_map_left_iff, List.forall₂_map_right_iff, List.forall₂_same]
    intro s hs
    refine ⟨rfl, rfl, ?_⟩
    simpa [partitionOf] using hP s (List.mem_of_mem_filter hs)

/-- The schedule of every CPU is a placement of its TT tasks. -/
theorem cpuResult (h : Stages G nodeId tasks a allocated) : ∀ s ∈ allocated, CpuResult a s := by
  intro s' hs'
  obtain ⟨s, hs, s₁, h₁, h₂⟩ := exists_of_forall₂_right h.origin hs'
  obtain ⟨heq, hharm, hplace⟩ := placeOnCpu_eq_ok h₁ ((blank_assignCpus h.assign).ttSlots s hs)
  obtain ⟨hid, htt, -⟩ := allocateOnCpu_eq_ok h₂
  have hid' : s'.cpuId = s.cpuId := by rw [hid, heq]
  exact ⟨by rwa [hid'], by rwa [hid', htt]⟩

theorem budgets [LawfulFloating U] (h : Stages G nodeId tasks a allocated) :
    ∀ s ∈ allocated, ∃ order : List ClassifiedTask, order.Perm (assignedTo s.cpuId a.cbsTasks) ∧
      s.cbsAllocations = order.map (allocationOf s.cpuId) := by
  intro s' hs'
  obtain ⟨s, hs, s₁, h₁, h₂⟩ := exists_of_forall₂_right h.origin hs'
  have hblank := blank_assignCpus h.assign
  have heq := (placeOnCpu_eq_ok h₁ (hblank.ttSlots s hs)).1
  obtain ⟨hid, -, hcbs⟩ := allocateOnCpu_eq_ok h₂
  have hnil : s₁.cbsAllocations = [] := by rw [heq]; exact hblank.cbsAllocations s hs
  rw [hnil, List.nil_append] at hcbs
  rw [hid, hcbs]
  split_ifs with hemp
  · exact ⟨[], by rw [List.isEmpty_iff.1 hemp], rfl⟩
  · exact ⟨_, G.stdSort.perm ClassifiedTask.byUtilization_strictWeak _, rfl⟩

end Stages

/-! ### The tasks of a table -/

/-- Membership in the slots of a placement, by tasks: every task with a period has a slot, and
every slot is that of a task. -/
theorem Placement.mem_ids {cpu : ℤ} {ts : List ClassifiedTask} {slots : List TtSlotPlacement}
    (h : Placement cpu (calculateHyperperiod (periodsOf ts)) ts slots)
    (hharm : validateHarmonic (periodsOf ts) = true) {p : Text × Text} :
    (∃ s ∈ slots, p = (s.workloadId, s.taskId)) ↔
      ∃ t ∈ ts, t.periodUs ≠ 0 ∧ p = (t.workloadId, t.taskId) := by
  obtain ⟨order, placed, horder, hplaced, hframes⟩ := h.frames
  constructor
  · rintro ⟨s, hs, rfl⟩
    obtain ⟨⟨t, k⟩, hf, hin⟩ := exists_of_forall₂_right hframes (hplaced.mem_iff.1 hs)
    obtain ⟨t', ht', hk⟩ := List.mem_flatMap.1 hf
    split_ifs at hk with h0
    · cases hk
    · obtain ⟨k', -, heq⟩ := List.mem_map.1 hk
      cases heq
      refine ⟨t, horder.mem_iff.1 ht', h0, ?_⟩
      rw [hin.eq]
      rfl
  · rintro ⟨t, ht, h0, rfl⟩
    have hrep : 0 < repeats (calculateHyperperiod (periodsOf ts)) t := by
      have hne : periodsOf ts ≠ [] := List.ne_nil_of_mem (mem_periodsOf.2 ⟨t, ht, h0, rfl⟩)
      rw [repeats, UInt64.toNat_div, calculateHyperperiod_periodsOf hne hharm,
        UInt32.toNat_toUInt64]
      exact Nat.div_pos (Nat.le_of_dvd (Nat.pos_of_ne_zero (lcmPeriods_ne_zero ts))
        (dvd_lcmPeriods ht h0)) (Nat.pos_of_ne_zero fun h => h0 (UInt32.toNat_inj.1 h))
    have hf : (t, 0) ∈ GlobalScheduler.frames (calculateHyperperiod (periodsOf ts)) order := by
      refine List.mem_flatMap.2 ⟨t, horder.mem_iff.2 ht, ?_⟩
      rw [if_neg h0]
      exact List.mem_map.2 ⟨0, List.mem_range.2 hrep, rfl⟩
    obtain ⟨s, hs, hin⟩ := exists_of_forall₂_left hframes hf
    refine ⟨s, hplaced.mem_iff.2 hs, ?_⟩
    rw [hin.eq]
    rfl

omit [Floating U] in
theorem mem_pairs_buildTable {scheds : List (PerCpuSchedule U)} {hp : UInt64} {p : Text × Text} :
    p ∈ (buildTable now nodeId scheds hp).pairs ↔ ∃ s ∈ scheds,
      (∃ slot ∈ s.ttSlots, p = (slot.workloadId, slot.taskId)) ∨
        ∃ alloc ∈ s.cbsAllocations, p = (alloc.workloadId, alloc.taskId) := by
  have huse : ∀ s : PerCpuSchedule U, ((∃ slot ∈ s.ttSlots, p = (slot.workloadId, slot.taskId)) ∨
      ∃ alloc ∈ s.cbsAllocations, p = (alloc.workloadId, alloc.taskId)) → inUse s = true := by
    rintro s (⟨x, hx, -⟩ | ⟨x, hx, -⟩)
    · simp [inUse, List.ne_nil_of_mem hx]
    · simp [inUse, List.ne_nil_of_mem hx]
  simp only [HierarchicalScheduleTable.pairs, HierarchicalScheduleTable.layers, buildTable,
    partitionOf, List.mem_flatMap, List.mem_map, List.mem_filter, List.mem_append]
  constructor
  · rintro ⟨l, ⟨_, ⟨s, ⟨hs, -⟩, rfl⟩, hl⟩, hp⟩
    obtain rfl := List.mem_singleton.1 hl
    refine ⟨s, hs, hp.imp ?_ ?_⟩
    · rintro ⟨_, hx, rfl⟩
      obtain ⟨x, hmem, rfl⟩ := List.mem_map.1 hx
      exact ⟨x, hmem, rfl⟩
    · rintro ⟨_, hx, rfl⟩
      obtain ⟨x, hmem, rfl⟩ := List.mem_map.1 hx
      exact ⟨x, hmem, rfl⟩
  · rintro ⟨s, hs, hp⟩
    refine ⟨_, ⟨_, ⟨s, ⟨hs, huse s hp⟩, rfl⟩, List.mem_singleton_self _⟩, hp.imp ?_ ?_⟩
    · rintro ⟨x, hx, rfl⟩
      exact ⟨_, List.mem_map_of_mem hx, rfl⟩
    · rintro ⟨x, hx, rfl⟩
      exact ⟨_, List.mem_map_of_mem hx, rfl⟩

/-! ### The tasks behind slots and budgets -/

theorem mem_ttTasks {t : ClassifiedTask} : t ∈ ttTasks tasks ↔ t ∈ tasks ∧ t.mechanism = .tt := by
  simp [ttTasks]

theorem mem_cbsTasks {t : ClassifiedTask} :
    t ∈ cbsTasks tasks ↔ t ∈ tasks ∧ t.mechanism ≠ .tt := by
  simp [cbsTasks]

namespace Stages

variable {a : Assignment U} {allocated : List (PerCpuSchedule U)}

theorem exists_schedule (hst : Stages G nodeId tasks a allocated) {c : ℤ}
    (hc : c ∈ G.availableCpus nodeId) : ∃ s ∈ allocated, s.cpuId = c := by
  have hmem : c ∈ allocated.map (·.cpuId) := by rwa [hst.cpuIds, mem_stdSet]
  exact List.mem_map.1 hmem

/-- The slots of a CPU are those of the TT tasks with a period whose workload it is dedicated to. -/
theorem ids_ttSlots (hst : Stages G nodeId tasks a allocated) {s : PerCpuSchedule U}
    (hs : s ∈ allocated) {p : Text × Text} :
    (∃ slot ∈ s.ttSlots, p = (slot.workloadId, slot.taskId)) ↔
      ∃ t ∈ ttTasks tasks, t.periodUs ≠ 0 ∧ p = (t.workloadId, t.taskId) ∧
        dedicatedCpu (G.availableCpus nodeId) (ttWorkloadIds (ttTasks tasks)) t.workloadId
          = s.cpuId := by
  obtain ⟨hharm, hplace⟩ := hst.cpuResult s hs
  rw [hplace.mem_ids hharm]
  simp only [mem_assignedTo, ttTasks_assignCpus hst.assign, List.mem_map]
  constructor
  · rintro ⟨_, ⟨⟨t, ht, rfl⟩, hcpu⟩, h0, rfl⟩
    exact ⟨t, ht, h0, rfl, hcpu⟩
  · rintro ⟨t, ht, h0, rfl, hcpu⟩
    exact ⟨_, ⟨⟨t, ht, rfl⟩, hcpu⟩, h0, rfl⟩

/-- The budgets of all CPUs are those of the CBS tasks. -/
theorem perm_budgets [LawfulFloating U] (hst : Stages G nodeId tasks a allocated) :
    (allocated.flatMap (·.cbsAllocations)).Perm
      (a.cbsTasks.map fun t => allocationOf t.assignedCpu t) := by
  have hcpus : ∀ t ∈ a.cbsTasks, t.assignedCpu ∈ allocated.map (·.cpuId) := by
    intro t ht
    obtain ⟨t₀, -, cpu, hcpu, rfl⟩ := exists_of_forall₂_right (cbsTasks_assignCpus hst.assign) ht
    rwa [hst.cpuIds, mem_stdSet]
  have hnd := hst.nodup_cpuIds
  have hgroup : ∀ s ∈ allocated, s.cbsAllocations.Perm
      ((assignedTo s.cpuId a.cbsTasks).map fun t => allocationOf t.assignedCpu t) := by
    intro s hs
    obtain ⟨order, horder, hallocs⟩ := hst.budgets s hs
    rw [hallocs]
    refine (horder.map _).trans (.of_eq (List.map_congr_left fun t ht => ?_))
    rw [(mem_assignedTo.1 ht).2]
  refine (List.Perm.flatMap_left _ hgroup).trans ?_
  rw [← List.map_flatMap]
  refine List.Perm.map _ ?_
  have hgroups := perm_flatMap_filter ClassifiedTask.assignedCpu hnd hcpus
  rwa [List.flatMap_map] at hgroups

end Stages

/-- **The tasks of a generated table** are the CBS tasks and the TT tasks with a period. -/
theorem mem_pairs_generateSchedule [LawfulFloating U]
    (h : G.generateSchedule now nodeId tasks = .ok table) {p : Text × Text} :
    p ∈ table.pairs ↔ ∃ t ∈ tasks, (t.mechanism = .tt → t.periodUs ≠ 0) ∧
      p = (t.workloadId, t.taskId) := by
  by_cases hne : tasks = []
  · subst hne
    cases h
    simp [mem_pairs_buildTable]
  obtain ⟨a, allocated, hst, rfl⟩ := (generateSchedule_eq_ok hne).1 h
  have hcbs := cbsTasks_assignCpus hst.assign
  rw [mem_pairs_buildTable]
  constructor
  · rintro ⟨s, hs, hp | ⟨alloc, hal, rfl⟩⟩
    · obtain ⟨t, ht, h0, rfl, -⟩ := (hst.ids_ttSlots hs).1 hp
      exact ⟨t, (mem_ttTasks.1 ht).1, fun _ => h0, rfl⟩
    · obtain ⟨t', ht', rfl⟩ := List.mem_map.1
        (hst.perm_budgets.mem_iff.1 (List.mem_flatMap.2 ⟨s, hs, hal⟩))
      obtain ⟨t, ht, cpu, -, rfl⟩ := exists_of_forall₂_right hcbs ht'
      exact ⟨t, (mem_cbsTasks.1 ht).1, fun h => absurd h (mem_cbsTasks.1 ht).2, rfl⟩
  · rintro ⟨t, ht, h0, rfl⟩
    by_cases hm : t.mechanism = .tt
    · obtain ⟨s, hs, hid⟩ := hst.exists_schedule (dedicatedCpu_mem (G.availableCpus_ne_nil nodeId)
        (ttWorkloadIds (ttTasks tasks)) t.workloadId)
      exact ⟨s, hs, Or.inl ((hst.ids_ttSlots hs).2
        ⟨t, mem_ttTasks.2 ⟨ht, hm⟩, h0 hm, rfl, hid.symm⟩)⟩
    · obtain ⟨_, hmem, cpu, -, rfl⟩ := exists_of_forall₂_left hcbs (mem_cbsTasks.2 ⟨ht, hm⟩)
      obtain ⟨s, hs, hal⟩ := List.mem_flatMap.1
        (hst.perm_budgets.mem_iff.2 (List.mem_map_of_mem hmem))
      exact ⟨s, hs, Or.inr ⟨_, hal, rfl⟩⟩

end GlobalScheduler

end Timpani
