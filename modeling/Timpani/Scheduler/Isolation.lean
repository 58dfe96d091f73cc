import Timpani.Scheduler.Validity

/-!
# The TT slots do not depend on the CBS tasks

The two kinds of tasks share the schedules of the CPUs and their utilisation counters, but nothing
about CBS tasks reaches the TT slots.

* `map_ttSlots_placeOnCpu` : step 3 for one CPU is a function of the CPU and its TT tasks;
* `Stages.forall₂_ttSlots` : two runs with the same TT tasks place the same slots on every CPU;
* `ttSlotsOn_eq_of_ttTasks_eq` : so do the tables.
-/

namespace Timpani

/-- The CPU of a partition. -/
def PartitionConfig.cpu (p : PartitionConfig) : Option UInt32 := p.cpuset.bind (·.cpus.head?)

/-- The TT slots of a CPU, in order. -/
def HierarchicalScheduleTable.ttSlotsOn (t : HierarchicalScheduleTable) (cpu : UInt32) :
    List TtSlot :=
  (t.partitions.filter (·.cpu = some cpu)).flatMap fun p => p.layers.flatMap (·.ttSlots)

namespace GlobalScheduler

variable {U : Type} {G : GlobalScheduler U}

theorem flatMap_partitions_buildTable {α : Type} {f : PartitionConfig → List α}
    (hf : ∀ s : PerCpuSchedule U, inUse s = false → f (partitionOf s) = []) (now : UInt64)
    (nodeId : Text) (scheds : List (PerCpuSchedule U)) (hp : UInt64) (cpu : UInt32) :
    ((buildTable now nodeId scheds hp).partitions.filter (·.cpu = some cpu)).flatMap f =
      (scheds.filter (cpuNumber ·.cpuId = cpu)).flatMap fun s => f (partitionOf s) := by
  have hcpu : ∀ s : PerCpuSchedule U, (partitionOf s).cpu = some (cpuNumber s.cpuId) := fun _ => rfl
  simp only [buildTable]
  induction scheds with
  | nil => rfl
  | cons s scheds ih =>
    by_cases hu : inUse s = true
    · rw [List.filter_cons_of_pos hu, List.map_cons]
      by_cases hc : cpuNumber s.cpuId = cpu
      · rw [List.filter_cons_of_pos (by simp [hcpu, hc]), List.filter_cons_of_pos (by simp [hc]),
          List.flatMap_cons, List.flatMap_cons, ih]
      · rw [List.filter_cons_of_neg (by simp [hcpu, hc]), List.filter_cons_of_neg (by simp [hc]), ih]
    · rw [List.filter_cons_of_neg hu, ih]
      by_cases hc : cpuNumber s.cpuId = cpu
      · rw [List.filter_cons_of_pos (by simp [hc]), List.flatMap_cons, hf s (by simpa using hu),
          List.nil_append]
      · rw [List.filter_cons_of_neg (by simp [hc])]

theorem ttSlotsOn_buildTable (now : UInt64) (nodeId : Text) (scheds : List (PerCpuSchedule U))
    (hp : UInt64) (cpu : UInt32) : (buildTable now nodeId scheds hp).ttSlotsOn cpu =
      (scheds.filter (cpuNumber ·.cpuId = cpu)).flatMap fun s => s.ttSlots.map ttSlotOf := by
  have hunused : ∀ s : PerCpuSchedule U, inUse s = false →
      (partitionOf s).layers.flatMap (·.ttSlots) = [] := fun s hs => by
    simp only [inUse, Bool.not_eq_false', Bool.and_eq_true, List.isEmpty_iff] at hs
    simp [partitionOf, hs.1]
  rw [HierarchicalScheduleTable.ttSlotsOn, flatMap_partitions_buildTable hunused]
  simp [partitionOf]

theorem flatMap_ttSlots_congr {scheds scheds' : List (PerCpuSchedule U)}
    (h : List.Forall₂ (fun s s' => s.cpuId = s'.cpuId ∧ s.ttSlots = s'.ttSlots) scheds scheds')
    (cpu : UInt32) :
    (scheds.filter (cpuNumber ·.cpuId = cpu)).flatMap (fun s => s.ttSlots.map ttSlotOf) =
      (scheds'.filter (cpuNumber ·.cpuId = cpu)).flatMap fun s => s.ttSlots.map ttSlotOf := by
  induction h with
  | nil => rfl
  | cons hhead _ ih =>
    obtain ⟨hid, hslots⟩ := hhead
    simp only [List.filter_cons, hid]
    split_ifs
    · rw [List.flatMap_cons, List.flatMap_cons, hslots, ih]
    · exact ih

/-! ### Two runs of step 3 -/

theorem map_ttSlots_placeTtSlots {cpu : ℤ} {tasks : List ClassifiedTask} {hp : UInt64}
    {s r : PerCpuSchedule U} (h : s.ttSlots = r.ttSlots) :
    (G.placeTtSlots cpu tasks hp s).map (·.ttSlots) =
      (G.placeTtSlots cpu tasks hp r).map (·.ttSlots) := by
  unfold placeTtSlots
  rw [h]
  split_ifs
  · rfl
  · cases hplaced : (G.stdSort.sort (fun a b => decide (a.deadlineUs < b.deadlineUs)) tasks).foldlM
      (placeTask cpu hp) { ttSlots := r.ttSlots, occupied := [] } with
    | error => simp only [hplaced]; rfl
    | ok => simp only [hplaced]; rfl

/-- The same for step 3, which looks at the tasks of the CPU only. -/
theorem map_ttSlots_placeOnCpu {tt tt' : List ClassifiedTask} {s r : PerCpuSchedule U}
    (hid : s.cpuId = r.cpuId) (h : s.ttSlots = r.ttSlots)
    (htt : assignedTo s.cpuId tt = assignedTo s.cpuId tt') :
    (G.placeOnCpu tt s).map (·.ttSlots) = (G.placeOnCpu tt' r).map (·.ttSlots) := by
  unfold placeOnCpu
  rw [← hid, ← htt]
  dsimp only
  split_ifs
  · exact congrArg Except.ok h
  · exact map_ttSlots_placeTtSlots h
  · rfl

variable [Floating U] {nodeId : Text} {tasks tasks' : List ClassifiedTask} {a a' : Assignment U}
  {allocated allocated' : List (PerCpuSchedule U)}

theorem Stages.forall₂_placed (hst : Stages G nodeId tasks a allocated) :
    List.Forall₂ (fun cpu s => s.cpuId = cpu ∧
      (G.placeOnCpu a.ttTasks (.new cpu)).map (·.ttSlots) = .ok s.ttSlots)
      (stdSet (G.availableCpus nodeId)) allocated := by
  have hblank := blank_assignCpus hst.assign
  rw [← hblank.cpuIds, List.forall₂_map_left_iff]
  refine ((List.forall₂_and_left _ _).2 ⟨hblank.ttSlots, hst.origin⟩).imp ?_
  rintro s s' ⟨hs, s₁, h₁, h₂⟩
  obtain ⟨hid, htt, -⟩ := allocateOnCpu_eq_ok h₂
  have hplace : (G.placeOnCpu a.ttTasks (.new s.cpuId)).map (·.ttSlots) =
      (G.placeOnCpu a.ttTasks s).map (·.ttSlots) := map_ttSlots_placeOnCpu rfl hs.symm rfl
  refine ⟨by rw [hid, (placeOnCpu_eq_ok h₁ hs).1], ?_⟩
  rw [hplace, h₁, htt]
  rfl

/-- **Two runs with the same TT tasks** place the same slots on every CPU. -/
theorem Stages.forall₂_ttSlots (hst : Stages G nodeId tasks a allocated)
    (hst' : Stages G nodeId tasks' a' allocated') (htt : a.ttTasks = a'.ttTasks) :
    List.Forall₂ (fun s s' => s.cpuId = s'.cpuId ∧ s.ttSlots = s'.ttSlots) allocated allocated' := by
  refine (forall₂_comp hst.forall₂_placed.flip hst'.forall₂_placed).imp ?_
  rintro s s' ⟨cpu, ⟨hid, hs⟩, hid', hs'⟩
  refine ⟨hid.trans hid'.symm, ?_⟩
  rw [htt] at hs
  exact Except.ok.inj (hs.symm.trans hs')

/-- **CBS tasks do not influence the TT slots.**  Two task lists with the same TT tasks in the same
order get the same hyperperiod and the same slots on every CPU. -/
theorem ttSlotsOn_eq_of_ttTasks_eq (G : GlobalScheduler U) (now now' : UInt64) (nodeId : Text)
    (tasks tasks' : List ClassifiedTask) (table table' : HierarchicalScheduleTable)
    (hne : ttTasks tasks ≠ []) (htt : ttTasks tasks = ttTasks tasks')
    (h : G.generateSchedule now nodeId tasks = .ok table)
    (h' : G.generateSchedule now' nodeId tasks' = .ok table') :
    table.hyperperiodUs = table'.hyperperiodUs ∧
      ∀ cpu, table.ttSlotsOn cpu = table'.ttSlotsOn cpu := by
  have hnil : ∀ ts, ttTasks ts ≠ [] → ts ≠ [] := by
    rintro _ hts rfl
    exact hts rfl
  obtain ⟨a, allocated, hst, rfl⟩ := (generateSchedule_eq_ok (hnil _ hne)).1 h
  obtain ⟨a', allocated', hst', rfl⟩ := (generateSchedule_eq_ok (hnil _ (htt ▸ hne))).1 h'
  have hsame : a.ttTasks = a'.ttTasks := by
    rw [ttTasks_assignCpus hst.assign, ttTasks_assignCpus hst'.assign, htt]
  refine ⟨by simp only [buildTable, hsame], fun cpu => ?_⟩
  rw [ttSlotsOn_buildTable, ttSlotsOn_buildTable]
  exact flatMap_ttSlots_congr (hst.forall₂_ttSlots hst' hsame) cpu

/-- Two CBS tasks around a TT task, and none. -/
theorem ttSlotsOn_eq_without_cbs :
    let tt : ClassifiedTask := .periodic (text "w") (text "loop") 10 2 10
    let aux (taskId : Text) : ClassifiedTask :=
      { ClassifiedTask.periodic (text "v") taskId 50 5 50 with mechanism := .cbs }
    ∃ table table',
      unconfigured.generateSchedule 0 (text "n") [aux (text "x"), tt, aux (text "y")] = .ok table ∧
      unconfigured.generateSchedule 1 (text "n") [tt] = .ok table' ∧
      table.hyperperiodUs = table'.hyperperiodUs ∧
      ∀ cpu, table.ttSlotsOn cpu = table'.ttSlotsOn cpu := by
  intro tt aux
  have hok : (unconfigured.generateSchedule 0 (text "n")
      [aux (text "x"), tt, aux (text "y")]).toOption.isSome = true := by decide +kernel
  have hok' : (unconfigured.generateSchedule 1 (text "n") [tt]).toOption.isSome = true := by
    decide +kernel
  obtain ⟨table, h⟩ := Option.isSome_iff_exists.1 hok
  obtain ⟨table', h'⟩ := Option.isSome_iff_exists.1 hok'
  have h := toOption_eq_some.1 h
  have h' := toOption_eq_some.1 h'
  exact ⟨table, table', h, h', ttSlotsOn_eq_of_ttTasks_eq _ _ _ _ _ _ table table' (by decide)
    (by decide) h h'⟩

end GlobalScheduler

end Timpani
