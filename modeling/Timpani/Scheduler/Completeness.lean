import Timpani.Scheduler.Replay

/-!
# No task is lost

A task handed to the scheduler goes through two lists, a search for its CPU, one pass per CPU and
the construction of the table.  When `generate_schedule` succeeds, the table should have slots or a
budget for every one of them, and nothing else.

* `Stages.mem_slots_iff`, `Stages.perm_cbsEntries` : the tasks behind the slots and entries;
* `Complete` : the table holds exactly the tasks of the list;
* `complete_iff` : a generated table is complete iff every TT task has a period;
* `not_complete_without_period` : a TT task without period is dropped silently.
-/

namespace Timpani

theorem filter_eq_singleton {α κ : Type} [DecidableEq κ] {f : α → κ} {l : List α}
    (hnd : (l.map f).Nodup) {x : α} (hx : x ∈ l) : l.filter (f · = f x) = [x] := by
  induction l with
  | nil => cases hx
  | cons y l ih =>
    rw [List.map_cons, List.nodup_cons] at hnd
    rcases List.mem_cons.1 hx with rfl | hx
    · have hnone : l.filter (f · = f x) = [] := by
        refine List.filter_eq_nil_iff.2 fun z hz hfz => hnd.1 ?_
        exact of_decide_eq_true hfz ▸ List.mem_map_of_mem hz
      rw [List.filter_cons_of_pos (by simp), hnone]
    · have hne : f y ≠ f x := fun hyx => hnd.1 (hyx ▸ List.mem_map_of_mem hx)
      rw [List.filter_cons_of_neg (by simpa using hne), ih hnd.2 hx]

namespace GlobalScheduler

variable {U : Type}

theorem cbsEntries_buildTable (now : UInt64) (nodeId : Text) (scheds : List (PerCpuSchedule U))
    (hp : UInt64) : (buildTable now nodeId scheds hp).cbsEntries =
      (scheds.flatMap (·.cbsAllocations)).map cbsConfigOf := by
  simp only [HierarchicalScheduleTable.cbsEntries, HierarchicalScheduleTable.layers, buildTable]
  induction scheds with
  | nil => rfl
  | cons s scheds ih =>
    rw [List.flatMap_cons, List.map_append, ← ih]
    by_cases hu : inUse s = true
    · simp [hu, partitionOf]
    · have : s.cbsAllocations = [] := by
        simp only [inUse, Bool.not_eq_true, Bool.not_eq_false', Bool.and_eq_true,
          List.isEmpty_iff] at hu
        exact hu.2
      simp [hu, this]

/-! ### The tasks behind slots and budgets -/

section Stages

variable [Floating U] {G : GlobalScheduler U} {nodeId : Text} {tasks : List ClassifiedTask}
  {a : Assignment U} {allocated : List (PerCpuSchedule U)}

theorem map_cbsTasks_assignCpus [LawfulFloating U] {tt cbs : List ClassifiedTask} {β : Type}
    (h : G.assignCpus nodeId tt cbs = .ok a) {f : ClassifiedTask → β}
    (hf : ∀ t cpu, f (t.onCpu cpu) = f t) : a.cbsTasks.map f = cbs.map f := by
  refine (List.forall₂_eq_eq_eq ▸ List.forall₂_map_left_iff.2 (List.forall₂_map_right_iff.2
    ((cbsTasks_assignCpus h).imp ?_)) : _ = _).symm
  rintro t _ ⟨cpu, -, rfl⟩
  exact (hf t cpu).symm

end Stages

/-! ### Completeness -/

/-- The table holds exactly the tasks of the list. -/
structure Complete (tasks : List ClassifiedTask) (table : HierarchicalScheduleTable) : Prop where
  /-- Every TT task has a slot. -/
  slot : ∀ t ∈ tasks, t.mechanism = .tt → ∃ s ∈ table.slots, s.pair = idsOf t
  /-- The slots of a TT task are on one CPU. -/
  one_cpu : ∀ t ∈ tasks, t.mechanism = .tt → ∃ cpu, ∀ p ∈ table.partitions, ∀ l ∈ p.layers,
    ∀ s ∈ l.ttSlots, s.pair = idsOf t → p.cpuset = some ⟨[cpu], true⟩ ∧ s.cpu = cpu
  /-- Every CBS task has one budget, that of its parameters. -/
  budget : ∀ t ∈ tasks, t.mechanism = .cbs → ∃ e,
    table.cbsEntries.filter (·.pair = idsOf t) = [e] ∧
      e.budgetUs = t.wcetUs ∧ e.periodUs = t.periodUs ∧ e.deadlineUs = t.deadlineUs
  slot_origin : ∀ s ∈ table.slots, ∃ t ∈ tasks, t.mechanism = .tt ∧ s.pair = idsOf t
  budget_origin : ∀ e ∈ table.cbsEntries, ∃ t ∈ tasks, t.mechanism = .cbs ∧ e.pair = idsOf t

section Complete

variable [Floating U] [LawfulFloating U] {G : GlobalScheduler U} {nodeId : Text}
  {tasks : List ClassifiedTask} {a : Assignment U} {allocated : List (PerCpuSchedule U)}

omit [LawfulFloating U] in
/-- The slots of a table, by the tasks behind them. -/
theorem Stages.mem_slots_iff (hst : Stages G nodeId tasks a allocated) {now hp : UInt64}
    {p : Text × Text} : (∃ s ∈ (buildTable now nodeId allocated hp).slots, s.pair = p) ↔
      ∃ t ∈ ttTasks tasks, t.periodUs ≠ 0 ∧ p = idsOf t := by
  simp only [slots_buildTable, List.mem_map, List.mem_flatMap]
  constructor
  · rintro ⟨_, ⟨slot, ⟨s, hs, hslot⟩, rfl⟩, rfl⟩
    obtain ⟨t, ht, h0, hp, -⟩ := (hst.ids_ttSlots hs).1 ⟨slot, hslot, rfl⟩
    exact ⟨t, ht, h0, hp⟩
  · rintro ⟨t, ht, h0, rfl⟩
    obtain ⟨s, hs, hcpu⟩ := hst.exists_schedule (dedicatedCpu_mem (G.availableCpus_ne_nil nodeId)
      (ttWorkloadIds (ttTasks tasks)) t.workloadId)
    obtain ⟨slot, hslot, hp⟩ := (hst.ids_ttSlots hs).2 ⟨t, ht, h0, rfl, hcpu.symm⟩
    exact ⟨_, ⟨slot, ⟨s, hs, hslot⟩, rfl⟩, hp.symm⟩

/-- The CBS entries of a table, up to their order. -/
theorem Stages.perm_cbsEntries (hst : Stages G nodeId tasks a allocated) (now hp : UInt64) :
    (buildTable now nodeId allocated hp).cbsEntries.Perm
      ((cbsTasks tasks).map fun t => cbsConfigOf (allocationOf 0 t)) := by
  rw [cbsEntries_buildTable]
  refine (hst.perm_budgets.map cbsConfigOf).trans (.of_eq ?_)
  rw [List.map_map]
  exact map_cbsTasks_assignCpus hst.assign fun _ _ => rfl

omit [LawfulFloating U] in
theorem Stages.slots_one_cpu (hst : Stages G nodeId tasks a allocated) (now hp : UInt64)
    (t : ClassifiedTask) :
    ∀ p ∈ (buildTable now nodeId allocated hp).partitions, ∀ l ∈ p.layers, ∀ s ∈ l.ttSlots,
      s.pair = idsOf t →
      let cpu := cpuNumber
        (dedicatedCpu (G.availableCpus nodeId) (ttWorkloadIds (ttTasks tasks)) t.workloadId)
      p.cpuset = some ⟨[cpu], true⟩ ∧ s.cpu = cpu := by
  intro p hp l hl s hs hpair
  obtain ⟨sched, hsched, rfl⟩ := List.mem_map.1 hp
  obtain rfl := List.mem_singleton.1 hl
  obtain ⟨slot, hslot, rfl⟩ := List.mem_map.1 hs
  have hmem := List.mem_of_mem_filter hsched
  obtain ⟨t', -, -, hids, hcpu⟩ := (hst.ids_ttSlots hmem).1 ⟨slot, hslot, rfl⟩
  have hwl : t'.workloadId = t.workloadId :=
    congrArg Prod.fst (hids.symm.trans hpair : idsOf t' = idsOf t)
  -- the slot carries the number of the CPU it was placed on
  have hslotCpu : slot.cpu = sched.cpuId := by
    obtain ⟨order, placed, -, hplaced, hframes⟩ := (hst.cpuResult sched hmem).placement.frames
    obtain ⟨_, -, hin⟩ := exists_of_forall₂_right hframes (hplaced.mem_iff.1 hslot)
    rw [hin.eq]
    rfl
  rw [hwl] at hcpu
  simp only [hcpu, partitionOf, ttSlotOf, hslotCpu, and_self]

/-- **A generated table is complete iff every TT task has a period.** -/
theorem complete_iff (G : GlobalScheduler U) (now : UInt64) (nodeId : Text)
    (tasks : List ClassifiedTask) (table : HierarchicalScheduleTable)
    (hids : (tasks.map idsOf).Nodup) (h : G.generateSchedule now nodeId tasks = .ok table) :
    Complete tasks table ↔ ∀ t ∈ tasks, t.mechanism = .tt → t.periodUs ≠ 0 := by
  by_cases hne : tasks = []
  · subst hne
    cases h
    have hempty : Complete [] (buildTable now nodeId ([] : List (PerCpuSchedule U)) 10000) :=
      ⟨by simp, by simp, by simp, by simp [slots_buildTable], by simp [cbsEntries_buildTable]⟩
    simpa using hempty
  obtain ⟨a, allocated, hst, rfl⟩ := (generateSchedule_eq_ok hne).1 h
  have hentries := hst.perm_cbsEntries now (calculateHyperperiod (periodsOf a.ttTasks))
  constructor
  · intro hc t ht htt
    obtain ⟨s, hs, hpair⟩ := hc.slot t ht htt
    obtain ⟨t', ht', h0, hids'⟩ := hst.mem_slots_iff.1 ⟨s, hs, hpair⟩
    rwa [List.inj_on_of_nodup_map hids ht (mem_ttTasks.1 ht').1 hids']
  · intro hperiod
    refine ⟨fun t ht htt => ?_, fun t _ _ => ⟨_, hst.slots_one_cpu _ _ t⟩, fun t ht hcbs => ?_,
      fun s hs => ?_, fun e he => ?_⟩
    · exact hst.mem_slots_iff.2 ⟨t, mem_ttTasks.2 ⟨ht, htt⟩, hperiod t ht htt, rfl⟩
    · have hmem : t ∈ cbsTasks tasks := mem_cbsTasks.2 ⟨ht, by simp [hcbs]⟩
      have hnd : ((cbsTasks tasks).map idsOf).Nodup := hids.sublist (List.filter_sublist.map idsOf)
      refine ⟨cbsConfigOf (allocationOf 0 t), List.perm_singleton.1 ?_, rfl, rfl, rfl⟩
      refine (hentries.filter _).trans (.of_eq ?_)
      rw [List.filter_map]
      exact congrArg (List.map _) (filter_eq_singleton hnd hmem)
    · obtain ⟨t, ht, -, hp⟩ := hst.mem_slots_iff.1 ⟨s, hs, rfl⟩
      exact ⟨t, (mem_ttTasks.1 ht).1, (mem_ttTasks.1 ht).2, hp⟩
    · obtain ⟨t, ht, rfl⟩ := List.mem_map.1 (hentries.mem_iff.1 he)
      obtain ⟨ht, hm⟩ := mem_cbsTasks.1 ht
      refine ⟨t, ht, ?_, rfl⟩
      cases hmech : t.mechanism with
      | tt => exact absurd hmech hm
      | cbs => rfl

end Complete

/-- A TT workload and a CBS task on a node without configuration. -/
theorem complete_of_periods :
    let tasks : List ClassifiedTask :=
      [.periodic (text "w") (text "slow") 20 8 20, .periodic (text "w") (text "fast") 10 2 10,
        { ClassifiedTask.periodic (text "v") (text "aux") 50 5 50 with mechanism := .cbs }]
    ∃ table, unconfigured.generateSchedule 0 (text "n") tasks = .ok table ∧
      Complete tasks table := by
  intro tasks
  have hok : (unconfigured.generateSchedule 0 (text "n") tasks).toOption.isSome = true := by
    decide +kernel
  obtain ⟨table, h⟩ := Option.isSome_iff_exists.1 hok
  have h := toOption_eq_some.1 h
  exact ⟨table, h, (complete_iff _ _ _ tasks table (by decide) h).2 (by decide)⟩

/-- **A TT task without period is dropped** next to one with a period, and the schedule is reported
as feasible. -/
theorem not_complete_without_period :
    let tasks : List ClassifiedTask :=
      [.periodic (text "w") (text "loop") 10 2 10, .periodic (text "w") (text "lost") 0 2 10]
    (tasks.map idsOf).Nodup ∧ ∃ table, unconfigured.generateSchedule 0 (text "n") tasks = .ok table ∧
      (∀ s ∈ table.slots, s.pair ≠ (text "w", text "lost")) ∧ ¬ Complete tasks table := by
  intro tasks
  have hrun : (unconfigured.generateSchedule 0 (text "n") tasks).toOption.any (fun table =>
      decide (∀ s ∈ table.slots, s.pair ≠ (text "w", text "lost"))) = true := by
    decide +kernel
  obtain ⟨table, h, hlost⟩ := (Option.any_eq_true _ _).1 hrun
  have hlost := of_decide_eq_true hlost
  refine ⟨by decide, table, toOption_eq_some.1 h, hlost, fun hc => ?_⟩
  obtain ⟨s, hs, hpair⟩ := hc.slot (.periodic (text "w") (text "lost") 0 2 10) (by simp [tasks]) rfl
  exact hlost s hs hpair

end GlobalScheduler

end Timpani
