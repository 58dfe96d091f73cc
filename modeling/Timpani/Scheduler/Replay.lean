import Timpani.Scheduler.Overflow
import Timpani.Timeline.Grid

/-!
# Replaying a table

A node replays the slots of its table for ever with the table's hyperperiod.  The slots of each
CPU are placed over the hyperperiod of *that CPU's* tasks, but the table carries one hyperperiod,
that of the TT tasks of all CPUs.

* `hyperperiodExact_iff` : the hyperperiod of the table is the least common multiple of all TT
  periods exactly when that fits into 32 bits;
* `not_hyperperiodExact_coprime` : two workloads with coprime periods on two CPUs;
* `ReleasedOncePerPeriod` : in the replay, every TT task whose deadline is within its period is
  released exactly once in every period;
* `releasedOncePerPeriod_iff` : this holds exactly when every CPU with such a task has the
  hyperperiod of the table and no slot of such a task wraps; where the field for the hyperperiod is
  too small, exactly when it holds long enough;
* `not_releasedOncePerPeriod_two_cpus` : two workloads with periods of 10 and 15 ms on two CPUs.
-/

namespace Timpani

/-- All TT slots of a table. -/
def HierarchicalScheduleTable.slots (table : HierarchicalScheduleTable) : List TtSlot :=
  table.layers.flatMap (·.ttSlots)

/-- The `i.2`-th replay of slot `i.1` belongs to the task, and starts and ends between the start of
the task's `n`-th period and the deadline. -/
def FiresIn (table : HierarchicalScheduleTable) (t : ClassifiedTask) (n : ℕ)
    (i : Fin table.slots.length × ℕ) : Prop :=
  let s := table.slots.get i.1
  let start := s.offsetUs.toNat + i.2 * table.hyperperiodUs.toNat
  (s.workloadId = t.workloadId ∧ s.taskId = t.taskId) ∧ n * t.periodUs.toNat ≤ start ∧
    start + s.durationUs.toNat ≤ n * t.periodUs.toNat + t.deadlineUs.toNat

/-- Every TT task with a period and a deadline within it is released once per period. -/
def ReleasedOncePerPeriod (table : HierarchicalScheduleTable) (tasks : List ClassifiedTask) :
    Prop :=
  ∀ t ∈ tasks, t.mechanism = .tt → t.periodUs ≠ 0 → t.deadlineUs ≤ t.periodUs →
    ∀ n, ∃! i, FiresIn table t n i

namespace GlobalScheduler

variable {U : Type}

theorem slots_buildTable (now : UInt64) (nodeId : Text) (scheds : List (PerCpuSchedule U))
    (hp : UInt64) :
    (buildTable now nodeId scheds hp).slots = (scheds.flatMap (·.ttSlots)).map ttSlotOf := by
  simp only [HierarchicalScheduleTable.slots, HierarchicalScheduleTable.layers, buildTable]
  induction scheds with
  | nil => rfl
  | cons s scheds ih =>
    rw [List.flatMap_cons, List.map_append, ← ih]
    by_cases hu : inUse s = true
    · simp [hu, partitionOf]
    · have : s.ttSlots = [] := by
        simp only [inUse, Bool.not_eq_true, Bool.not_eq_false', Bool.and_eq_true,
          List.isEmpty_iff] at hu
        exact hu.1
      simp [hu, this]

/-! ### Slots of zero length -/

section ZeroLength

variable {cpu : ℤ} {hp : UInt64} {ts : List ClassifiedTask} {slots : List TtSlotPlacement}
  {t : ClassifiedTask} {k : ℕ} {s : TtSlotPlacement}

theorem InFrame.first_zero (h : InFrame cpu hp slots (t, k) s) (h0 : t.wcetUs = 0) {x : UInt32}
    (hx : frameStart t k ≤ x) (hlt : x < s.offsetUs) :
    ∃ s' ∈ slots, s'.deadlineUs ≤ t.deadlineUs ∧ s'.offsetUs < x ∧
      x < s'.offsetUs + s'.durationUs := by
  have hwrap : s.offsetUs.toNat + t.wcetUs.toNat < 2 ^ 32 := by
    have := s.offsetUs.toNat_lt
    rw [h0]
    simpa using this
  obtain ⟨s', hs', hd, hconf⟩ := h.first hwrap x hx hlt
  simp only [Interval.conflicts, Bool.and_eq_true, decide_eq_true_eq, gt_iff_lt] at hconf
  rw [h0, UInt32.add_zero] at hconf
  exact ⟨s', hs', hd, hconf.2, hconf.1⟩

theorem InFrame.offset_zero (h : InFrame cpu hp slots (t, 0) s) (h0 : t.wcetUs = 0) :
    s.offsetUs.toNat = 0 := by
  by_contra hne
  have hstart : frameStart t 0 = 0 := by simp [frameStart]
  have hlt : (0 : UInt32) < s.offsetUs := by
    rw [UInt32.lt_iff_toNat_lt]
    exact Nat.pos_of_ne_zero hne
  obtain ⟨s', -, -, hlt', -⟩ := h.first_zero h0 (hstart ▸ UInt32.le_refl _) hlt
  exact absurd hlt' UInt32.not_lt_zero

/-- A slot of zero length whose deadline is the period starts before the period ends: the slot in
front of it has a deadline, and so a length, of at most one period. -/
theorem Placement.offset_lt (hplace : Placement cpu hp ts slots) (hp32 : hp.toNat < 2 ^ 32)
    (h : InFrame cpu hp slots (t, k) s)
    (hk : k < repeats hp t) (hT : t.periodUs ≠ 0) (h0 : t.wcetUs = 0)
    (hD : t.deadlineUs = t.periodUs) : s.offsetUs.toNat < (k + 1) * t.periodUs.toNat := by
  by_contra hge
  rw [not_lt, Nat.succ_mul] at hge
  have hTpos : 0 < t.periodUs.toNat := Nat.pos_of_ne_zero fun h => hT (UInt32.toNat_inj.1 h)
  have hstart := frameStart_toNat hp32 hk
  have hlt : frameStart t k < s.offsetUs := by rw [UInt32.lt_iff_toNat_lt]; omega
  obtain ⟨s₁, hs₁, hd₁, hlo₁, hhi₁⟩ := h.first_zero h0 (UInt32.le_refl _) hlt
  -- the slot in the way belongs to a frame and does not wrap, so it is not longer than its deadline
  obtain ⟨rs, -, hmem, hframes⟩ := hplace.exists_tags
  obtain ⟨r, hr, hin⟩ := exists_of_forall₂_left hframes hs₁
  have hwrap₁ : s₁.offsetUs.toNat + (ts.get r.1).wcetUs.toNat < 2 ^ 32 := by
    have := UInt32.lt_iff_toNat_lt.1 (UInt32.lt_of_le_of_lt (UInt32.le_of_lt hlo₁) hhi₁)
    have hd := s₁.durationUs.toNat_lt
    rw [UInt32.toNat_add] at this
    rw [← hin.duration]
    omega
  have hserve := hin.serves hp32 ((hmem r).1 hr).2 hwrap₁
  have hend₁ := hin.end_toNat hwrap₁
  have hd₁' : (ts.get r.1).deadlineUs.toNat ≤ t.periodUs.toNat := by
    rw [hin.eq, hD] at hd₁
    exact UInt32.le_iff_toNat_le.1 hd₁
  have hlen : s₁.durationUs.toNat ≤ t.periodUs.toNat := by
    have h₁ := hserve.start_le
    have h₂ := hserve.end_le.trans (Nat.min_le_left _ _)
    simp only [ttSlotOf] at h₁ h₂
    omega
  rw [UInt32.lt_iff_toNat_lt] at hlo₁ hhi₁
  -- so its end is in the way of nothing
  have hnext : s₁.offsetUs + s₁.durationUs < s.offsetUs := by rw [UInt32.lt_iff_toNat_lt]; omega
  have hstart' : frameStart t k ≤ s₁.offsetUs + s₁.durationUs := by
    rw [UInt32.le_iff_toNat_le]; omega
  obtain ⟨s₂, hs₂, -, hlo₂, hhi₂⟩ := h.first_zero h0 hstart' hnext
  have hne : s₁ ≠ s₂ := by
    rintro rfl
    exact absurd hhi₂ (UInt32.lt_irrefl _)
  refine hplace.apart.forall hs₁ hs₂ hne ⟨hlo₂, ?_⟩
  rw [UInt32.lt_iff_toNat_lt] at hhi₂ ⊢
  omega

end ZeroLength

/-! ### The slots of a table and the releases they serve -/

/-- The hyperperiod the slots of a CPU are placed over. -/
def hyperperiodOn (a : Assignment U) (cpu : ℤ) : UInt64 :=
  calculateHyperperiod (periodsOf (assignedTo cpu a.ttTasks))

/-- The slot of one of the schedules that serves the release `r`. -/
def ServesOn (a : Assignment U) (scheds : List (PerCpuSchedule U)) (s : TtSlotPlacement)
    (r : ClassifiedTask × ℕ) : Prop :=
  ∃ sched ∈ scheds, sched.cpuId = r.1.assignedCpu ∧ s ∈ sched.ttSlots ∧
    InFrame sched.cpuId (hyperperiodOn a sched.cpuId) sched.ttSlots r s

/-- **Each slot serves one release, and each release is served by one slot.** -/
theorem exists_tags_of_cpuResult {a : Assignment U} (hnd : a.ttTasks.Nodup)
    {scheds : List (PerCpuSchedule U)} (hids : (scheds.map (·.cpuId)).Nodup)
    (hres : ∀ s ∈ scheds, CpuResult a s) :
    ∃ rs : List (ClassifiedTask × ℕ), rs.Nodup ∧
      (∀ r, r ∈ rs ↔ r.1.assignedCpu ∈ scheds.map (·.cpuId) ∧ r.1 ∈ a.ttTasks ∧
        r.1.periodUs ≠ 0 ∧ r.2 < repeats (hyperperiodOn a r.1.assignedCpu) r.1) ∧
      List.Forall₂ (ServesOn a scheds) (scheds.flatMap (·.ttSlots)) rs := by
  induction scheds with
  | nil => exact ⟨[], List.nodup_nil, by simp, .nil⟩
  | cons s scheds ih =>
    rw [List.map_cons, List.nodup_cons] at hids
    obtain ⟨rs, hrs, hmem, hserve⟩ := ih hids.2 fun s hs => hres s (List.mem_cons_of_mem _ hs)
    obtain ⟨rs₀, hrs₀, hmem₀, hserve₀⟩ :=
      (hres s List.mem_cons_self).placement.exists_task_tags (hnd.filter _)
    have hmem' : ∀ r, r ∈ rs₀ ↔ r.1.assignedCpu = s.cpuId ∧ r.1 ∈ a.ttTasks ∧
        r.1.periodUs ≠ 0 ∧ r.2 < repeats (hyperperiodOn a s.cpuId) r.1 := by
      intro r
      rw [hmem₀, mem_assignedTo, and_right_comm, and_comm]
      rfl
    refine ⟨rs₀ ++ rs, ?_, ?_, ?_⟩
    · rw [List.nodup_append']
      refine ⟨hrs₀, hrs, fun r hr hr' => ?_⟩
      exact hids.1 (((hmem' r).1 hr).1 ▸ ((hmem r).1 hr').1)
    · intro r
      rw [List.mem_append, hmem', hmem, List.map_cons, List.mem_cons]
      constructor
      · rintro (⟨hcpu, hrest⟩ | ⟨hcpu, hrest⟩)
        · exact ⟨Or.inl hcpu, hcpu ▸ hrest⟩
        · exact ⟨Or.inr hcpu, hrest⟩
      · rintro ⟨hcpu | hcpu, hrest⟩
        · exact Or.inl ⟨hcpu, hcpu ▸ hrest⟩
        · exact Or.inr ⟨hcpu, hrest⟩
    · refine List.rel_append ?_ (hserve.imp ?_)
      · refine List.forall₂_iff_zip.2 ⟨hserve₀.length_eq, fun {s' r} hz => ?_⟩
        have hr := (hmem' r).1 (List.of_mem_zip hz).2
        exact ⟨s, List.mem_cons_self, hr.1.symm, (List.of_mem_zip hz).1,
          List.forall₂_zip hserve₀ hz⟩
      · rintro s' r ⟨sched, hsched, hrest⟩
        exact ⟨sched, List.mem_cons_of_mem _ hsched, hrest⟩

/-! ### The grid of a task -/

/-- The ids of a task. -/
def idsOf (t : ClassifiedTask) : Text × Text := (t.workloadId, t.taskId)

section Task

variable [Floating U]

variable {G : GlobalScheduler U} {nodeId : Text} {tasks : List ClassifiedTask} {a : Assignment U}
  {allocated : List (PerCpuSchedule U)}

theorem Stages.nodup_ids (hst : Stages G nodeId tasks a allocated)
    (hids : (tasks.map idsOf).Nodup) : (a.ttTasks.map idsOf).Nodup := by
  rw [ttTasks_assignCpus hst.assign, List.map_map]
  exact hids.sublist (List.filter_sublist.map idsOf)

theorem hyperperiodOn_facts (hst : Stages G nodeId tasks a allocated) {t : ClassifiedTask}
    (ht : t ∈ a.ttTasks) (hT : t.periodUs ≠ 0) :
    (hyperperiodOn a t.assignedCpu).toNat = lcmPeriods (assignedTo t.assignedCpu a.ttTasks) ∧
      (hyperperiodOn a t.assignedCpu).toNat < 2 ^ 32 ∧
      t.assignedCpu ∈ allocated.map (·.cpuId) := by
  have hcpu : t.assignedCpu ∈ allocated.map (·.cpuId) := by
    rw [hst.cpuIds, mem_stdSet]
    rw [ttTasks_assignCpus hst.assign] at ht
    obtain ⟨t₀, -, rfl⟩ := List.mem_map.1 ht
    exact dedicatedCpu_mem (G.availableCpus_ne_nil nodeId) _ _
  obtain ⟨s, hs, hid⟩ := List.mem_map.1 hcpu
  have hharm := (hst.cpuResult s hs).harmonic
  rw [hid] at hharm
  obtain ⟨heq, t', -, hlcm⟩ := hyperperiod_facts (mem_assignedTo.2 ⟨ht, rfl⟩) hT hharm
  refine ⟨heq, ?_, hcpu⟩
  rw [hyperperiodOn, heq, ← hlcm]
  exact t'.periodUs.toNat_lt

omit [Floating U] in
theorem ServesOn.task_eq {s : TtSlotPlacement} {r : ClassifiedTask × ℕ} {t : ClassifiedTask}
    (h : ServesOn a allocated s r) (hnd : (a.ttTasks.map idsOf).Nodup) (hr : r.1 ∈ a.ttTasks)
    (ht : t ∈ a.ttTasks) (hs : s.workloadId = t.workloadId ∧ s.taskId = t.taskId) : r.1 = t := by
  obtain ⟨_, -, -, -, hin⟩ := h
  refine List.inj_on_of_nodup_map hnd hr ht ?_
  rw [hin.eq] at hs
  exact Prod.ext hs.1 hs.2

/-- Every slot with the ids of a task lies in a frame of the task, and every frame has one. -/
theorem Stages.exists_frame (hst : Stages G nodeId tasks a allocated)
    (hids : (tasks.map idsOf).Nodup) {slots : List TtSlot}
    (hslots : slots = (allocated.flatMap (·.ttSlots)).map ttSlotOf) {t : ClassifiedTask}
    (ht : t ∈ a.ttTasks) (hT : t.periodUs ≠ 0) :
    ∃ frame : Fin slots.length → ℕ,
      (∀ j, (slots.get j).workloadId = t.workloadId ∧ (slots.get j).taskId = t.taskId →
        frame j < repeats (hyperperiodOn a t.assignedCpu) t ∧
        ∃ s, slots.get j = ttSlotOf s ∧ ∃ sched ∈ allocated, sched.cpuId = t.assignedCpu ∧
          s ∈ sched.ttSlots ∧ InFrame sched.cpuId (hyperperiodOn a sched.cpuId) sched.ttSlots (t, frame j) s) ∧
      (∀ k < repeats (hyperperiodOn a t.assignedCpu) t, ∃ j,
        ((slots.get j).workloadId = t.workloadId ∧ (slots.get j).taskId = t.taskId) ∧
          frame j = k) ∧
      ∀ i j, (slots.get i).workloadId = t.workloadId ∧ (slots.get i).taskId = t.taskId →
        (slots.get j).workloadId = t.workloadId ∧ (slots.get j).taskId = t.taskId →
          frame i = frame j → i = j := by
  have hnd := hst.nodup_ids hids
  obtain ⟨-, -, hcpu⟩ := hyperperiodOn_facts hst ht hT
  obtain ⟨rs, hrs, hmem, hserve⟩ :=
    exists_tags_of_cpuResult hnd.of_map hst.nodup_cpuIds hst.cpuResult
  have hzip : List.Forall₂ (fun slot r => ∃ s, slot = ttSlotOf s ∧ ServesOn a allocated s r)
      slots rs := by
    rw [hslots, List.forall₂_map_left_iff]
    exact hserve.imp fun s r h => ⟨s, rfl, h⟩
  obtain ⟨tag, htag, hrange, hinj⟩ := exists_tag_of_forall₂ hzip
  -- the tag of a slot with the ids of the task names the task
  have htask : ∀ j, (slots.get j).workloadId = t.workloadId ∧ (slots.get j).taskId = t.taskId →
      (tag j).1 = t := by
    intro j hj
    obtain ⟨s, hs, hserves⟩ := htag j
    rw [hs] at hj
    exact hserves.task_eq hnd ((hmem _).1 ((hrange _).2 ⟨j, rfl⟩)).2.1 ht hj
  refine ⟨fun j => (tag j).2, fun j hj => ?_, fun k hk => ?_, fun i j hi hj hij => ?_⟩
  · obtain ⟨s, hs, sched, hsched, hid, hmem', hin⟩ := htag j
    have hr := (hmem _).1 ((hrange _).2 ⟨j, rfl⟩)
    rw [htask j hj] at hr hid
    exact ⟨hr.2.2.2, s, hs, sched, hsched, hid, hmem', htask j hj ▸ hin⟩
  · obtain ⟨j, hj⟩ := (hrange (t, k)).1 ((hmem (t, k)).2 ⟨hcpu, ht, hT, hk⟩)
    obtain ⟨s, hs, sched, -, -, -, hin⟩ := htag j
    rw [hj] at hin
    refine ⟨j, ?_, congrArg Prod.snd hj⟩
    rw [hs, hin.eq]
    exact ⟨rfl, rfl⟩
  · exact hinj hrs (Prod.ext ((htask i hi).trans (htask j hj).symm) hij)

/-- **The slots of a task form a grid** of one slot per period over the hyperperiod of its CPU, if
they do not wrap.  Slots of zero length start with the timeline, and before the end of their period
when that is their deadline. -/
theorem Stages.grid (hst : Stages G nodeId tasks a allocated) (hids : (tasks.map idsOf).Nodup)
    {slots : List TtSlot} (hslots : slots = (allocated.flatMap (·.ttSlots)).map ttSlotOf)
    {t : ClassifiedTask} (ht : t ∈ a.ttTasks) (hT : t.periodUs ≠ 0)
    (hD : t.deadlineUs ≤ t.periodUs)
    (hwrap : ∀ s ∈ slots, s.workloadId = t.workloadId ∧ s.taskId = t.taskId →
      s.offsetUs.toNat + t.wcetUs.toNat < 2 ^ 32) :
    ∃ slot : Fin slots.length → ℕ,
      Grid t.periodUs.toNat t.deadlineUs.toNat t.wcetUs.toNat
        (repeats (hyperperiodOn a t.assignedCpu) t)
        (fun j => (slots.get j).workloadId = t.workloadId ∧ (slots.get j).taskId = t.taskId)
        slot (fun j => (slots.get j).offsetUs.toNat) ∧
      ∀ j, (slots.get j).workloadId = t.workloadId ∧ (slots.get j).taskId = t.taskId →
        (t.wcetUs = 0 → slot j = 0 → (slots.get j).offsetUs.toNat = 0) ∧
        (t.wcetUs = 0 → t.deadlineUs = t.periodUs →
          (slots.get j).offsetUs.toNat < (slot j + 1) * t.periodUs.toNat) := by
  obtain ⟨-, hp32, -⟩ := hyperperiodOn_facts hst ht hT
  obtain ⟨frame, hown, hexists, hinj⟩ := hst.exists_frame hids hslots ht hT
  have hserves : ∀ j, (slots.get j).workloadId = t.workloadId ∧ (slots.get j).taskId = t.taskId →
      Serves (hyperperiodOn a t.assignedCpu).toNat t (frame j) (slots.get j) := by
    intro j hj
    obtain ⟨hk, s, hs, sched, -, hid, -, hin⟩ := hown j hj
    have hend := hwrap _ (slots.get_mem j) hj
    rw [hid] at hin
    rw [hs] at hend ⊢
    exact hin.serves hp32 hk hend
  refine ⟨frame, ?_, fun j hj => ⟨?_, ?_⟩⟩
  · exact
      { period_pos := Nat.pos_of_ne_zero fun h => hT (UInt32.toNat_inj.1 h)
        deadline_le := UInt32.le_iff_toNat_le.1 hD
        slot_lt := fun j hj => (hown j hj).1
        exists_slot := hexists
        slot_inj := hinj
        start_ge := fun j hj => (hserves j hj).start_le
        end_le := fun j hj => by
          rw [← (hserves j hj).duration]
          exact (hserves j hj).end_le.trans (Nat.min_le_left _ _) }
  · obtain ⟨-, s, hs, sched, -, -, -, hin⟩ := hown j hj
    intro h0 hk
    rw [hk] at hin
    rw [hs]
    exact hin.offset_zero h0
  · obtain ⟨hk, s, hs, sched, hsched, hid, -, hin⟩ := hown j hj
    intro h0 hDT
    rw [hs]
    refine (hst.cpuResult sched hsched).placement.offset_lt ?_ hin ?_ hT h0 hDT
    · rwa [← hid] at hp32
    · rwa [hid]

theorem Stages.slot_facts (hst : Stages G nodeId tasks a allocated)
    (hids : (tasks.map idsOf).Nodup) {slots : List TtSlot}
    (hslots : slots = (allocated.flatMap (·.ttSlots)).map ttSlotOf) {t : ClassifiedTask}
    (ht : t ∈ a.ttTasks) (hT : t.periodUs ≠ 0) {s : TtSlot} (hs : s ∈ slots)
    (hsids : s.workloadId = t.workloadId ∧ s.taskId = t.taskId) :
    s.durationUs = t.wcetUs ∧ s.offsetUs.toNat < 2 ^ 31 := by
  obtain ⟨frame, hown, -, -⟩ := hst.exists_frame hids hslots ht hT
  obtain ⟨j, rfl⟩ := List.mem_iff_get.1 hs
  obtain ⟨-, s, hs, _, -, -, -, hin⟩ := hown j hsids
  rw [hs]
  exact ⟨hin.duration, hin.lt⟩

end Task

section Main

variable [Floating U]

/-! ### The hyperperiod of the table -/

theorem periodsOf_map_onCpu (f : ClassifiedTask → ℤ) (ts : List ClassifiedTask) :
    periodsOf (ts.map fun t => t.onCpu (f t)) = periodsOf ts := by
  simp [periodsOf, List.filter_map, Function.comp_def, ClassifiedTask.onCpu]

theorem Stages.periodsOf_ttTasks {G : GlobalScheduler U} {nodeId : Text}
    {tasks : List ClassifiedTask} {a : Assignment U} {allocated : List (PerCpuSchedule U)}
    (hst : Stages G nodeId tasks a allocated) :
    periodsOf a.ttTasks = periodsOf (ttTasks tasks) := by
  rw [ttTasks_assignCpus hst.assign, periodsOf_map_onCpu]

omit [Floating U] in
theorem hyperperiodUs_buildTable (now : UInt64) (nodeId : Text)
    (allocated : List (PerCpuSchedule U)) {ts : List ClassifiedTask} (hne : periodsOf ts ≠ [])
    (h : lcmPeriods ts < 2 ^ 32) :
    (buildTable now nodeId allocated
      (calculateHyperperiod (periodsOf ts))).hyperperiodUs.toNat = lcmPeriods ts := by
  rw [buildTable, UInt64.toNat_toUInt32,
    calculateHyperperiod_toNat hne periodsOf_ne_zero (h.trans (by decide))]
  exact Nat.mod_eq_of_lt h

/-- The table carries the least common multiple of the periods: no product wraps, and nothing is cut
by the conversion to the 32-bit field. -/
structure HyperperiodExact (table : HierarchicalScheduleTable) (tasks : List ClassifiedTask) :
    Prop where
  eq_lcm : table.hyperperiodUs.toNat = lcmPeriods (ttTasks tasks)
  noWrap : NoWrap (periodsOf (ttTasks tasks))
  notCut : (calculateHyperperiod (periodsOf (ttTasks tasks))).toNat < 2 ^ 32

/-- **When the hyperperiod is exact.**  Harmonicity is checked for each CPU on its own, so the least
common multiple of all periods is not bounded by them. -/
theorem hyperperiodExact_iff (G : GlobalScheduler U) (now : UInt64) (nodeId : Text)
    (tasks : List ClassifiedTask) (table : HierarchicalScheduleTable)
    (h : G.generateSchedule now nodeId tasks = .ok table)
    (hperiod : ∃ t ∈ ttTasks tasks, t.periodUs ≠ 0) :
    HyperperiodExact table tasks ↔ lcmPeriods (ttTasks tasks) < 2 ^ 32 := by
  obtain ⟨t, ht, hT⟩ := hperiod
  have hne : tasks ≠ [] := List.ne_nil_of_mem (List.mem_filter.1 ht).1
  have hperiods : periodsOf (ttTasks tasks) ≠ [] :=
    List.ne_nil_of_mem (mem_periodsOf.2 ⟨t, ht, hT, rfl⟩)
  obtain ⟨a, allocated, hst, rfl⟩ := (generateSchedule_eq_ok hne).1 h
  rw [hst.periodsOf_ttTasks]
  constructor
  · intro hexact
    exact hexact.eq_lcm ▸ UInt32.toNat_lt _
  · intro hlcm
    have h64 : lcmPeriods (ttTasks tasks) < 2 ^ 64 := hlcm.trans (by decide)
    refine ⟨hyperperiodUs_buildTable now nodeId allocated hperiods hlcm,
      noWrap_of_lcm_lt periodsOf_ne_zero h64, ?_⟩
    rwa [calculateHyperperiod_toNat hperiods periodsOf_ne_zero h64]

/-- Two workloads with one task each, with periods of 10 and 15 ms. -/
def twoWorkloads : List ClassifiedTask :=
  [.periodic (text "a") (text "t") 10000 1000 10000, .periodic (text "b") (text "t") 15000 1000 15000]

/-- Two workloads on two CPUs whose periods, of about a tenth of a second, are coprime. -/
def coprimePeriods : List ClassifiedTask :=
  [.periodic (text "a") (text "t") 100003 1000 100003,
    .periodic (text "b") (text "t") 100019 1000 100019]

/-- The least common multiple of the periods is 10002200057, and the table carries it modulo
`2 ^ 32`. -/
theorem not_hyperperiodExact_coprime :
    ∃ table, unconfigured.generateSchedule 0 (text "n") coprimePeriods = .ok table ∧
      lcmPeriods (ttTasks coprimePeriods) = 10002200057 ∧ table.hyperperiodUs = 1412265465 ∧
      ¬ HyperperiodExact table coprimePeriods := by
  have hlcm : lcmPeriods (ttTasks coprimePeriods) = 10002200057 := by decide +kernel
  have hrun : (unconfigured.generateSchedule 0 (text "n") coprimePeriods).toOption.map
      (·.hyperperiodUs) = some 1412265465 := by decide +kernel
  cases h : unconfigured.generateSchedule 0 (text "n") coprimePeriods with
  | error => rw [h] at hrun; cases hrun
  | ok table =>
    rw [h] at hrun
    have hH : table.hyperperiodUs = 1412265465 := Option.some.inj hrun
    refine ⟨table, rfl, hlcm, hH, fun hexact => ?_⟩
    have := hexact.eq_lcm
    rw [hH, hlcm] at this
    exact absurd this (by decide)

/-- A common multiple of 30 ms fits. -/
theorem hyperperiodExact_iff_two_cpus :
    ∃ table, unconfigured.generateSchedule 0 (text "n") twoWorkloads = .ok table ∧
      (HyperperiodExact table twoWorkloads ↔ lcmPeriods (ttTasks twoWorkloads) < 2 ^ 32) := by
  have hok : (unconfigured.generateSchedule 0 (text "n") twoWorkloads).toOption.isSome = true := by
    decide +kernel
  cases h : unconfigured.generateSchedule 0 (text "n") twoWorkloads with
  | error e => rw [h] at hok; cases hok
  | ok table =>
    exact ⟨table, rfl, hyperperiodExact_iff _ _ _ _ table h
      ⟨.periodic (text "a") (text "t") 10000 1000 10000, by decide, by decide⟩⟩

/-! ### When the replay is right -/

/-- The hyperperiod of the CPU is that of the table, which is the least common multiple of the
periods of all TT tasks.  (A task of zero length whose deadline is its period has slots that lie in
two periods at once; it comes out right only with one slot that is repeated every second period.) -/
def HyperperiodsAgree (G : GlobalScheduler U) (nodeId : Text) (tasks : List ClassifiedTask)
    (cpu : ℤ) (t : ClassifiedTask) : Prop :=
  if t.wcetUs = 0 ∧ t.deadlineUs = t.periodUs then
    lcmPeriods (G.ttOn nodeId tasks cpu) = t.periodUs.toNat ∧
      lcmPeriods (ttTasks tasks) = 2 * t.periodUs.toNat
  else lcmPeriods (G.ttOn nodeId tasks cpu) = lcmPeriods (ttTasks tasks)

/-- The slots of the task end at its first deadline; a task with a runtime beyond `2 ^ 31` has one. -/
def EndsByDeadline (table : HierarchicalScheduleTable) (t : ClassifiedTask) : Prop :=
  ∀ s ∈ table.slots, s.workloadId = t.workloadId ∧ s.taskId = t.taskId →
    s.offsetUs.toNat + t.wcetUs.toNat ≤ t.deadlineUs.toNat

/-- The hyperperiods agree, and the slots with runtimes beyond `2 ^ 31` end in time.  If the field of
the table is too small for the hyperperiod, the releases are right until every slot has started, and
for as many periods more as the field says. -/
def ReplayRight (G : GlobalScheduler U) (nodeId : Text) (tasks : List ClassifiedTask)
    (table : HierarchicalScheduleTable) : Prop :=
  ∀ cpu, ∀ t ∈ G.ttOn nodeId tasks cpu, t.periodUs ≠ 0 → t.deadlineUs ≤ t.periodUs →
    if lcmPeriods (ttTasks tasks) < 2 ^ 32 then
      (2 ^ 31 < t.wcetUs.toNat → EndsByDeadline table t) ∧ G.HyperperiodsAgree nodeId tasks cpu t
    else ∀ n < 2 ^ 31 + table.hyperperiodUs.toNat, ∃! i, FiresIn table t n i

theorem lcmPeriods_dvd {ts ts' : List ClassifiedTask} (h : ts ⊆ ts') :
    lcmPeriods ts ∣ lcmPeriods ts' := by
  refine Multiset.lcm_dvd.2 fun p hp => Multiset.dvd_lcm ?_
  rw [Multiset.mem_coe, List.mem_map] at hp ⊢
  obtain ⟨q, hq, rfl⟩ := hp
  obtain ⟨t, ht, hrest⟩ := mem_periodsOf.1 hq
  exact ⟨q, mem_periodsOf.2 ⟨t, h ht, hrest⟩, rfl⟩

section OneTask

variable {G : GlobalScheduler U} {now : UInt64} {nodeId : Text} {tasks : List ClassifiedTask}
  {a : Assignment U} {allocated : List (PerCpuSchedule U)} {table : HierarchicalScheduleTable}
  {t : ClassifiedTask}

theorem Stages.firesIn_iff_inWindow (hst : Stages G nodeId tasks a allocated)
    (hslots : table.slots = (allocated.flatMap (·.ttSlots)).map ttSlotOf)
    (hids : (tasks.map idsOf).Nodup) (ht : t ∈ a.ttTasks) (hT : t.periodUs ≠ 0) {n : ℕ}
    {i : Fin table.slots.length × ℕ} :
    FiresIn table t n i ↔ Grid.InWindow t.periodUs.toNat t.deadlineUs.toNat t.wcetUs.toNat
      table.hyperperiodUs.toNat (fun j => (table.slots.get j).workloadId = t.workloadId ∧
        (table.slots.get j).taskId = t.taskId) (fun j => (table.slots.get j).offsetUs.toNat) n i := by
  refine and_congr_right fun hi => ?_
  rw [(hst.slot_facts hids hslots ht hT (table.slots.get_mem i.1) hi).1]

theorem Stages.endsByDeadline (hst : Stages G nodeId tasks a allocated)
    (hslots : table.slots = (allocated.flatMap (·.ttSlots)).map ttSlotOf)
    (hids : (tasks.map idsOf).Nodup) (ht : t ∈ a.ttTasks) (hT : t.periodUs ≠ 0)
    (hD : t.deadlineUs ≤ t.periodUs) (hlong : 2 ^ 31 < t.wcetUs.toNat)
    {i : Fin table.slots.length × ℕ} (hi : FiresIn table t 0 i) : EndsByDeadline table t := by
  obtain ⟨hi, -, hend⟩ := (hst.firesIn_iff_inWindow hslots hids ht hT).1 hi
  dsimp only at hend
  rw [UInt32.le_iff_toNat_le] at hD
  obtain ⟨-, hp32, -⟩ := hyperperiodOn_facts hst ht hT
  obtain ⟨frame, hown, -, hinj⟩ := hst.exists_frame hids hslots ht hT
  have hframe : ∀ j, (table.slots.get j).workloadId = t.workloadId ∧
      (table.slots.get j).taskId = t.taskId → frame j = 0 := by
    intro j hj
    have hle := succ_mul_period_le (hown j hj).1
    by_contra hne
    have : 2 * t.periodUs.toNat ≤ (frame j + 1) * t.periodUs.toNat :=
      Nat.mul_le_mul_right _ (by omega)
    omega
  intro s hs hsids
  obtain ⟨j, rfl⟩ := List.mem_iff_get.1 hs
  obtain rfl : j = i.1 := hinj j i.1 hsids hi ((hframe j hsids).trans (hframe i.1 hi).symm)
  omega

theorem Stages.firesIn_iff (hst : Stages G nodeId tasks a allocated)
    (htable : table = buildTable now nodeId allocated (calculateHyperperiod (periodsOf a.ttTasks)))
    (hids : (tasks.map idsOf).Nodup) (hlcm : lcmPeriods (ttTasks tasks) < 2 ^ 32)
    (ht : t ∈ a.ttTasks) (hT : t.periodUs ≠ 0) (hD : t.deadlineUs ≤ t.periodUs)
    (hend : 2 ^ 31 < t.wcetUs.toNat → EndsByDeadline table t) :
    (∀ n, ∃! i, FiresIn table t n i) ↔ G.HyperperiodsAgree nodeId tasks t.assignedCpu t := by
  have hslots := htable ▸ slots_buildTable now nodeId allocated _
  have hperiods := hst.periodsOf_ttTasks
  have hL : lcmPeriods a.ttTasks = lcmPeriods (ttTasks tasks) := by
    rw [lcmPeriods, hperiods, lcmPeriods]
  have hH : table.hyperperiodUs.toNat = lcmPeriods (ttTasks tasks) := by
    rw [htable, hyperperiodUs_buildTable now nodeId allocated
      (List.ne_nil_of_mem (mem_periodsOf.2 ⟨t, ht, hT, rfl⟩)) (hL ▸ hlcm), hL]
  have hwrap : ∀ s ∈ table.slots, s.workloadId = t.workloadId ∧ s.taskId = t.taskId →
      s.offsetUs.toNat + t.wcetUs.toNat < 2 ^ 32 := by
    intro s hs hsids
    have hlt := (hst.slot_facts hids hslots ht hT hs hsids).2
    have hd := t.deadlineUs.toNat_lt
    by_cases hlong : 2 ^ 31 < t.wcetUs.toNat
    · exact (hend hlong s hs hsids).trans_lt hd
    · omega
  obtain ⟨slot, hgrid, hslot⟩ := hst.grid hids hslots ht hT hD hwrap
  set T := t.periodUs.toNat with hTdef
  have hTpos := hgrid.period_pos
  -- both hyperperiods are multiples of the period
  obtain ⟨hhp, -, -⟩ := hyperperiodOn_facts hst ht hT
  obtain ⟨q, hq⟩ := dvd_lcmPeriods (mem_assignedTo.2 ⟨ht, rfl⟩) hT
  obtain ⟨R, hR⟩ := hL ▸ dvd_lcmPeriods ht hT
  have hrep : repeats (hyperperiodOn a t.assignedCpu) t = q := by
    rw [repeats, UInt64.toNat_div, hhp, UInt32.toNat_toUInt64, hq, Nat.mul_div_cancel_left _ hTpos]
  rw [hrep] at hgrid
  have hqpos : 0 < q := Nat.pos_of_ne_zero fun h => lcmPeriods_ne_zero _ (by rw [hq, h]; rfl)
  have hRpos : 0 < R := Nat.pos_of_ne_zero fun h => lcmPeriods_ne_zero _ (by rw [hR, h]; rfl)
  have hdvd : q ∣ R := by
    have : lcmPeriods (assignedTo t.assignedCpu a.ttTasks) ∣ lcmPeriods a.ttTasks :=
      lcmPeriods_dvd fun _ h => (mem_assignedTo.1 h).1
    rw [hL, hR, hq] at this
    exact Nat.dvd_of_mul_dvd_mul_left hTpos this
  have hz : t.wcetUs = 0 ↔ t.wcetUs.toNat = 0 := UInt32.toNat_inj.symm
  have hDT : t.deadlineUs = t.periodUs ↔ t.deadlineUs.toNat = T := UInt32.toNat_inj.symm
  simp only [hst.firesIn_iff_inWindow hslots hids ht hT]
  unfold HyperperiodsAgree
  rw [hst.ttOn, hH, hR, Nat.mul_comm T R, hgrid.existsUnique_iff hqpos hRpos hdvd
    (fun h0 _ j hj => (hslot j hj).1 (hz.2 h0))
    (fun h0 hd j hj => (hslot j hj).2 (hz.2 h0) (hDT.2 hd)), hq, Nat.mul_comm R T]
  by_cases hpoint : t.wcetUs = 0 ∧ t.deadlineUs = t.periodUs
  · rw [if_pos hpoint, if_pos ⟨hz.1 hpoint.1, hDT.1 hpoint.2⟩, Nat.mul_comm 2,
      Nat.mul_right_inj hTpos.ne', Nat.mul_eq_left hTpos.ne']
  · rw [if_neg hpoint, if_neg fun h => hpoint ⟨hz.2 h.1, hDT.2 h.2⟩, Nat.mul_right_inj hTpos.ne']

theorem Stages.firesIn_iff_of_lt (hst : Stages G nodeId tasks a allocated)
    (hslots : table.slots = (allocated.flatMap (·.ttSlots)).map ttSlotOf)
    (hids : (tasks.map idsOf).Nodup) (ht : t ∈ a.ttTasks) (hT : t.periodUs ≠ 0) :
    (∀ n, ∃! i, FiresIn table t n i) ↔
      ∀ n < 2 ^ 31 + table.hyperperiodUs.toNat, ∃! i, FiresIn table t n i := by
  refine ⟨fun h n _ => h n, fun h => ?_⟩
  have hTpos : 0 < t.periodUs.toNat := Nat.pos_of_ne_zero fun h => hT (UInt32.toNat_inj.1 h)
  simp only [hst.firesIn_iff_inWindow hslots hids ht hT] at h ⊢
  refine Grid.existsUnique_of_lt (fun j hj => ?_) ?_ h
  · have hlt := (hst.slot_facts hids hslots ht hT (table.slots.get_mem j) hj).2
    exact hlt.le.trans (Nat.le_mul_of_pos_right _ hTpos)
  · -- with a hyperperiod of zero all replays of a slot are alike
    by_contra hzero
    obtain ⟨⟨j, m⟩, hi, huniq⟩ := h 0 (by omega)
    have hsame := huniq (j, m + 1) (by simpa [Grid.InWindow, Nat.eq_zero_of_not_pos hzero] using hi)
    simp at hsame

theorem Packable.endsByDeadline (hst : Stages G nodeId tasks a allocated)
    (hslots : table.slots = (allocated.flatMap (·.ttSlots)).map ttSlotOf)
    (hids : (tasks.map idsOf).Nodup)
    (hpackable : Packable G (G.ttOn nodeId tasks t.assignedCpu)) (ht : t ∈ a.ttTasks)
    (hT : t.periodUs ≠ 0) (hlong : 2 ^ 31 < t.wcetUs.toNat) : EndsByDeadline table t := by
  intro s hs hsids
  obtain ⟨hhp, hp32, -⟩ := hyperperiodOn_facts hst ht hT
  obtain ⟨frame, hown, -, -⟩ := hst.exists_frame hids hslots ht hT
  obtain ⟨j, rfl⟩ := List.mem_iff_get.1 hs
  obtain ⟨hk, s, hs, sched, hsched, hid, hmem, hin⟩ := hown j hsids
  -- the slot was placed on its CPU
  obtain ⟨s₀, hs₀, s₁, h₁, h₂⟩ := exists_of_forall₂_right hst.origin hsched
  have hblank := (blank_assignCpus hst.assign).ttSlots s₀ hs₀
  obtain ⟨hid₂, htt, -⟩ := allocateOnCpu_eq_ok h₂
  have hid₀ : s₀.cpuId = t.assignedCpu := by
    rw [← hid, hid₂, (placeOnCpu_eq_ok h₁ hblank).1]
  have hend := (Packable.end_le_placeOnCpu (by rwa [← hst.ttOn, hid₀]) h₁ hblank s (htt ▸ hmem))
  rw [hid₀, hin.duration] at hend
  have hzero : frame j = 0 := by
    refine hpackable.eq_zero_of_long (by rw [hst.ttOn]; exact hend.2)
      (by rw [hst.ttOn]; exact mem_assignedTo.2 ⟨ht, rfl⟩) hT ?_ hlong
    rwa [hst.ttOn, ← hhp, ← UInt32.toNat_toUInt64, ← UInt64.toNat_div]
  rw [hid] at hin
  have hserves := (hin.serves hp32 hk (hend.1.trans_lt hend.2)).end_le
  rw [hzero, Nat.zero_mul, Nat.zero_add] at hserves
  rw [hs, ← hin.duration]
  exact hserves.trans (Nat.min_le_left _ _)

/-- **The tasks of a CPU are packable iff its long tasks end in time.** -/
theorem Stages.packable_iff (hst : Stages G nodeId tasks a allocated)
    (hslots : table.slots = (allocated.flatMap (·.ttSlots)).map ttSlotOf)
    (hids : (tasks.map idsOf).Nodup) {cpu : ℤ} (hcpu : cpu ∈ G.availableCpus nodeId) :
    Packable G (G.ttOn nodeId tasks cpu) ↔ ∀ t ∈ G.ttOn nodeId tasks cpu, t.periodUs ≠ 0 →
      2 ^ 31 < t.wcetUs.toNat → EndsByDeadline table t := by
  constructor
  · intro hpackable t ht hT hlong
    rw [hst.ttOn] at ht
    obtain ⟨hmem, rfl⟩ := mem_assignedTo.1 ht
    exact hpackable.endsByDeadline hst hslots hids hmem hT hlong
  · intro hends
    obtain ⟨s₀, hs₀, rfl⟩ := hst.exists_cpuSchedule.1 hcpu
    obtain ⟨s₂, hs₂, s₁, h₁, h₂⟩ := exists_of_forall₂_left hst.origin hs₀
    obtain ⟨-, htt, -⟩ := allocateOnCpu_eq_ok h₂
    rw [hst.ttOn] at hends ⊢
    rcases placeOnCpu_cases h₁ with ⟨hnil, -⟩ | ⟨hharm, h₁⟩
    · rw [hnil]
      exact packable_nil
    · refine packable_of_end_lt hharm h₁ ((blank_assignCpus hst.assign).ttSlots s₀ hs₀)
        fun t ht hT c hc hmem => ?_
      by_cases hlong : 2 ^ 31 < t.wcetUs.toNat
      · have hslot : ttSlotOf (slotAt s₀.cpuId t c) ∈ table.slots := by
          rw [hslots]
          exact List.mem_map_of_mem (List.mem_flatMap.2 ⟨s₂, hs₂, htt ▸ hmem⟩)
        have := t.deadlineUs.toNat_lt
        exact (hends t ht hT hlong _ hslot ⟨rfl, rfl⟩).trans_lt this
      · omega

end OneTask

/-- A task with a runtime beyond `2 ^ 31`, alone on its CPU. -/
def longRuntime : List ClassifiedTask :=
  [.periodic (text "w") (text "t") 4294967295 2147483649 4294967295]

end Main

end GlobalScheduler

end Timpani
