import Timpani.Scheduler.Generate
import Mathlib

/-!
# Valid time-triggered schedules

What the TT slots of a CPU are for, stated over the unbounded integers: each slot is a stretch of
the timeline, stretches do not overlap, and each *release* of a task — an entry of the task list
and a number `k`, for its `k`-th period in the hyperperiod — is served by one slot between the
start of the period and the deadline.

* `ValidSlots` : this specification;
* `Placement.exists_tags` : the slots of a placement, tagged with the releases they serve;
* `generateSchedule_validSlots` : every CPU of a generated table meets the specification.
-/

namespace Timpani

/-- The stretch `[offset_us, offset_us + duration_us)` of the timeline. -/
def TtSlot.span (s : TtSlot) : Set ℕ :=
  Set.Ico s.offsetUs.toNat (s.offsetUs.toNat + s.durationUs.toNat)

/-- The releases of the tasks within a hyperperiod. -/
abbrev Release (hp : ℕ) (ts : List ClassifiedTask) : Type :=
  {r : Fin ts.length × ℕ //
    (ts.get r.1).periodUs ≠ 0 ∧ r.2 < hp / (ts.get r.1).periodUs.toNat}

/-- The slot serves the `k`-th release of the task. -/
structure Serves (hp : ℕ) (t : ClassifiedTask) (k : ℕ) (s : TtSlot) : Prop where
  workloadId : s.workloadId = t.workloadId
  taskId : s.taskId = t.taskId
  duration : s.durationUs = t.wcetUs
  start_le : k * t.periodUs.toNat ≤ s.offsetUs.toNat
  end_le : s.offsetUs.toNat + s.durationUs.toNat ≤ min (k * t.periodUs.toNat + t.deadlineUs.toNat) hp

/-- The slots of a CPU that runs the TT tasks `ts`, over the hyperperiod `hp`. -/
structure ValidSlots (hp : ℕ) (ts : List ClassifiedTask) (slots : List TtSlot) : Prop where
  sorted : slots.Pairwise fun a b => a.offsetUs.toNat ≤ b.offsetUs.toNat
  disjoint : slots.Pairwise fun a b => Disjoint a.span b.span
  releases : ∃ e : Fin slots.length ≃ Release hp ts,
    ∀ j, Serves hp (ts.get (e j).1.1) (e j).1.2 (slots.get j)

namespace GlobalScheduler

/-! ### Tags -/

/-- The releases of the task entries `idxs`, in the order the loops go through them. -/
def tags (hp : UInt64) (ts : List ClassifiedTask) (idxs : List (Fin ts.length)) :
    List (Fin ts.length × ℕ) :=
  idxs.flatMap fun i =>
    if (ts.get i).periodUs = 0 then [] else (List.range (repeats hp (ts.get i))).map (i, ·)

theorem map_tags (hp : UInt64) (ts : List ClassifiedTask) (idxs : List (Fin ts.length)) :
    (tags hp ts idxs).map (fun r => (ts.get r.1, r.2)) = frames hp (idxs.map ts.get) := by
  rw [tags, frames, List.map_flatMap, List.flatMap_map]
  congr 1
  funext i
  split_ifs <;> simp

theorem mem_tags {hp : UInt64} {ts : List ClassifiedTask} {idxs : List (Fin ts.length)}
    {r : Fin ts.length × ℕ} :
    r ∈ tags hp ts idxs ↔
      r.1 ∈ idxs ∧ (ts.get r.1).periodUs ≠ 0 ∧ r.2 < repeats hp (ts.get r.1) := by
  rw [tags, List.mem_flatMap]
  constructor
  · rintro ⟨i, hi, hr⟩
    split_ifs at hr with h0
    · cases hr
    · obtain ⟨k, hk, rfl⟩ := List.mem_map.1 hr
      exact ⟨hi, h0, List.mem_range.1 hk⟩
  · rintro ⟨hi, h0, hk⟩
    refine ⟨r.1, hi, ?_⟩
    rw [if_neg h0]
    exact List.mem_map.2 ⟨r.2, List.mem_range.2 hk, rfl⟩

theorem nodup_tags {hp : UInt64} {ts : List ClassifiedTask} {idxs : List (Fin ts.length)}
    (h : idxs.Nodup) : (tags hp ts idxs).Nodup := by
  refine List.nodup_flatMap.2 ⟨fun i _ => ?_, h.imp fun {i j} hij => ?_⟩
  · split_ifs
    · exact List.nodup_nil
    · exact (List.nodup_range).map fun _ _ heq => (Prod.mk.inj heq).2
  · intro r hi hj
    have fst : ∀ {i}, r ∈ (if (ts.get i).periodUs = 0 then []
        else (List.range (repeats hp (ts.get i))).map (i, ·)) → r.1 = i := by
      intro i hr
      split_ifs at hr
      · cases hr
      · obtain ⟨_, -, rfl⟩ := List.mem_map.1 hr
        rfl
    exact hij ((fst hi).symm.trans (fst hj))

/-- **Each slot of a placement serves one release, and each release is served by one slot.** -/
theorem Placement.exists_tags {cpu : ℤ} {hp : UInt64} {ts : List ClassifiedTask}
    {slots : List TtSlotPlacement} (h : Placement cpu hp ts slots) :
    ∃ rs : List (Fin ts.length × ℕ), rs.Nodup ∧
      (∀ r, r ∈ rs ↔ (ts.get r.1).periodUs ≠ 0 ∧ r.2 < repeats hp (ts.get r.1)) ∧
      List.Forall₂ (fun s r => InFrame cpu hp slots (ts.get r.1, r.2) s) slots rs := by
  obtain ⟨order, placed, horder, hplaced, hframes⟩ := h.frames
  -- the order of the tasks is an order of their indices
  obtain ⟨idxs, rfl, hidxs⟩ : ∃ idxs : List (Fin ts.length),
      order = idxs.map ts.get ∧ idxs.Perm (List.finRange ts.length) := by
    have := congrFun (congrFun (List.eq_map_comp_perm ts.get) order) (List.finRange ts.length)
    rw [List.map_get_finRange] at this
    exact this.mpr horder
  rw [← map_tags, List.forall₂_map_left_iff] at hframes
  obtain ⟨rs, hrs, hperm⟩ := List.perm_comp_forall₂ hplaced hframes.flip
  refine ⟨rs, hperm.nodup_iff.2 (nodup_tags (hidxs.nodup_iff.2 (List.nodup_finRange _))), ?_, hrs⟩
  intro r
  rw [hperm.mem_iff, mem_tags, hidxs.mem_iff]
  simp

theorem Placement.exists_task_tags {cpu : ℤ} {hp : UInt64} {ts : List ClassifiedTask}
    {slots : List TtSlotPlacement} (h : Placement cpu hp ts slots) (hnd : ts.Nodup) :
    ∃ rs : List (ClassifiedTask × ℕ), rs.Nodup ∧
      (∀ r, r ∈ rs ↔ r.1 ∈ ts ∧ r.1.periodUs ≠ 0 ∧ r.2 < repeats hp r.1) ∧
      List.Forall₂ (fun s r => InFrame cpu hp slots r s) slots rs := by
  obtain ⟨rs, hrs, hmem, hframes⟩ := h.exists_tags
  refine ⟨rs.map (fun r => (ts.get r.1, r.2)), hrs.map fun r r' heq => ?_, ?_,
    List.forall₂_map_right_iff.2 hframes⟩
  · obtain ⟨h₁, h₂⟩ := Prod.mk.inj heq
    exact Prod.ext (hnd.injective_get h₁) h₂
  · rintro ⟨t, k⟩
    rw [List.mem_map]
    constructor
    · rintro ⟨r, hr, heq⟩
      cases heq
      exact ⟨ts.get_mem r.1, (hmem r).1 hr⟩
    · rintro ⟨ht, hrest⟩
      obtain ⟨i, rfl⟩ := List.mem_iff_get.1 ht
      exact ⟨(i, k), (hmem (i, k)).2 hrest, rfl⟩

/-! ### The 32-bit arithmetic of the placement does not wrap -/

section Arithmetic

variable {cpu : ℤ} {hp : UInt64} {slots : List TtSlotPlacement} {t : ClassifiedTask} {k : ℕ}

theorem succ_mul_period_le (hk : k < repeats hp t) : (k + 1) * t.periodUs.toNat ≤ hp.toNat := by
  rw [repeats, UInt64.toNat_div, UInt32.toNat_toUInt64] at hk
  exact (Nat.mul_le_mul_right _ hk).trans (Nat.div_mul_le_self _ _)

theorem frameStart_toNat (hhp : hp.toNat < 2 ^ 32) (hk : k < repeats hp t) :
    (frameStart t k).toNat = k * t.periodUs.toNat := by
  have hle := succ_mul_period_le hk
  rw [Nat.succ_mul] at hle
  have hk64 : k < 2 ^ 64 := by
    rw [repeats, UInt64.toNat_div] at hk
    have := (Nat.div_le_self hp.toNat t.periodUs.toUInt64.toNat)
    omega
  rw [frameStart, UInt64.toNat_toUInt32, UInt64.toNat_mul, UInt64.toNat_ofNat_of_lt' hk64,
    UInt32.toNat_toUInt64]
  generalize k * t.periodUs.toNat = x at hle ⊢
  omega

theorem frameEnd_toNat (hhp : hp.toNat < 2 ^ 32) (hk : k < repeats hp t)
    (hend : k * t.periodUs.toNat + t.deadlineUs.toNat < 2 ^ 32) :
    (frameEnd hp t k).toNat = min (k * t.periodUs.toNat + t.deadlineUs.toNat) hp.toNat := by
  have hsum : (frameStart t k + t.deadlineUs).toNat
      = k * t.periodUs.toNat + t.deadlineUs.toNat := by
    rw [UInt32.toNat_add, frameStart_toNat hhp hk, Nat.mod_eq_of_lt hend]
  unfold frameEnd
  dsimp only
  split_ifs with hgt
  · rw [gt_iff_lt, UInt64.lt_iff_toNat_lt, UInt32.toNat_toUInt64, hsum] at hgt
    rw [UInt64.toNat_toUInt32, Nat.mod_eq_of_lt hhp, Nat.min_eq_right hgt.le]
  · rw [gt_iff_lt, UInt64.lt_iff_toNat_lt, UInt32.toNat_toUInt64, hsum, not_lt] at hgt
    rw [hsum, Nat.min_eq_left hgt]

theorem InFrame.duration {s : TtSlotPlacement} (h : InFrame cpu hp slots (t, k) s) :
    s.durationUs = t.wcetUs := by
  rw [h.eq]
  rfl

theorem InFrame.noWrap {s : TtSlotPlacement} (h : InFrame cpu hp slots (t, k) s)
    (hw : t.wcetUs.toNat ≤ 2 ^ 31) : s.offsetUs.toNat + t.wcetUs.toNat < 2 ^ 32 := by
  have := h.lt
  omega

theorem InFrame.end_toNat {s : TtSlotPlacement} (h : InFrame cpu hp slots (t, k) s)
    (hwrap : s.offsetUs.toNat + t.wcetUs.toNat < 2 ^ 32) :
    (s.offsetUs + s.durationUs).toNat = s.offsetUs.toNat + s.durationUs.toNat := by
  rw [UInt32.toNat_add, h.duration, Nat.mod_eq_of_lt hwrap]

/-- The deadline of a frame that has a slot does not wrap: a wrapped one would lie before the start
of the frame. -/
theorem deadline_lt_of_end_le {c : UInt32} (hhp : hp.toNat < 2 ^ 32) (hk : k < repeats hp t)
    (hwrap : c.toNat + t.wcetUs.toNat < 2 ^ 32) (hstart : frameStart t k ≤ c)
    (hend : c + t.wcetUs ≤ frameEnd hp t k) :
    k * t.periodUs.toNat + t.deadlineUs.toNat < 2 ^ 32 := by
  by_contra hge
  have hle := succ_mul_period_le hk
  rw [Nat.succ_mul] at hle
  rw [UInt32.le_iff_toNat_le, frameStart_toNat hhp hk] at hstart
  rw [UInt32.le_iff_toNat_le, UInt32.toNat_add, frameEnd] at hend
  have hd := t.deadlineUs.toNat_lt
  have hsum : (frameStart t k + t.deadlineUs).toNat
      = k * t.periodUs.toNat + t.deadlineUs.toNat - 2 ^ 32 := by
    rw [UInt32.toNat_add, frameStart_toNat hhp hk]
    omega
  have hcut : ¬ (frameStart t k + t.deadlineUs).toUInt64 > hp := by
    rw [gt_iff_lt, UInt64.lt_iff_toNat_lt, UInt32.toNat_toUInt64, hsum]
    omega
  rw [if_neg hcut, hsum] at hend
  omega

theorem InFrame.deadline_lt {s : TtSlotPlacement} (h : InFrame cpu hp slots (t, k) s)
    (hhp : hp.toNat < 2 ^ 32) (hk : k < repeats hp t)
    (hwrap : s.offsetUs.toNat + t.wcetUs.toNat < 2 ^ 32) :
    k * t.periodUs.toNat + t.deadlineUs.toNat < 2 ^ 32 :=
  deadline_lt_of_end_le hhp hk hwrap h.start_le h.end_le

theorem InFrame.serves {s : TtSlotPlacement} (h : InFrame cpu hp slots (t, k) s)
    (hhp : hp.toNat < 2 ^ 32) (hk : k < repeats hp t)
    (hwrap : s.offsetUs.toNat + t.wcetUs.toNat < 2 ^ 32) : Serves hp.toNat t k (ttSlotOf s) where
  workloadId := by rw [h.eq]; rfl
  taskId := by rw [h.eq]; rfl
  duration := h.duration
  start_le := by
    rw [← frameStart_toNat hhp hk]
    exact UInt32.le_iff_toNat_le.1 h.start_le
  end_le := by
    have hle := UInt32.le_iff_toNat_le.1 h.end_le
    dsimp only at hle
    rwa [frameEnd_toNat hhp hk (h.deadline_lt hhp hk hwrap), ← h.duration, h.end_toNat hwrap] at hle

theorem Apart.disjoint_span {a b : TtSlotPlacement} (h : Apart a b)
    (ha : (a.offsetUs + a.durationUs).toNat = a.offsetUs.toNat + a.durationUs.toNat)
    (hb : (b.offsetUs + b.durationUs).toNat = b.offsetUs.toNat + b.durationUs.toNat) :
    Disjoint (ttSlotOf a).span (ttSlotOf b).span := by
  rw [Apart, UInt32.lt_iff_toNat_lt, UInt32.lt_iff_toNat_lt, ha, hb] at h
  rw [TtSlot.span, TtSlot.span, Set.Ico_disjoint_Ico]
  simp only [ttSlotOf]
  omega

end Arithmetic

/-! ### Validity -/

variable {U : Type} [Floating U]

/-- The TT tasks the scheduler assigns to a CPU. -/
def ttOn (G : GlobalScheduler U) (nodeId : Text) (tasks : List ClassifiedTask) (cpu : ℤ) :
    List ClassifiedTask :=
  match G.assignCpus nodeId (ttTasks tasks) (cbsTasks tasks) with
  | .ok a => assignedTo cpu a.ttTasks
  | .error _ => []

theorem Stages.ttOn {G : GlobalScheduler U} {nodeId : Text} {tasks : List ClassifiedTask}
    {a : Assignment U} {allocated : List (PerCpuSchedule U)}
    (h : Stages G nodeId tasks a allocated) (cpu : ℤ) :
    G.ttOn nodeId tasks cpu = assignedTo cpu a.ttTasks := by
  rw [GlobalScheduler.ttOn, h.assign]

section

variable {G : GlobalScheduler U} {nodeId : Text} {tasks : List ClassifiedTask} {cpu : ℤ}
  {t : ClassifiedTask}

theorem exists_of_mem_ttOn (ht : t ∈ G.ttOn nodeId tasks cpu) :
    ∃ t₀ ∈ ttTasks tasks, t = t₀.onCpu cpu ∧ cpu ∈ G.availableCpus nodeId := by
  unfold ttOn at ht
  cases ha : G.assignCpus nodeId (ttTasks tasks) (cbsTasks tasks) with
  | error => rw [ha] at ht; cases ht
  | ok a =>
    rw [ha] at ht
    dsimp only at ht
    rw [mem_assignedTo, ttTasks_assignCpus ha] at ht
    obtain ⟨hmem, rfl⟩ := ht
    obtain ⟨t₀, ht₀, rfl⟩ := List.mem_map.1 hmem
    exact ⟨t₀, ht₀, rfl, dedicatedCpu_mem (G.availableCpus_ne_nil nodeId) _ _⟩

theorem mem_ttOn (ht : t ∈ G.ttOn nodeId tasks cpu) :
    ∃ t₀ ∈ tasks, t₀.mechanism = .tt ∧ t = t₀.onCpu cpu := by
  obtain ⟨t₀, ht₀, rfl, -⟩ := exists_of_mem_ttOn ht
  obtain ⟨hin, htt⟩ := List.mem_filter.1 ht₀
  exact ⟨t₀, hin, of_decide_eq_true htt, rfl⟩

end

/-- The fields of the task fit into a non-negative `int32`. -/
def Fits (t : ClassifiedTask) : Prop :=
  t.periodUs.toNat < 2 ^ 31 ∧ t.wcetUs.toNat < 2 ^ 31 ∧ t.deadlineUs.toNat < 2 ^ 31

instance (t : ClassifiedTask) : Decidable (Fits t) := inferInstanceAs (Decidable (_ ∧ _))

theorem hyperperiod_facts {ts : List ClassifiedTask} {t : ClassifiedTask} (ht : t ∈ ts)
    (h0 : t.periodUs ≠ 0) (hharm : validateHarmonic (periodsOf ts) = true) :
    (calculateHyperperiod (periodsOf ts)).toNat = lcmPeriods ts ∧
      ∃ t' ∈ ts, t'.periodUs.toNat = lcmPeriods ts := by
  have hne : periodsOf ts ≠ [] := List.ne_nil_of_mem (mem_periodsOf.2 ⟨t, ht, h0, rfl⟩)
  obtain ⟨heq, hmem⟩ := calculateHyperperiod_of_validateHarmonic hne periodsOf_ne_zero hharm
  obtain ⟨t', ht', -, hp⟩ := mem_periodsOf.1 hmem
  refine ⟨heq, t', ht', ?_⟩
  rw [lcmPeriods, ← heq, ← hp, UInt32.toNat_toUInt64]

/-- **A placement is valid** when the fields of its tasks fit. -/
theorem Placement.validSlots {cpu : ℤ} {ts : List ClassifiedTask} {slots : List TtSlotPlacement}
    (h : Placement cpu (calculateHyperperiod (periodsOf ts)) ts slots)
    (hharm : validateHarmonic (periodsOf ts) = true) (hfit : ∀ t ∈ ts, Fits t) :
    ValidSlots (lcmPeriods ts) ts (slots.map ttSlotOf) := by
  obtain ⟨rs, hnd, hmem, hframes⟩ := h.exists_tags
  have hserve : ∀ {r s}, r ∈ rs → InFrame cpu (calculateHyperperiod (periodsOf ts)) slots
      (ts.get r.1, r.2) s → Serves (lcmPeriods ts) (ts.get r.1) r.2 (ttSlotOf s) := by
    intro r s hr hin
    obtain ⟨h0, hk⟩ := (hmem r).1 hr
    obtain ⟨heq, t', ht', hlcm⟩ := hyperperiod_facts (ts.get_mem r.1) h0 hharm
    have hhp := (hfit t' ht').1
    rw [← heq]
    exact hin.serves (by omega) hk (hin.noWrap (hfit _ (ts.get_mem r.1)).2.1.le)
  have hend : ∀ s ∈ slots,
      (s.offsetUs + s.durationUs).toNat = s.offsetUs.toNat + s.durationUs.toNat := by
    intro s hs
    obtain ⟨r, hr, hin⟩ := exists_of_forall₂_left hframes hs
    exact hin.end_toNat (hin.noWrap (hfit _ (ts.get_mem r.1)).2.1.le)
  refine ⟨?_, ?_, ?_⟩
  · rw [List.pairwise_map]
    exact h.sorted.imp fun hab => UInt32.le_iff_toNat_le.1 hab
  · rw [List.pairwise_map]
    exact h.apart.imp_of_mem fun ha hb hab => hab.disjoint_span (hend _ ha) (hend _ hb)
  · have hrel : ∀ r, r ∈ rs ↔ (ts.get r.1).periodUs ≠ 0 ∧
        r.2 < lcmPeriods ts / (ts.get r.1).periodUs.toNat := by
      intro r
      rw [hmem r]
      refine and_congr_right fun h0 => ?_
      rw [repeats, UInt64.toNat_div, (hyperperiod_facts (ts.get_mem r.1) h0 hharm).1,
        UInt32.toNat_toUInt64]
    have hlen : (slots.map ttSlotOf).length = rs.length := by
      rw [List.length_map, hframes.length_eq]
    refine ⟨(finCongr hlen).trans ((hnd.getEquiv rs).trans (Equiv.subtypeEquivRight hrel)), ?_⟩
    intro j
    have hj : j.val < slots.length := by simpa using j.isLt
    have hj' : j.val < rs.length := hlen ▸ j.isLt
    have hin := (List.forall₂_iff_get.1 hframes).2 j.val hj hj'
    simpa using hserve (rs.get_mem ⟨j.val, hj'⟩) hin

/-- **Generated schedules are valid.**  The partitions of a generated table belong to distinct
CPUs, and the TT slots of each CPU are sorted, disjoint and in bijection with the releases of the
TT tasks assigned to it, over the least common multiple of their periods. -/
theorem generateSchedule_validSlots (G : GlobalScheduler U) (now : UInt64) (nodeId : Text)
    (tasks : List ClassifiedTask) (table : HierarchicalScheduleTable)
    (hfit : ∀ t ∈ tasks, Fits t) (h : G.generateSchedule now nodeId tasks = .ok table) :
    ∃ cpus : List ℤ, cpus.Nodup ∧ List.Forall₂ (fun cpu p =>
      p.partitionId = text "isolated-" ++ intText cpu ∧
      p.cpuset = some { cpus := [cpuNumber cpu], isolated := true } ∧
      ValidSlots (lcmPeriods (G.ttOn nodeId tasks cpu)) (G.ttOn nodeId tasks cpu)
        (p.layers.flatMap (·.ttSlots))) cpus table.partitions := by
  by_cases hne : tasks = []
  · subst hne
    cases h
    exact ⟨[], List.nodup_nil, .nil⟩
  obtain ⟨a, allocated, hst, rfl⟩ := (generateSchedule_eq_ok hne).1 h
  refine hst.exists_partitions _ fun s hs => ?_
  obtain ⟨hharm, hplace⟩ := hst.cpuResult s hs
  rw [← hst.ttOn] at hharm hplace
  refine hplace.validSlots hharm fun t ht => ?_
  obtain ⟨t₀, ht₀, -, rfl⟩ := mem_ttOn ht
  exact hfit t₀ ht₀

/-- A scheduler without node configuration, computing with exact utilisations. -/
def unconfigured : GlobalScheduler ℚ := ⟨insertionStdSort, none⟩

/-- Two harmonic tasks on one CPU. -/
theorem generateSchedule_validSlots_harmonic :
    let tasks : List ClassifiedTask :=
      [.periodic (text "w") (text "slow") 20 8 20, .periodic (text "w") (text "fast") 10 2 10]
    ∃ table, unconfigured.generateSchedule 0 (text "n") tasks = .ok table ∧
      ∃ cpus : List ℤ, cpus.Nodup ∧ List.Forall₂ (fun cpu p =>
        p.partitionId = text "isolated-" ++ intText cpu ∧
        p.cpuset = some { cpus := [cpuNumber cpu], isolated := true } ∧
        ValidSlots (lcmPeriods (unconfigured.ttOn (text "n") tasks cpu))
          (unconfigured.ttOn (text "n") tasks cpu)
          (p.layers.flatMap (·.ttSlots))) cpus table.partitions := by
  intro tasks
  have hok : (unconfigured.generateSchedule 0 (text "n") tasks).toOption.isSome = true := by
    decide +kernel
  cases h : unconfigured.generateSchedule 0 (text "n") tasks with
  | error e => rw [h] at hok; cases hok
  | ok table =>
    exact ⟨table, rfl, generateSchedule_validSlots _ _ _ tasks table (by decide) h⟩

end GlobalScheduler

end Timpani
