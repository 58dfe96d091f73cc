import Timpani.Cpp.Double
import Timpani.Rust.Pinning
import Timpani.Rust.Service

/-!
# Delivery of a schedule

A node that asks for its schedule gets the tasks that were requested for it, with the times of the
request: none of the conversions on the way leaves its range.  The mask of the CPU is right as long
as the CPU has a bit in it, that is for CPUs up to 63.

* `toInt_clamped` : **a time on its way** through the representations;
* `exists_shiftOne_iff` : the mask;
* `Service.content_of_leads` : the stored schedule stays until a request is accepted;
* `Service.Matched.forall_lt_iff_room` : when all tasks get CPUs up to 63;
* `Service.delivered_iff` : **delivery**;
* `Service.not_delivered_cpu64` : a node with CPU 64.
-/

namespace Timpani.Rust

variable {U : Type} [Floating U]

/-! ### Times -/

theorem toNatClampNeg_lt (v : Int32) : v.toNatClampNeg < 2 ^ 31 := by
  have := v.toInt_lt
  unfold Int32.toNatClampNeg
  omega

theorem toInt_toInt32 {x : UInt32} {v : Int32} (h : x.toNat = v.toNatClampNeg) :
    x.toInt32.toInt = max 0 v.toInt := by
  have hlt := toNatClampNeg_lt v
  have hx : x.toBitVec.toNat = v.toNatClampNeg := h
  have hint : x.toInt32.toInt = x.toBitVec.toInt := rfl
  rw [hint, BitVec.toInt_eq_toNat_of_lt (by omega), hx, Int32.toNatClampNeg, Int.toNat_eq_max,
    max_comm]

/-- **A time on its way**: from the request to nanoseconds and back to microseconds. -/
theorem toInt_clamped (v : Int32) :
    (saturatingMul (UInt64.ofNat v.toNatClampNeg) 1000 / 1000).toUInt32.toInt32.toInt =
      max 0 v.toInt := by
  have hlt := toNatClampNeg_lt v
  have hnat : (UInt64.ofNat v.toNatClampNeg).toNat = v.toNatClampNeg :=
    UInt64.toNat_ofNat_of_lt' (hlt.trans (by decide))
  have h1000 : (1000 : UInt64).toNat = 1000 := rfl
  have hmul : (saturatingMul (UInt64.ofNat v.toNatClampNeg) 1000).toNat =
      v.toNatClampNeg * 1000 := by
    rw [saturatingMul, hnat, h1000, if_pos (by omega), UInt64.toNat_mul, hnat, h1000]
    omega
  refine toInt_toInt32 ?_
  rw [UInt64.toNat_toUInt32, UInt64.toNat_div, hmul, h1000]
  omega

/-! ### Masks -/

theorem toNat_one_shiftLeft (cpu : UInt32) :
    ((1 : UInt64) <<< cpu.toUInt64).toNat = 2 ^ (cpu.toNat % 64) := by
  have hlt : 2 ^ (cpu.toNat % 64) < 2 ^ 64 :=
    Nat.pow_lt_pow_right (by decide) (Nat.mod_lt _ (by decide))
  rw [UInt64.toNat_shiftLeft, UInt32.toNat_toUInt64, UInt64.toNat_one, Nat.one_shiftLeft,
    Nat.mod_eq_of_lt hlt]

/-- The mask has the bit of the CPU and no other one, iff there is such a bit. -/
theorem exists_shiftOne_iff (overflowChecks : Bool) (cpu : UInt32) :
    (∃ mask, shiftOne overflowChecks cpu = some mask ∧
      ∀ i, mask.toNat.testBit i = decide (i = cpu.toNat)) ↔ cpu.toNat < 64 := by
  constructor
  · rintro ⟨mask, hmask, hbits⟩
    unfold shiftOne at hmask
    split_ifs at hmask
    cases hmask
    have hbit := hbits cpu.toNat
    rw [toNat_one_shiftLeft, Nat.testBit_two_pow, decide_eq_true (rfl : cpu.toNat = cpu.toNat),
      decide_eq_true_eq] at hbit
    omega
  · intro hlt
    have hnot : ¬ (overflowChecks && decide (64 ≤ cpu)) = true := by
      rw [Bool.and_eq_true, decide_eq_true_eq, UInt32.le_iff_toNat_le]
      exact fun h => absurd h.2 (Nat.not_le.2 hlt)
    refine ⟨_, if_neg hnot, fun i => ?_⟩
    rw [toNat_one_shiftLeft, Nat.mod_eq_of_lt hlt, Nat.testBit_two_pow]
    exact decide_eq_decide.2 eq_comm

/-! ### One task -/

/-- A task as it was requested, with the CPU the scheduler has assigned. -/
structure Delivers (t : TaskInfo) (cpu : UInt32) (d : ScheduledTask) : Prop where
  name : d.name = t.name
  priority : d.schedPriority = t.priority
  maxDmiss : d.maxDmiss = t.maxDmiss
  period : d.periodUs.toInt = max 0 t.period.toInt
  runtime : d.runtimeUs.toInt = max 0 t.runtime.toInt
  deadline : d.deadlineUs.toInt = max 0 t.deadline.toInt
  releaseTime : d.releaseTimeUs.toInt = max 0 t.releaseTime.toInt
  affinity : ∀ i, d.cpuAffinity.toNat.testBit i = decide (i = cpu.toNat)

theorem exists_delivers_iff (overflowChecks : Bool) (workloadId n : Text) (t : TaskInfo)
    (cpu : UInt32) :
    (∃ d, toProtoTask overflowChecks
        (.fromTask (GlobalScheduler.Placement.task (taskFromProto workloadId t, n, cpu))) = some d ∧
      Delivers t cpu d) ↔ cpu.toNat < 64 := by
  rw [← exists_shiftOne_iff overflowChecks]
  constructor
  · rintro ⟨d, hd, hdelivers⟩
    obtain ⟨mask, hmask, rfl⟩ := Option.map_eq_some_iff.1 hd
    exact ⟨mask, hmask, hdelivers.affinity⟩
  · rintro ⟨mask, hmask, hbits⟩
    refine ⟨_, Option.map_eq_some_iff.2 ⟨mask, hmask, rfl⟩, rfl, rfl, rfl, toInt_clamped t.period,
      toInt_clamped t.runtime, toInt_clamped t.deadline, toInt_toInt32 ?_, hbits⟩
    have := toNatClampNeg_lt t.releaseTime
    exact UInt32.toNat_ofNat_of_lt' (show _ < 2 ^ 32 by omega)

theorem exists_mapM_forall₂_iff {α β : Type} {f : α → Option β} {R : α → β → Prop} {l : List α} :
    (∃ ds, l.mapM f = some ds ∧ List.Forall₂ R l ds) ↔ ∀ a ∈ l, ∃ d, f a = some d ∧ R a d := by
  induction l with
  | nil => simp
  | cons a l ih =>
    rw [List.forall_mem_cons, ← ih]
    constructor
    · rintro ⟨ds, hds, hR⟩
      cases hR with
      | @cons _ d _ ds hd hR =>
        rw [List.mapM_cons] at hds
        obtain ⟨d', hd', hds⟩ := Option.bind_eq_some_iff.1 hds
        obtain ⟨ds', hds', heq⟩ := Option.bind_eq_some_iff.1 hds
        cases heq
        exact ⟨⟨d, hd', hd⟩, ds, hds', hR⟩
    · rintro ⟨⟨d, hd, hR⟩, ds, hds, hRs⟩
      exact ⟨d :: ds, by simp [List.mapM_cons, hd, hds], .cons hR hRs⟩

/-! ### The store -/

namespace Service

variable {G : GlobalScheduler U} {syncTimeoutSecs : ℕ} {s s₁ s₂ : Service} {req : SchedInfo}

/-- What the stored workload was stored with. -/
def content (s : Service) : Option ((Text × NodeSchedMap SchedTask) × HyperperiodInfo) :=
  s.stored.map fun (ws, info) => (ws.content, info)

theorem content_eq (s : Service) :
    s.content = (s.barrier.workloads.map WorkloadState.content).getLast?.bind fun c =>
      s.hyperperiods.getLast?.map fun info => (c, info) := by
  unfold content stored Barrier.stored
  rw [List.getLast?_map]
  cases s.barrier.workloads.getLast? <;> cases s.hyperperiods.getLast? <;> rfl

theorem getSchedInfo_of_content {workloadId : Text} {schedule : NodeSchedMap SchedTask}
    {info : HyperperiodInfo} (h : s.content = some ((workloadId, schedule), info))
    (overflowChecks : Bool) (n : Text) :
    NodeService.getSchedInfo overflowChecks s n =
      ((schedule.getD n []).mapM (toProtoTask overflowChecks)).map fun tasks =>
        .ok ⟨workloadId, info.hyperperiodUs, tasks⟩ := by
  obtain ⟨⟨ws, info'⟩, hstored, heq⟩ := Option.map_eq_some_iff.1 h
  cases heq
  unfold NodeService.getSchedInfo
  rw [hstored]

theorem exists_content_of_accepted (h : SchedInfoService.addSchedInfo G s req = (s₁, 0)) :
    ∃ info pass, (HyperperiodManager.new.calculateHyperperiod G.stdSort req.workloadId
        (req.tasks.map (taskFromProto req.workloadId))).2 = .ok info ∧
      G.assign (req.tasks.map (taskFromProto req.workloadId)) (text "target_node_priority") =
        .ok pass ∧
      s₁.content = some ((req.workloadId, GlobalScheduler.buildSchedMap pass.tasks), info) := by
  unfold SchedInfoService.addSchedInfo at h
  dsimp only at h
  split at h
  · cases h
  · rename_i info hinfo
    split at h
    · cases h
    · rename_i schedule hschedule
      unfold GlobalScheduler.schedule at hschedule
      cases hassign : G.assign (req.tasks.map (taskFromProto req.workloadId))
          (text "target_node_priority") with
      | error e =>
        rw [hassign] at hschedule
        cases hschedule
      | ok pass =>
        rw [hassign] at hschedule
        cases hschedule
        cases h
        refine ⟨info, pass, hinfo, rfl, ?_⟩
        rw [content_eq]
        simp [Barrier.addSchedInfo, WorkloadState.content, WorkloadState.new]

theorem addSchedInfo_refused (h : (SchedInfoService.addSchedInfo G s req).2 ≠ 0) :
    (SchedInfoService.addSchedInfo G s req).1 = s := by
  unfold SchedInfoService.addSchedInfo at h ⊢
  dsimp only at h ⊢
  split
  · rfl
  · split
    · rfl
    · rename_i info hinfo _ schedule hschedule
      simp only [hinfo, hschedule] at h
      exact absurd rfl h

/-- A step that does not accept a request. -/
def Retains (G : GlobalScheduler U) (s : Service) (a : Action) : Prop :=
  ∀ req, a = .addSchedInfo req → (SchedInfoService.addSchedInfo G s req).2 ≠ 0

theorem content_next {a : Action} (hretains : Retains G s a)
    (h : next G syncTimeoutSecs s a = some s₁) : s₁.content = s.content := by
  have hbarrier : ∀ a : Barrier.Action SchedTask,
      (∀ workloadId schedule, a ≠ .addSchedInfo workloadId schedule) →
      ((s.barrier.next syncTimeoutSecs a).map fun b => { s with barrier := b }) = some s₁ →
      s₁.content = s.content := by
    intro a hadd hnext
    obtain ⟨b, hb, rfl⟩ := Option.map_eq_some_iff.1 hnext
    rw [content_eq, content_eq, Barrier.map_content_workloads hb hadd]
  cases a with
  | addSchedInfo req =>
    cases h
    rw [addSchedInfo_refused (hretains req rfl)]
  | syncTimer node now => exact hbarrier (.syncTimer node now) (fun _ _ => nofun) h
  | read i => exact hbarrier (.read i) (fun _ _ => nofun) h
  | wake i => exact hbarrier (.wake i) (fun _ _ => nofun) h
  | timeout i => exact hbarrier (.timeout i) (fun _ _ => nofun) h
  | expire i => exact hbarrier (.expire i) (fun _ _ => nofun) h

/-- **What was stored stays** until the next request is accepted. -/
theorem content_of_leads (h : (machine G syncTimeoutSecs).Leads (Retains G) s s₂) :
    s₂.content = s.content :=
  h.invariant (I := fun s' => s'.content = s.content) rfl fun _ _ _ hcontent hretains hnext =>
    (content_next hretains hnext).trans hcontent

end Service

/-! ### Requests -/

namespace TaskInfo

/-- The mask of the request pins the task to a CPU. -/
def isPinned (t : TaskInfo) : Bool := t.cpuAffinity ≠ 0 && t.cpuAffinity ≠ 0xffffffffffffffff

/-- The part of a CPU that the task takes: runtime by period, where a negative time counts as zero,
and zero without a period. -/
def demand (t : TaskInfo) : U := Floating.ratio t.runtime.toInt.toNat t.period.toInt.toNat

/-- What the tasks take together, added up in their order. -/
def demandSum (ts : List TaskInfo) : U :=
  ts.foldl (fun u t => Floating.add u t.demand) (Floating.ofDecimal 0 0)

end TaskInfo

/-- The least common multiple of the positive periods. -/
def SchedInfo.hyperperiod (req : SchedInfo) : ℕ :=
  Multiset.lcm (((req.tasks.filter fun t => 0 < t.period).map (·.period.toInt.toNat) : List ℕ) :
    Multiset ℕ)

theorem toNat_ofClamped (v : Int32) :
    (UInt64.ofNat v.toNatClampNeg).toNat = v.toInt.toNat :=
  UInt64.toNat_ofNat_of_lt' ((toNatClampNeg_lt v).trans (by decide))

theorem utilization_taskFromProto (workloadId : Text) (t : TaskInfo) :
    ((taskFromProto workloadId t).utilization : U) = t.demand := by
  unfold Task.utilization TaskInfo.demand taskFromProto
  dsimp only
  rw [toNat_ofClamped, toNat_ofClamped]

theorem home_taskFromProto (workloadId : Text) (t : TaskInfo) :
    GlobalScheduler.home (taskFromProto workloadId t) =
      if t.isPinned then some (t.nodeId, trailingZeros t.cpuAffinity) else none := by
  unfold GlobalScheduler.home taskFromProto CpuAffinity.fromProto TaskInfo.isPinned
  dsimp only
  by_cases h0 : t.cpuAffinity = 0
  · simp [h0]
  · by_cases h1 : t.cpuAffinity = 0xffffffffffffffff
    · simp [h1]
    · simp [h0, h1]

theorem hyperperiod_eq {stdSort : StdSort} {req : SchedInfo} {info : HyperperiodInfo}
    (h : (HyperperiodManager.new.calculateHyperperiod stdSort req.workloadId
      (req.tasks.map (taskFromProto req.workloadId))).2 = .ok info) :
    info.hyperperiodUs.toNat = req.hyperperiod := by
  rw [HyperperiodManager.calculateHyperperiod_ok h, SchedInfo.hyperperiod, List.filter_map,
    List.map_map]
  have hperiod : (UInt64.toNat ∘ Task.periodUs) ∘ taskFromProto req.workloadId =
      fun t => t.period.toInt.toNat := funext fun t => toNat_ofClamped t.period
  have hpositive : (fun t : Task => t.workloadId = req.workloadId && 0 < t.periodUs) ∘
      taskFromProto req.workloadId = fun t => decide (0 < t.period) := by
    funext t
    show (decide (req.workloadId = req.workloadId) &&
      decide (0 < UInt64.ofNat t.period.toNatClampNeg)) = decide (0 < t.period)
    rw [decide_eq_true rfl, Bool.true_and, decide_eq_decide, UInt64.lt_iff_toNat_lt,
      toNat_ofClamped, Int32.lt_iff_toInt_lt]
    exact Int.lt_toNat
  rw [hpositive]
  exact congrArg (fun f => Multiset.lcm (((req.tasks.filter _).map f : List ℕ) : Multiset ℕ))
    hperiod

/-! ### Delivery -/

namespace Service

variable {G : GlobalScheduler U} {overflowChecks : Bool} {syncTimeoutSecs : ℕ} {s s₁ s₂ : Service}
  {req : SchedInfo}

/-- A node gets the tasks that were requested for it, in the order of the request and with the CPUs
they were assigned. -/
def Delivered (G : GlobalScheduler U) (overflowChecks : Bool) (req : SchedInfo) (s : Service)
    (n : Text) : Prop :=
  ∃ pass resp,
    G.assign (req.tasks.map (taskFromProto req.workloadId)) (text "target_node_priority") =
      .ok pass ∧
    List.Forall₂ (fun t (a : Task) => a =
      { taskFromProto req.workloadId t with
        assignedNode := a.assignedNode, assignedCpu := a.assignedCpu }) req.tasks pass.tasks ∧
    NodeService.getSchedInfo overflowChecks s n = some (.ok resp) ∧
    resp.workloadId = req.workloadId ∧
    resp.hyperperiodUs.toNat = req.hyperperiod ∧
    List.Forall₂ (fun p d => ∃ cpu, p.2.assignedCpu = some cpu ∧ Delivers p.1 cpu d)
      ((req.tasks.zip pass.tasks).filter fun p => p.1.nodeId = n) resp.tasks

/-- On every node with a CPU beyond 63 all tasks are pinned, and to CPUs with room for them: in the
order of the request, the tasks pinned to a CPU never add up to more than the threshold. -/
def RoomForPinned (G : GlobalScheduler U) (req : SchedInfo) : Prop :=
  ∀ n cfg, G.nodeConfigManager.nodes[n]? = some cfg → (∃ c ∈ cfg.availableCpus, 64 ≤ c.toNat) →
    (∀ t ∈ req.tasks, t.nodeId = n → t.isPinned = true) ∧
    ∀ cpu ts, ts <+: (req.tasks.filter fun t =>
        t.nodeId = n && trailingZeros t.cpuAffinity = cpu) → ts ≠ [] →
      Floating.le (TaskInfo.demandSum ts : U) cpuUtilizationThreshold = true

/-- The tasks of a request, each with its placement. -/
structure Matched (G : GlobalScheduler U) (req : SchedInfo) (pass : GlobalScheduler.Pass U)
    (zs : List (TaskInfo × GlobalScheduler.Placement)) : Prop where
  requested : zs.map Prod.fst = req.tasks
  placed : G.Placed (text "target_node_priority")
    (req.tasks.map (taskFromProto req.workloadId)) pass (zs.map Prod.snd)
  trace : G.Trace (zs.map Prod.snd)

theorem exists_matched {pass : GlobalScheduler.Pass U}
    (h : G.assign (req.tasks.map (taskFromProto req.workloadId)) (text "target_node_priority") =
      .ok pass) : ∃ zs, Matched G req pass zs := by
  obtain ⟨ps, hplaced, htrace⟩ := GlobalScheduler.exists_trace h
  have hlength : req.tasks.length = ps.length := by
    simpa using (congrArg List.length hplaced.items).symm
  have hsnd : (req.tasks.zip ps).map Prod.snd = ps := List.map_snd_zip hlength.ge
  exact ⟨req.tasks.zip ps, List.map_fst_zip hlength.le, hsnd.symm ▸ hplaced, hsnd.symm ▸ htrace⟩

namespace Matched

variable {pass : GlobalScheduler.Pass U} {zs : List (TaskInfo × GlobalScheduler.Placement)}

theorem task_eq (h : Matched G req pass zs) :
    ∀ z ∈ zs, z.2.1 = taskFromProto req.workloadId z.1 := by
  have heq := h.placed.items
  rw [← h.requested, List.map_map, List.map_map] at heq
  exact List.map_inj_left.1 heq

theorem node_eq (h : Matched G req pass zs) {z : TaskInfo × GlobalScheduler.Placement}
    (hz : z ∈ zs) : z.2.2.1 = z.1.nodeId ∧ z.1.nodeId ≠ [] := by
  obtain ⟨heq, hne⟩ := h.trace.node_spec z.2 (List.mem_map_of_mem hz)
  have hnode : z.2.2.1 = z.1.nodeId := heq.trans (by rw [h.task_eq z hz]; rfl)
  exact ⟨hnode, hnode ▸ hne⟩

theorem getD_schedule (h : Matched G req pass zs) (n : Text) :
    (GlobalScheduler.buildSchedMap pass.tasks).getD n [] =
      (zs.filter fun z => z.1.nodeId = n).map fun z => .fromTask z.2.task := by
  rw [GlobalScheduler.getD_buildSchedMap, h.placed.tasks_eq, List.map_map, List.filter_map,
    List.map_map]
  refine congrArg (List.map _) (List.filter_congr fun z hz => ?_)
  obtain ⟨hnode, hne⟩ := h.node_eq hz
  simp [GlobalScheduler.Placement.task, Task.isAssigned, hnode, hne]

theorem filter_zip (h : Matched G req pass zs) (n : Text) :
    ((req.tasks.zip pass.tasks).filter fun p => p.1.nodeId = n) =
      (zs.filter fun z => z.1.nodeId = n).map fun z => (z.1, z.2.task) := by
  rw [h.placed.tasks_eq, ← h.requested, List.map_map, List.zip_map', List.filter_map]
  rfl

theorem forall₂_assigned (h : Matched G req pass zs) :
    List.Forall₂ (fun t (a : Task) => a =
      { taskFromProto req.workloadId t with
        assignedNode := a.assignedNode, assignedCpu := a.assignedCpu }) req.tasks pass.tasks := by
  rw [h.placed.tasks_eq, ← h.requested, List.map_map, List.forall₂_map_left_iff,
    List.forall₂_map_right_iff, List.forall₂_same]
  intro z hz
  show z.2.task = _
  rw [GlobalScheduler.Placement.task, h.task_eq z hz]
  rfl

theorem exists_delivers (h : Matched G req pass zs) {z : TaskInfo × GlobalScheduler.Placement}
    (hz : z ∈ zs) :
    (∃ d, toProtoTask overflowChecks (.fromTask z.2.task) = some d ∧ Delivers z.1 z.2.2.2 d) ↔
      z.2.2.2.toNat < 64 := by
  have heq : z.2 = (taskFromProto req.workloadId z.1, z.2.2.1, z.2.2.2) :=
    Prod.ext (h.task_eq z hz) rfl
  have hdelivers := exists_delivers_iff overflowChecks req.workloadId z.2.2.1 z.1 z.2.2.2
  rwa [← heq] at hdelivers

theorem delivered_iff_lt (h : Matched G req pass zs)
    (hassign : G.assign (req.tasks.map (taskFromProto req.workloadId))
      (text "target_node_priority") = .ok pass) {info : HyperperiodInfo}
    (hinfo : info.hyperperiodUs.toNat = req.hyperperiod)
    (hcontent : s.content =
      some ((req.workloadId, GlobalScheduler.buildSchedMap pass.tasks), info)) (n : Text) :
    Delivered G overflowChecks req s n ↔ ∀ z ∈ zs, z.1.nodeId = n → z.2.2.2.toNat < 64 := by
  let toProto := fun z : TaskInfo × GlobalScheduler.Placement =>
    toProtoTask overflowChecks (.fromTask z.2.task)
  have hget : NodeService.getSchedInfo overflowChecks s n =
      ((zs.filter fun z => z.1.nodeId = n).mapM toProto).map fun tasks =>
        .ok ⟨req.workloadId, info.hyperperiodUs, tasks⟩ := by
    rw [getSchedInfo_of_content hcontent, h.getD_schedule, List.mapM_map]
    rfl
  have hall : (∃ ds, (zs.filter fun z => z.1.nodeId = n).mapM toProto = some ds ∧
      List.Forall₂ (fun z d => Delivers z.1 z.2.2.2 d) (zs.filter fun z => z.1.nodeId = n) ds) ↔
      ∀ z ∈ zs, z.1.nodeId = n → z.2.2.2.toNat < 64 := by
    rw [exists_mapM_forall₂_iff, List.forall_mem_filter]
    refine forall₂_congr fun z hz => ?_
    rw [decide_eq_true_eq, h.exists_delivers hz]
  rw [← hall]
  constructor
  · rintro ⟨pass', resp, hassign', -, hresp, -, -, hdelivers⟩
    cases hassign.symm.trans hassign'
    rw [hget] at hresp
    obtain ⟨ds, hds, heq⟩ := Option.map_eq_some_iff.1 hresp
    cases heq
    rw [h.filter_zip, List.forall₂_map_left_iff] at hdelivers
    refine ⟨ds, hds, hdelivers.imp fun z d hd => ?_⟩
    obtain ⟨cpu, hcpu, hd⟩ := hd
    cases hcpu
    exact hd
  · rintro ⟨ds, hds, hdelivers⟩
    refine ⟨pass, ⟨req.workloadId, info.hyperperiodUs, ds⟩, hassign, h.forall₂_assigned, ?_, rfl,
      hinfo, ?_⟩
    · rw [hget, hds]
      rfl
    · rw [h.filter_zip, List.forall₂_map_left_iff]
      exact hdelivers.imp fun z d hd => ⟨z.2.2.2, rfl, hd⟩

theorem map_fst_onNode (h : Matched G req pass zs) (n : Text) :
    (GlobalScheduler.onNode n (zs.map Prod.snd)).map Prod.fst =
      (req.tasks.filter fun t => t.nodeId = n).map (taskFromProto req.workloadId) := by
  rw [GlobalScheduler.onNode, List.filter_map, List.map_map, ← h.requested, List.filter_map,
    List.map_map]
  have hfilter : zs.filter ((fun p : GlobalScheduler.Placement => decide (p.2.1 = n)) ∘ Prod.snd) =
      zs.filter ((fun t : TaskInfo => decide (t.nodeId = n)) ∘ Prod.fst) :=
    List.filter_congr fun z hz => by simp [(h.node_eq hz).1]
  rw [hfilter]
  exact List.map_congr_left fun z hz => h.task_eq z (List.mem_filter.1 hz).1

theorem homeItems_requested {n : Text}
    (hpinned : ∀ t ∈ req.tasks, t.nodeId = n → t.isPinned = true) (bin : Text × UInt32) :
    homeItems GlobalScheduler.home
        ((req.tasks.filter fun t => t.nodeId = n).map (taskFromProto req.workloadId)) bin =
      (if bin.1 = n then
        req.tasks.filter fun t => t.nodeId = n && trailingZeros t.cpuAffinity = bin.2
      else []).map (taskFromProto req.workloadId) := by
  have hhome : ∀ t ∈ req.tasks, t.nodeId = n → (GlobalScheduler.home
      (taskFromProto req.workloadId t) = some bin ↔
        n = bin.1 ∧ trailingZeros t.cpuAffinity = bin.2) := by
    intro t ht hn
    rw [home_taskFromProto, if_pos (hpinned t ht hn), Option.some_inj, hn]
    exact Prod.ext_iff
  rw [homeItems, List.filter_map, List.filter_filter]
  congr 1
  split_ifs with hbin
  · refine List.filter_congr fun t ht => ?_
    by_cases hn : t.nodeId = n
    · simp [hn, hhome t ht hn, hbin]
    · simp [hn]
  · refine List.filter_eq_nil_iff.2 fun t ht hboth => ?_
    simp only [Function.comp_apply, Bool.and_eq_true, decide_eq_true_eq] at hboth
    exact hbin ((hhome t ht hboth.2).1 hboth.1).1.symm

/-- The tasks of a request fit one after the other iff no beginning of them adds up to too much. -/
theorem fitsInTurn_iff (ts : List TaskInfo) (workloadId : Text) :
    FitsInTurn GlobalScheduler.addTask (Floating.ofDecimal 0 0)
        (GlobalScheduler.WithinThreshold (U := U)) (ts.map (taskFromProto workloadId)) ↔
      ∀ l, l <+: ts → l ≠ [] →
        Floating.le (TaskInfo.demandSum l : U) cpuUtilizationThreshold = true := by
  have hsum : ∀ l : List TaskInfo, (l.map (taskFromProto workloadId)).foldl
      GlobalScheduler.addTask (Floating.ofDecimal 0 0) = (TaskInfo.demandSum l : U) := by
    intro l
    rw [List.foldl_map]
    exact congrArg (fun f => List.foldl f _ l) (funext₂ fun u t =>
      congrArg (Floating.add u) (utilization_taskFromProto workloadId t))
  constructor
  · intro h l hl hne
    rw [← hsum]
    exact h _ (hl.map _) (by simpa using hne)
  · intro h l' hl' hne
    obtain ⟨l, hl, rfl⟩ := List.prefix_map_iff.1 hl'
    rw [hsum]
    exact h l hl (by simpa using hne)

/-- **All CPUs have a bit in the mask** iff there is room for the tasks that are pinned. -/
theorem forall_lt_iff_room [MonotoneFloating U] (h : Matched G req pass zs) :
    (∀ z ∈ zs, z.2.2.2.toNat < 64) ↔ RoomForPinned G req := by
  have hmask : ∀ p ∈ zs.map Prod.snd, ∀ mask, p.1.affinity = .pinned mask → mask ≠ 0 := by
    rintro p hp mask hmask rfl
    obtain ⟨z, hz, rfl⟩ := List.mem_map.1 hp
    rw [h.task_eq z hz] at hmask
    simp only [taskFromProto, CpuAffinity.fromProto] at hmask
    split_ifs at hmask with hany
    rw [CpuAffinity.pinned.injEq] at hmask
    simp [hmask] at hany
  have hlt := h.trace.forall_lt_iff hmask fun p hp =>
    (h.placed.greedy.allowed_of_mem p hp).configured
  rw [List.forall_mem_map] at hlt
  rw [hlt]
  refine forall₂_congr fun n cfg => imp_congr_right fun hcfg => imp_congr_right fun hhigh => ?_
  have hpinned : (∀ p ∈ GlobalScheduler.onNode n (zs.map Prod.snd),
      (GlobalScheduler.home p.1).isSome) ↔
      ∀ t ∈ req.tasks, t.nodeId = n → t.isPinned = true := by
    rw [← List.forall_mem_map (f := Prod.fst) (P := fun t => (GlobalScheduler.home t).isSome),
      h.map_fst_onNode, List.forall_mem_map, List.forall_mem_filter]
    refine forall₂_congr fun t _ => ?_
    rw [decide_eq_true_eq, home_taskFromProto]
    cases t.isPinned <;> simp
  rw [hpinned, h.map_fst_onNode]
  refine and_congr_right fun hpinned => ⟨fun hfits cpu => ?_, fun hfits bin => ?_⟩
  · have hcpu := hfits (n, cpu)
    rw [homeItems_requested hpinned, if_pos rfl, fitsInTurn_iff] at hcpu
    exact hcpu
  · rw [homeItems_requested hpinned, fitsInTurn_iff]
    split_ifs
    · exact hfits bin.2
    · exact fun l hl hne => absurd (List.prefix_nil.1 hl) hne

end Matched

theorem forall_delivered_iff [MonotoneFloating U]
    (hadd : SchedInfoService.addSchedInfo G s req = (s₁, 0))
    (hcontent : s₂.content = s₁.content) :
    (∀ n, Delivered G overflowChecks req s₂ n) ↔ RoomForPinned G req := by
  obtain ⟨info, pass, hinfo, hassign, hstored⟩ := exists_content_of_accepted hadd
  obtain ⟨zs, hzs⟩ := exists_matched hassign
  have hnode : ∀ n, Delivered G overflowChecks req s₂ n ↔
      ∀ z ∈ zs, z.1.nodeId = n → z.2.2.2.toNat < 64 :=
    hzs.delivered_iff_lt hassign (hyperperiod_eq hinfo) (hcontent.trans hstored)
  rw [← hzs.forall_lt_iff_room]
  exact ⟨fun h z hz => (hnode z.1.nodeId).1 (h _) z hz rfl,
    fun h n => (hnode n).2 fun z hz _ => h z hz⟩

/-- **Delivery.**  From an accepted request on, and until the next one is accepted, every node gets
its tasks as they were requested, iff on the nodes with CPUs beyond 63 all tasks are pinned and have
room where they are pinned to. -/
theorem delivered_iff [MonotoneFloating U]
    (hadd : SchedInfoService.addSchedInfo G s req = (s₁, 0)) :
    (∀ s₂, (machine G syncTimeoutSecs).Leads (Retains G) s₁ s₂ →
      ∀ n, Delivered G overflowChecks req s₂ n) ↔ RoomForPinned G req := by
  constructor
  · intro hdelivered
    exact (forall_delivered_iff hadd rfl).1 (hdelivered s₁ .refl)
  · intro hroom s₂ hleads
    exact (forall_delivered_iff hadd (content_of_leads hleads)).2 hroom

/-- Nothing is stored. -/
def empty : Service := ⟨⟨[], [], [], 0⟩, []⟩

/-- One node, with CPU 64 among others. -/
def wideNode : GlobalScheduler Float where
  nodeConfigManager :=
    { nodes := (∅ : Std.ExtTreeMap Text NodeConfig).insert (text "node01")
        (NodeConfig.mk [0, 1, 64] 1024)
      loaded := true }
  stdSort := insertionStdSort

/-- A request with one task that takes half a CPU. -/
def halfRequest (cpuAffinity : UInt64) : SchedInfo where
  workloadId := text "wl"
  tasks := [⟨text "a", 50, 1, cpuAffinity, 10000, -7, 5000, 10000, text "node01", 3⟩]

theorem halfRequest_accepted (cpuAffinity : UInt64)
    (h : (SchedInfoService.addSchedInfo wideNode empty (halfRequest cpuAffinity)).2 = 0) :
    SchedInfoService.addSchedInfo wideNode empty (halfRequest cpuAffinity) =
      ((SchedInfoService.addSchedInfo wideNode empty (halfRequest cpuAffinity)).1, 0) :=
  Prod.ext rfl h

theorem delivered_pinned :
    (SchedInfoService.addSchedInfo wideNode empty (halfRequest 2)).2 = 0 ∧
      RoomForPinned wideNode (halfRequest 2) ∧
      ∀ s₂, (machine wideNode 30).Leads (Retains wideNode)
        (SchedInfoService.addSchedInfo wideNode empty (halfRequest 2)).1 s₂ →
        ∀ n, Delivered wideNode false (halfRequest 2) s₂ n := by
  have hroom : RoomForPinned wideNode (halfRequest 2) := by
    intro n cfg _ _
    refine ⟨fun t ht _ => ?_, fun cpu ts hts hne => ?_⟩
    · rw [List.mem_singleton.1 ht]
      decide
    · have hts := (hts.sublist.trans List.filter_sublist)
      rw [halfRequest, List.sublist_singleton] at hts
      rw [hts.resolve_left hne]
      decide +kernel
  have haccepted : (SchedInfoService.addSchedInfo wideNode empty (halfRequest 2)).2 = 0 := by
    decide +kernel
  exact ⟨haccepted, hroom, (delivered_iff (halfRequest_accepted 2 haccepted)).2 hroom⟩

/-- **A node with CPU 64**: the mask of a task that is assigned to it has the bit of CPU 0, and with
overflow checks the request panics. -/
theorem not_delivered_cpu64 :
    ∃ s₁, SchedInfoService.addSchedInfo wideNode empty (halfRequest 0) = (s₁, 0) ∧
      NodeService.getSchedInfo false s₁ (text "node01") = some (.ok ⟨text "wl", 10000,
        [⟨text "a", 50, 1, 10000, 0, 5000, 10000, 1, 3, text "node01"⟩]⟩) ∧
      NodeService.getSchedInfo true s₁ (text "node01") = none ∧
      ∀ overflowChecks, ¬ ∀ n, Delivered wideNode overflowChecks (halfRequest 0) s₁ n := by
  refine ⟨_, halfRequest_accepted 0 (by decide +kernel), by decide +kernel, by decide +kernel, ?_⟩
  intro overflowChecks hdelivered
  have hroom := (forall_delivered_iff (halfRequest_accepted 0 (by decide +kernel)) rfl).1 hdelivered
  have hpinned := (hroom (text "node01") _ Std.ExtTreeMap.getElem?_insert_self
    ⟨64, by decide, by decide⟩).1 _ (List.mem_singleton_self _) rfl
  exact absurd hpinned (by decide)

end Service

end Timpani.Rust
