import Timpani.Scheduler.Feasible
import Timpani.Store.Coherence

/-!
# Removing a workload

When the stored workloads can be scheduled, one would expect that the rest can be scheduled after
one of them is removed.  The placement of TT slots is not monotone, so this fails as soon as TT
workloads share a CPU.  With exact utilisations:

* `Erasable` : the workload is a CBS workload, or the TT workloads of the node have CPUs of their
  own;
* `removeWorkload_of_erasable` : removing such a workload succeeds;
* `removal_fails` : a shared CPU, a negative CPU number, and a CBS task without load.
-/

namespace Timpani

namespace SchedInfoService

/-! ### What requests store -/

section Requested

variable {U : Type} [Floating U] {G : GlobalScheduler U} {s s' : SchedInfoService}

/-- Every stored workload was stored by a request. -/
def Requested (G : GlobalScheduler U) (workloads : WorkloadMap) : Prop :=
  ∀ (id : Text) (entry : WorkloadEntry), workloads[id]? = some entry →
    ∃ request : SchedInfo, request.workloadId = id ∧ requestedEntry G request = some entry

omit [Floating U] in
theorem mechanism_requestedEntry {request : SchedInfo} {entry : WorkloadEntry}
    (h : requestedEntry G request = some entry) :
    (∀ t ∈ entry.tasks, t.mechanism = .tt) ∨ ∀ t ∈ entry.tasks, t.mechanism ≠ .tt := by
  obtain ⟨-, -, mechanism, -, htasks⟩ := requestedEntry_eq_some h
  rw [htasks, List.forall_mem_map, List.forall_mem_map]
  by_cases htt : mechanism = .tt
  · exact Or.inl fun _ _ => htt
  · exact Or.inr fun _ _ => htt

omit [Floating U] in
theorem Requested.labelled {workloads : WorkloadMap} (h : Requested G workloads) :
    Labelled workloads := by
  intro id entry hget
  obtain ⟨request, rfl, hentry⟩ := h id entry hget
  exact labelled_requestedEntry hentry

theorem requested_of_reachable (h : (machine G).Reachable s) : Requested G s.workloadTasks :=
  EveryEntry.of_reachableIf h fun _ _ _ request _ _ hentry => ⟨request, rfl, hentry⟩

theorem schedulable_iff {workloads : WorkloadMap} {tables : ScheduleTableMap} :
    Schedulable G workloads tables ↔
      ∀ n ∈ allNodes workloads tables, G.Feasible n (tasksFor workloads n) := by
  refine forall₂_congr fun n _ => ⟨?_, ?_⟩
  · rintro ⟨table, h⟩
    exact h.exists_generateSchedule 0
  · rintro ⟨table, h⟩
    exact ⟨table, fresh_of_generateSchedule h⟩

end Requested

/-! ### Removal with exact utilisations -/

variable {G : GlobalScheduler ℚ} {workloads : WorkloadMap} {w n : Text}

/-- The workload has no TT tasks on the node; or every TT workload of the node has a CPU of its own,
and if there is a CBS task without load then no other TT workload takes all the bandwidth of its
CPU. -/
def Erasable (G : GlobalScheduler ℚ) (workloads : WorkloadMap) (w n : Text) : Prop :=
  let tasks := tasksFor workloads n
  (∀ t ∈ tasks, t.workloadId = w → t.mechanism ≠ .tt) ∨
    (G.availableCpus n).Nodup ∧
    (GlobalScheduler.ttWorkloadIds (GlobalScheduler.ttTasks tasks)).length
      ≤ (G.availableCpus n).length ∧
    ((∀ t ∈ GlobalScheduler.cbsTasks tasks, 0 < t.load) ∨
      ∀ w', w' ≠ w →
        taskLoad ((GlobalScheduler.ttTasks tasks).filter (·.workloadId = w')) ≠ 78 / 100)

theorem Erasable.feasible (he : Erasable G workloads w n) (hreq : Requested G workloads)
    (hnat : G.stdSort.Natural) (hcpus : ∀ c ∈ G.availableCpus n, 0 ≤ c)
    (h : G.Feasible n (tasksFor workloads n)) : G.Feasible n (tasksFor (workloads.erase w) n) := by
  rw [hreq.labelled.tasksFor_erase]
  set tasks := tasksFor workloads n
  rcases he with hcbs | ⟨hnd, hlen, hload⟩
  · refine h.sublist_cbs hnat hcpus ?_ (List.filter_sublist.filter _)
    rw [GlobalScheduler.ttTasks, GlobalScheduler.ttTasks, List.filter_comm]
    refine List.filter_eq_self.2 fun t ht => decide_eq_true fun hw => ?_
    obtain ⟨ht, htt⟩ := GlobalScheduler.mem_ttTasks.1 ht
    exact hcbs t ht hw htt
  · by_cases hcbs : ∀ t ∈ GlobalScheduler.cbsTasks tasks, t.workloadId ≠ w
    · refine h.erase_tt hnat hcpus hnd hlen hload (List.filter_comm ..) ?_
      rw [GlobalScheduler.cbsTasks, List.filter_comm]
      exact List.filter_eq_self.2 fun t ht => decide_eq_true (hcbs t ht)
    · -- then none of its tasks is a TT task
      push Not at hcbs
      obtain ⟨t, ht, hw⟩ := hcbs
      refine h.sublist_cbs hnat hcpus ?_ (List.filter_sublist.filter _)
      rw [GlobalScheduler.ttTasks, GlobalScheduler.ttTasks, List.filter_comm]
      refine List.filter_eq_self.2 fun t' ht' => decide_eq_true fun hw' => ?_
      obtain ⟨ht, hm⟩ := GlobalScheduler.mem_cbsTasks.1 ht
      obtain ⟨ht', hm'⟩ := GlobalScheduler.mem_ttTasks.1 ht'
      obtain ⟨id, entry, hget, -, htask⟩ := mem_tasksFor.1 ht
      obtain ⟨id', entry', hget', -, htask'⟩ := mem_tasksFor.1 ht'
      have hid : id = id' := by
        rw [← hreq.labelled id entry hget t htask, ← hreq.labelled id' entry' hget' t' htask', hw,
          hw']
      subst hid
      cases hget.symm.trans hget'
      obtain ⟨request, -, hentry⟩ := hreq id entry hget
      rcases mechanism_requestedEntry hentry with hall | hall
      · exact hm (hall t htask)
      · exact hall t' htask' hm'

/-- **Removing a workload succeeds** when its erasure leaves every TT workload a CPU of its own: if
the tables can be regenerated now, they can be regenerated without the workload, and
`RemoveWorkload` returns `true`. -/
theorem removeWorkload_of_erasable (G : GlobalScheduler ℚ) (hnat : G.stdSort.Natural)
    (hcpus : ∀ n, ∀ c ∈ G.availableCpus n, 0 ≤ c) (s : SchedInfoService)
    (hreq : Requested G s.workloadTasks) (clock : ℕ → UInt64) (tables : ScheduleTableMap)
    (h : regenerateAllSchedules G clock s.workloadTasks s.scheduleTables = .ok tables) (w : Text)
    (hw : w ∈ s.workloadTasks)
    (he : ∀ n ∈ allNodes s.workloadTasks s.scheduleTables, Erasable G s.workloadTasks w n)
    (clock' : ℕ → UInt64) (triggerPush : Bool) :
    (∃ tables', regenerateAllSchedules G clock' (s.workloadTasks.erase w) s.scheduleTables
      = .ok tables') ∧
    ∃ r, removeWorkload G clock' s w triggerPush = .ok r ∧ r.result = true := by
  have hold := schedulable_iff.1 (regenerateAllSchedules_isOk_iff.1 ⟨_, h⟩)
  have hnew : Schedulable G (s.workloadTasks.erase w) s.scheduleTables := by
    refine schedulable_iff.2 fun n hn => ?_
    have hn : n ∈ allNodes s.workloadTasks s.scheduleTables := by
      rw [mem_allNodes] at hn ⊢
      refine hn.imp_left ?_
      rintro ⟨id, entry, hget, hn⟩
      rw [Std.ExtTreeMap.getElem?_erase] at hget
      split_ifs at hget
      exact ⟨id, entry, hget, hn⟩
    exact (he n hn).feasible hreq hnat (hcpus n) (hold n hn)
  obtain ⟨tables', hreg⟩ := (@regenerateAllSchedules_isOk_iff _ _ _ _ _ clock').2 hnew
  refine ⟨⟨tables', hreg⟩, ?_⟩
  unfold removeWorkload
  rw [resolve, if_pos hw]
  dsimp only [bind, Except.bind]
  rw [hreg]
  exact ⟨_, rfl, rfl⟩

/-! ### Four removals -/

open GlobalScheduler (unconfigured)

/-- A CBS workload on node `n`. -/
def sporadicWorkload (id : String) (tasks : List (String × Int32 × Int32 × Int32)) : SchedInfo :=
  { periodicWorkload id tasks with temporalClass := .sporadic }

/-- The store after a sequence of requests. -/
def submitted (G : GlobalScheduler ℚ) (requests : List SchedInfo) : SchedInfoService :=
  requests.foldl (fun s r => (addSchedInfo G (fun _ => 0) (fun _ => 0) s r).1) new

theorem reachable_submitted (G : GlobalScheduler ℚ) (requests : List SchedInfo) :
    (machine G).Reachable (submitted G requests) := by
  induction requests using List.reverseRecOn with
  | nil => exact .of_init rfl
  | append_singleton requests r ih =>
    rw [submitted, List.foldl_append]
    exact ih.next (a := .addSchedInfo (fun _ => 0) (fun _ => 0) r) trivial rfl

/-- The scheduler of a node `n` with the given CPUs. -/
def nodeWith (cpus : List ℤ) : GlobalScheduler ℚ where
  stdSort := insertionStdSort
  nodeConfigManager := some {
    nodes := .ofList [(text "n", (⟨text "n", cpus, 4096, text "aarch64", [], []⟩ : NodeConfig))]
    loaded := true }

/-- Two TT workloads and a CBS workload on two CPUs: the first TT workload can be removed. -/
theorem removeWorkload_dedicated :
    let s := submitted unconfigured [periodicWorkload "a" [("t", 10, 3, 10)],
      periodicWorkload "b" [("t", 20, 5, 20)], sporadicWorkload "c" [("t", 10, 2, 10)]]
    text "a" ∈ s.workloadTasks ∧
      ∃ r, removeWorkload unconfigured (fun _ => 0) s (text "a") true = .ok r ∧
        r.result = true := by
  intro s
  have hin : text "a" ∈ s.workloadTasks := by decide +kernel
  refine ⟨hin, ?_⟩
  obtain ⟨tables, htables⟩ : ∃ tables, regenerateAllSchedules unconfigured (fun _ => 0)
      s.workloadTasks s.scheduleTables = .ok tables := by
    have hsome : (regenerateAllSchedules unconfigured (fun _ => 0) s.workloadTasks
        s.scheduleTables).toOption.isSome = true := by decide +kernel
    obtain ⟨tables, h⟩ := Option.isSome_iff_exists.1 hsome
    exact ⟨tables, toOption_eq_some.1 h⟩
  refine (removeWorkload_of_erasable unconfigured natural_insertionStdSort (fun n c hc => ?_) s
    (requested_of_reachable (reachable_submitted _ _)) _ tables htables _ hin
    (fun n hn => ?_) (fun _ => 0) true).2
  · have hall : ∀ c ∈ unconfigured.availableCpus n, 0 ≤ c :=
      (by decide : ∀ c ∈ ([2, 3] : List ℤ), 0 ≤ c)
    exact hall c hc
  · have hnodes : ∀ n ∈ allNodes s.workloadTasks s.scheduleTables, n = text "n" := by
      decide +kernel
    obtain rfl := hnodes n hn
    exact Or.inr ⟨by decide +kernel, by decide +kernel, Or.inl (by decide +kernel)⟩

/-- The stored workloads can be scheduled, but removing this one fails. -/
def RemovalFails (G : GlobalScheduler ℚ) (s : SchedInfoService) (id : Text) : Prop :=
  (machine G).Reachable s ∧ id ∈ s.workloadTasks ∧
    (∃ tables, regenerateAllSchedules G (fun _ => 0) s.workloadTasks s.scheduleTables
      = .ok tables) ∧
    ∃ r, removeWorkload G (fun _ => 0) s id true = .ok r ∧ r.result = false

theorem removalFails_submitted {requests : List SchedInfo} {id : Text}
    (hin : id ∈ (submitted G requests).workloadTasks)
    (hreg : (regenerateAllSchedules G (fun _ => 0) (submitted G requests).workloadTasks
      (submitted G requests).scheduleTables).toOption.isSome = true)
    (hremove : (removeWorkload G (fun _ => 0) (submitted G requests) id true).toOption.any
      (fun r => !r.result) = true) : RemovalFails G (submitted G requests) id := by
  obtain ⟨tables, htables⟩ := Option.isSome_iff_exists.1 hreg
  obtain ⟨r, hr, hresult⟩ := (Option.any_eq_true _ _).1 hremove
  exact ⟨reachable_submitted G requests, hin, ⟨tables, toOption_eq_some.1 htables⟩, r,
    toOption_eq_some.1 hr, by simpa using hresult⟩

/-- Removals that fail: a TT workload that shares its CPU with another one, whose slots do not fit
any more when they move; the TT workload on a CPU with a negative number, which then has the largest
residual capacity and is taken for a failed search; and a TT workload whose CPU is taken over by one
that leaves no bandwidth, which a CBS task without load is then sent to. -/
theorem removal_fails :
    RemovalFails (nodeWith [2])
      (submitted (nodeWith [2]) [periodicWorkload "a" [("t1", 5, 1, 5)], periodicWorkload "b"
        [("t0", 20, 3, 8), ("t2", 10, 1, 3), ("t3", 10, 4, 10), ("t4", 20, 3, 17)]])
      (text "a") ∧
    RemovalFails (nodeWith [-3, 2])
      (submitted (nodeWith [-3, 2]) [periodicWorkload "a" [("t", 10, 1, 10)],
        sporadicWorkload "c" [("t", 10, 2, 10)]])
      (text "a") ∧
    RemovalFails (nodeWith [2, 3])
      (submitted (nodeWith [2, 3]) [periodicWorkload "a" [("t", 10, 0, 10)],
        periodicWorkload "b" [("t", 100, 78, 100)], sporadicWorkload "c" [("t", 100, 78, 100)],
        sporadicWorkload "d" [("t", 100, 0, 100)]])
      (text "a") :=
  ⟨removalFails_submitted (by decide +kernel) (by decide +kernel) (by decide +kernel),
    removalFails_submitted (by decide +kernel) (by decide +kernel) (by decide +kernel),
    removalFails_submitted (by decide +kernel) (by decide +kernel) (by decide +kernel)⟩

end SchedInfoService

end Timpani
