import Timpani.Scheduler.Overflow
import Timpani.Store.Coherence

/-!
# Overflow while tables are generated

An accepted `AddSchedInfo` has generated the tables of all nodes, from the tasks of the request and
those that were stored before.  Period, runtime and deadline of a request may be negative.

* `inRange_iff_allPackable` : no sum leaves its range iff the tasks of every CPU are packable, and
  this is so in every run without negative runtimes;
* `not_inRange_negative` : a negative runtime whose slot wraps.
-/

namespace Timpani

namespace SchedInfoService

variable {U : Type} [Floating U]

omit [Floating U] in
/-- The workloads the tables are generated from: those stored, and the requested one. -/
def requestedWorkloads (G : GlobalScheduler U) (s : SchedInfoService) (request : SchedInfo) :
    WorkloadMap :=
  match requestedEntry G request with
  | none => s.workloadTasks
  | some entry => s.workloadTasks.insert request.workloadId entry

/-- No sum leaves its range while the tables `new` are generated, and their slots end in time. -/
structure InRange (G : GlobalScheduler U) (workloads : WorkloadMap)
    (tables new : ScheduleTableMap) : Prop where
  sums : ∀ n ∈ allNodes workloads tables,
    ∀ x ∈ G.generationSums n (tasksFor workloads n), x < 2 ^ 32
  ends : ∀ (n : Text) (table : HierarchicalScheduleTable), new[n]? = some table →
    G.EndsInTime n (tasksFor workloads n) table

variable {G : GlobalScheduler U} {s s' : SchedInfoService} {request : SchedInfo}
  {clock clock' : ℕ → UInt64}

theorem regenerate_of_accepted (h : addSchedInfo G clock clock' s request = (s', 0)) :
    s'.workloadTasks = requestedWorkloads G s request ∧
      regenerateAllSchedules G clock (requestedWorkloads G s request) s.scheduleTables =
        .ok s'.scheduleTables := by
  unfold requestedWorkloads
  rcases addSchedInfo_cases G clock clock' s request with
    ⟨hnone, hs⟩ | ⟨entry, hentry, ⟨tables, hreg, hs⟩ | ⟨-, hstatus, -⟩⟩
  · rw [h] at hs
    cases hs
  · rw [h] at hs
    cases hs
    rw [hentry]
    exact ⟨rfl, hreg⟩
  · rw [h] at hstatus
    cases hstatus

theorem exists_generated {workloads : WorkloadMap} {tables new : ScheduleTableMap}
    (h : regenerateAllSchedules G clock workloads tables = .ok new) {n : Text}
    (hn : n ∈ allNodes workloads tables) :
    ∃ now table, new[n]? = some table ∧
      G.generateSchedule now n (tasksFor workloads n) = .ok table := by
  obtain ⟨hmem, hgen⟩ := regenerateAllSchedules_generated h
  obtain ⟨table, htable⟩ := Option.isSome_iff_exists.1
    (Std.ExtTreeMap.mem_iff_isSome_getElem?.1 ((hmem n).2 hn))
  obtain ⟨i, -, hi⟩ := hgen n table htable
  exact ⟨clock i, table, htable, hi⟩

/-- The tasks of every CPU of every node can be placed with unbounded integers. -/
def AllPackable (G : GlobalScheduler U) (workloads : WorkloadMap) (tables : ScheduleTableMap) :
    Prop :=
  ∀ n ∈ allNodes workloads tables, ∀ cpu ∈ G.availableCpus n,
    GlobalScheduler.Packable G (G.ttOn n (tasksFor workloads n) cpu)

instance (G : GlobalScheduler U) (workloads : WorkloadMap) (tables : ScheduleTableMap) :
    Decidable (AllPackable G workloads tables) := List.decidableBAll _ _

theorem inRange_iff {workloads : WorkloadMap} {tables new : ScheduleTableMap}
    (h : regenerateAllSchedules G clock workloads tables = .ok new) :
    InRange G workloads tables new ↔ AllPackable G workloads tables := by
  constructor
  · intro hrange n hn
    obtain ⟨now, table, htable, hgen⟩ := exists_generated h hn
    exact (GlobalScheduler.generateSchedule_sums_iff hgen).1
      ⟨hrange.sums n hn, hrange.ends n table htable⟩
  · intro hpackable
    refine ⟨fun n hn => ?_, fun n table htable => ?_⟩
    · obtain ⟨now, table, -, hgen⟩ := exists_generated h hn
      exact ((GlobalScheduler.generateSchedule_sums_iff hgen).2 (hpackable n hn)).1
    · obtain ⟨hmem, hgenerated⟩ := regenerateAllSchedules_generated h
      have hn := (hmem n).1 (Std.ExtTreeMap.mem_iff_isSome_getElem?.2 (by rw [htable]; rfl))
      obtain ⟨i, -, hgen⟩ := hgenerated n table htable
      exact ((GlobalScheduler.generateSchedule_sums_iff hgen).2 (hpackable n hn)).2

/-! ### Runs -/

/-- No TT task of the request has a negative runtime. -/
def RuntimesNonneg (_ : SchedInfoService) : StoreAction → Prop
  | .addSchedInfo _ _ request =>
      request.temporalClass = .periodic → ∀ t ∈ request.tasks, 0 ≤ t.runtime
  | .removeWorkload .. => True

instance (s : SchedInfoService) (a : StoreAction) : Decidable (RuntimesNonneg s a) := by
  cases a <;> unfold RuntimesNonneg <;> infer_instance

/-- No stored TT task has a runtime beyond `2 ^ 31`. -/
def ShortRuntimes (workloads : WorkloadMap) : Prop :=
  ∀ (id : Text) (entry : WorkloadEntry), workloads[id]? = some entry →
    ∀ t ∈ entry.tasks, t.mechanism = .tt → t.wcetUs.toNat ≤ 2 ^ 31

theorem toNat_toUInt32_le {v : Int32} (h : 0 ≤ v) : v.toUInt32.toNat ≤ 2 ^ 31 := by
  rw [Int32.le_iff_toInt_le] at h
  have hlt := v.toInt_lt
  have hnat : v.toUInt32.toNat = v.toBitVec.toNat := rfl
  have hint : v.toInt = v.toBitVec.toInt := rfl
  have hzero : (0 : Int32).toInt = 0 := rfl
  rw [hint, BitVec.toInt_eq_toNat_cond] at h hlt
  rw [hzero] at h
  split_ifs at h hlt <;> omega

omit [Floating U] in
theorem short_requestedEntry {entry : WorkloadEntry} (h : requestedEntry G request = some entry)
    (hnonneg : RuntimesNonneg s (.addSchedInfo clock clock' request)) :
    ∀ t ∈ entry.tasks, t.mechanism = .tt → t.wcetUs.toNat ≤ 2 ^ 31 := by
  obtain ⟨-, -, mechanism, hmech, htasks⟩ := requestedEntry_eq_some h
  rw [htasks, List.forall_mem_map]
  exact fun t ht htt => toNat_toUInt32_le (hnonneg (hmech.1 htt) t ht)

theorem shortRuntimes_of_reachableIf (h : (machine G).ReachableIf RuntimesNonneg s) :
    ShortRuntimes s.workloadTasks :=
  EveryEntry.of_reachableIf h fun _ _ _ _ _ hnonneg hentry => short_requestedEntry hentry hnonneg

theorem ShortRuntimes.allPackable {workloads : WorkloadMap} {tables new : ScheduleTableMap}
    (hshort : ShortRuntimes workloads)
    (h : regenerateAllSchedules G clock workloads tables = .ok new) :
    AllPackable G workloads tables := by
  intro n hn cpu hcpu
  obtain ⟨now, table, -, hgen⟩ := exists_generated h hn
  refine GlobalScheduler.packable_of_generateSchedule hgen (fun t ht htt _ => ?_) cpu hcpu
  obtain ⟨id, entry, hentry, -, htask⟩ := mem_tasksFor.1 ht
  exact hshort id entry hentry t htask htt

/-! ### Main results -/

/-- **Overflow.**  For an accepted request no sum leaves its range and all slots end in time, iff
the tasks of every CPU can be placed with unbounded integers.  This is always so in the runs without
negative runtimes. -/
theorem inRange_iff_allPackable (G : GlobalScheduler U) :
    (∀ s s' clock clock' request, addSchedInfo G clock clock' s request = (s', 0) →
      (InRange G s'.workloadTasks s.scheduleTables s'.scheduleTables ↔
        AllPackable G (requestedWorkloads G s request) s.scheduleTables)) ∧
    ∀ s, (machine G).ReachableIf RuntimesNonneg s → ∀ s' clock clock' request,
      RuntimesNonneg s (.addSchedInfo clock clock' request) →
      addSchedInfo G clock clock' s request = (s', 0) →
      InRange G s'.workloadTasks s.scheduleTables s'.scheduleTables := by
  refine ⟨fun s s' clock clock' request h => ?_, fun s hs s' clock clock' request hnonneg h => ?_⟩
  · obtain ⟨heq, hreg⟩ := regenerate_of_accepted h
    rw [heq]
    exact inRange_iff hreg
  · obtain ⟨heq, hreg⟩ := regenerate_of_accepted h
    have hs' : (machine G).ReachableIf RuntimesNonneg s' :=
      hs.next hnonneg (show some (addSchedInfo G clock clock' s request).1 = some s' by rw [h])
    have hshort := shortRuntimes_of_reachableIf hs'
    rw [heq] at hshort ⊢
    exact (inRange_iff hreg).2 (hshort.allPackable hreg)

theorem accepted_eq (h : (addSchedInfo G clock clock' s request).2 = 0) :
    addSchedInfo G clock clock' s request = ((addSchedInfo G clock clock' s request).1, 0) :=
  Prod.ext rfl h

/-- The reply to the first request. -/
def submit (request : SchedInfo) : SchedInfoService × ℤ :=
  addSchedInfo singleCpu (fun _ => 0) (fun _ => 0) new request

/-- A task that takes nearly all of the range. -/
def longRequest : SchedInfo := periodicWorkload "a" [("t", -1, -5, 0)]

def shortRequest : SchedInfo := periodicWorkload "b" [("t", 10, 3, 10)]

/-- One long task is in range, and so is a short one. -/
theorem inRange_long_and_short :
    ((submit longRequest).2 = 0 ∧
      AllPackable singleCpu (requestedWorkloads singleCpu new longRequest) new.scheduleTables ∧
      InRange singleCpu (submit longRequest).1.workloadTasks new.scheduleTables
        (submit longRequest).1.scheduleTables) ∧
    (submit shortRequest).2 = 0 ∧
      RuntimesNonneg new (.addSchedInfo (fun _ => 0) (fun _ => 0) shortRequest) ∧
      InRange singleCpu (submit shortRequest).1.workloadTasks new.scheduleTables
        (submit shortRequest).1.scheduleTables := by
  have hlong : (submit longRequest).2 = 0 := by decide +kernel
  have hshort : (submit shortRequest).2 = 0 := by decide +kernel
  have hpackable : AllPackable singleCpu (requestedWorkloads singleCpu new longRequest)
      new.scheduleTables := by decide +kernel
  have hnonneg : RuntimesNonneg new (.addSchedInfo (fun _ => 0) (fun _ => 0) shortRequest) := by
    decide +kernel
  refine ⟨⟨hlong, hpackable, ?_⟩, hshort, hnonneg, ?_⟩
  · exact ((inRange_iff_allPackable singleCpu).1 new _ _ _ _ (accepted_eq hlong)).2 hpackable
  · exact (inRange_iff_allPackable singleCpu).2 new (.of_init rfl) _ _ _ _ hnonneg
      (accepted_eq hshort)

/-- A negative runtime behind a short task. -/
def wrappedRequest : SchedInfo := periodicWorkload "a" [("t1", -1, 10, 100), ("t2", -1, -5, 0)]

/-- **A slot that wraps**: `t2` starts at 10, and its end at `2 ^ 32 + 5`, beyond the hyperperiod,
is taken for 5. -/
theorem not_inRange_negative :
    (submit wrappedRequest).2 = 0 ∧
      2 ^ 32 + 5 ∈ singleCpu.generationSums (text "n")
        (tasksFor (submit wrappedRequest).1.workloadTasks (text "n")) ∧
      (∃ table, (submit wrappedRequest).1.scheduleTables[text "n"]? = some table ∧
        (table.layers.flatMap (·.ttSlots)).map (fun slot => (slot.offsetUs, slot.durationUs)) =
          [(0, 10), (10, 2 ^ 32 - 5)]) ∧
      GlobalScheduler.lcmPeriods (singleCpu.ttOn (text "n")
        (tasksFor (submit wrappedRequest).1.workloadTasks (text "n")) 2) = 2 ^ 32 - 1 ∧
      ¬ InRange singleCpu (submit wrappedRequest).1.workloadTasks new.scheduleTables
        (submit wrappedRequest).1.scheduleTables := by
  have hsum : 2 ^ 32 + 5 ∈ singleCpu.generationSums (text "n")
      (tasksFor (submit wrappedRequest).1.workloadTasks (text "n")) := by decide +kernel
  have heval : ((submit wrappedRequest).1.scheduleTables[text "n"]?).any (fun table => decide
      ((table.layers.flatMap (·.ttSlots)).map (fun slot => (slot.offsetUs, slot.durationUs)) =
        [(0, 10), (10, 2 ^ 32 - 5)])) = true := by decide +kernel
  obtain ⟨table, htable, hslots⟩ := (Option.any_eq_true _ _).1 heval
  refine ⟨by decide +kernel, hsum, ⟨table, htable, of_decide_eq_true hslots⟩, by decide +kernel,
    fun h => ?_⟩
  exact absurd (h.sums (text "n") (by decide +kernel) _ hsum) (by decide)

end SchedInfoService

end Timpani
