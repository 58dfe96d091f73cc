import Timpani.Scheduler.Assign
import Mathlib.Data.List.NodupEquivFin

/-!
# Dedicated CPUs

`assign_cpus` walks over the sorted CPUs of the node and over the TT workloads in name order, and
stays at the last CPU when the workloads outnumber the CPUs.  The list of CPUs is sorted but not
freed from duplicates, so a CPU that is configured twice is given to two workloads.

* `dedicatedCpu_highest_or_repeated` : two workloads on one CPU are both on the highest one, or have
  got two entries of the same CPU;
* `dedicated_iff` : **the workloads are kept apart iff no CPU but the highest is configured twice**
  among the entries the walk gets to;
* `not_dedicated_duplicate` : two workloads and three CPU entries, one of them repeated.
-/

namespace Timpani

namespace GlobalScheduler

/-- The workloads of `tt` are kept apart on the CPUs `cpus`: all tasks of a workload run on one
CPU, and two workloads share a CPU only if there are more workloads than CPUs, and then the highest
one. -/
structure Dedicated (cpus : List ℤ) (tt : List ClassifiedTask) : Prop where
  together : ∀ t ∈ tt, ∀ t' ∈ tt, t.workloadId = t'.workloadId → t.assignedCpu = t'.assignedCpu
  shared : ∀ t ∈ tt, ∀ t' ∈ tt, t.workloadId ≠ t'.workloadId → t.assignedCpu = t'.assignedCpu →
    (stdSet cpus).length < (ttWorkloadIds tt).length ∧ ∀ c ∈ cpus, c ≤ t.assignedCpu

/-! ### Walking over sorted CPUs -/

section Walk

variable {cpus : List ℤ} {i j : ℕ}

theorem two_le_count_take_iff {m : ℕ} {c : ℤ} :
    2 ≤ (cpus.take m).count c ↔
      ∃ i j, i < j ∧ j < m ∧ ∃ hj : j < cpus.length, ∃ hi : i < cpus.length,
        cpus[i] = c ∧ cpus[j] = c := by
  rw [← List.duplicate_iff_two_le_count, List.duplicate_iff_exists_distinct_get]
  constructor
  · rintro ⟨⟨i, hi⟩, ⟨j, hj⟩, hlt, hci, hcj⟩
    rw [List.length_take] at hi hj
    refine ⟨i, j, hlt, by omega, by omega, by omega, ?_, ?_⟩
    · simpa using hci.symm
    · simpa using hcj.symm
  · rintro ⟨i, j, hlt, hjm, hj, hi, hci, hcj⟩
    refine ⟨⟨i, by rw [List.length_take]; omega⟩, ⟨j, by rw [List.length_take]; omega⟩, hlt, ?_, ?_⟩
    · simpa using hci.symm
    · simpa using hcj.symm

theorem getElem_le_getElem (hsorted : cpus.Pairwise (· ≤ ·)) (hij : i ≤ j) (hj : j < cpus.length) :
    cpus.get ⟨i, by omega⟩ ≤ cpus[j] := by
  rcases hij.eq_or_lt with rfl | hlt
  · exact le_rfl
  · exact List.pairwise_iff_getElem.1 hsorted i j (by omega) hj hlt

theorem length_stdSet_le_of_highest (hsorted : cpus.Pairwise (· ≤ ·)) (hi : i < cpus.length)
    (hmax : ∀ c ∈ cpus, c ≤ cpus[i]) : (stdSet cpus).length ≤ i + 1 := by
  have hsub : stdSet cpus ⊆ cpus.take i ++ [cpus[i]] := by
    intro c hc
    have hc := mem_stdSet.1 hc
    obtain ⟨k, hk, rfl⟩ := List.getElem_of_mem hc
    by_cases hlt : k < i
    · exact List.mem_append_left _ (List.mem_take_iff_getElem.2 ⟨k, by omega, rfl⟩)
    · have hle : cpus[i] ≤ cpus[k] := getElem_le_getElem hsorted (not_lt.1 hlt) hk
      exact List.mem_append_right _ (List.mem_singleton.2 (le_antisymm (hmax _ hc) hle))
  have hle := (List.subperm_of_subset (nodup_stdSet cpus) hsub).length_le
  rw [List.length_append, List.length_take, List.length_singleton] at hle
  omega

theorem le_getElem_last (hsorted : cpus.Pairwise (· ≤ ·)) (hi : i + 1 = cpus.length) :
    ∀ c ∈ cpus, c ≤ cpus[i] := by
  intro c hc
  obtain ⟨k, hk, rfl⟩ := List.getElem_of_mem hc
  exact getElem_le_getElem hsorted (by omega) (by omega)

theorem dedicatedCpu_eq_getElem {ids : List Text} {w : Text}
    (h : min (ids.idxOf w) (cpus.length - 1) < cpus.length) :
    dedicatedCpu cpus ids w = cpus[min (ids.idxOf w) (cpus.length - 1)] := by
  rw [dedicatedCpu, List.getD_eq_getElem _ _ h]

end Walk

variable {cpus : List ℤ} {ids : List Text} {w w' : Text}

/-- **Two workloads on one CPU.** They share the highest CPU, and then they outnumber the CPUs; or
two of their entries name the same CPU. -/
theorem dedicatedCpu_highest_or_repeated (hsorted : cpus.Pairwise (· ≤ ·)) (hne : cpus ≠ [])
    (hw : w ∈ ids) (hw' : w' ∈ ids) (hlt : ids.idxOf w < ids.idxOf w')
    (hcpu : dedicatedCpu cpus ids w = dedicatedCpu cpus ids w') :
    ((stdSet cpus).length < ids.length ∧ ∀ c ∈ cpus, c ≤ dedicatedCpu cpus ids w) ∨
      2 ≤ (cpus.take ids.length).count (dedicatedCpu cpus ids w) := by
  have hpos := List.length_pos_of_ne_nil hne
  have hidx := List.idxOf_lt_length_of_mem hw
  have hidx' := List.idxOf_lt_length_of_mem hw'
  set k := min (ids.idxOf w) (cpus.length - 1) with hk
  set k' := min (ids.idxOf w') (cpus.length - 1) with hk'
  have hget : dedicatedCpu cpus ids w = cpus.get ⟨k, by omega⟩ := dedicatedCpu_eq_getElem _
  have hget' : dedicatedCpu cpus ids w' = cpus.get ⟨k', by omega⟩ := dedicatedCpu_eq_getElem _
  by_cases hlast : k' + 1 = cpus.length
  · -- the later workload is at the end of the list
    left
    have hmax : ∀ c ∈ cpus, c ≤ cpus.get ⟨k, by omega⟩ := by
      rw [← hget, hcpu, hget']
      exact le_getElem_last hsorted hlast
    have hle := length_stdSet_le_of_highest hsorted (by omega) hmax
    exact ⟨by omega, hget ▸ hmax⟩
  · right
    rw [two_le_count_take_iff]
    exact ⟨k, k', by omega, by omega, by omega, by omega, hget.symm, hget'.symm.trans hcpu.symm⟩

theorem dedicatedCpu_getElem (hnodup : ids.Nodup) {k : ℕ} (hk : k < ids.length)
    (hk' : k < cpus.length) : dedicatedCpu cpus ids ids[k] = cpus[k] := by
  have hidx : min (ids.idxOf ids[k]) (cpus.length - 1) = k := by
    rw [hnodup.idxOf_getElem k hk]
    omega
  rw [dedicatedCpu, hidx, List.getD_eq_getElem _ _ hk']

/-- **The walk** keeps the workloads `ids` apart iff no CPU but the highest comes up twice. -/
theorem dedicatedCpu_apart_iff (hsorted : cpus.Pairwise (· ≤ ·)) (hne : cpus ≠ [])
    (hnodup : ids.Nodup) :
    (∀ w ∈ ids, ∀ w' ∈ ids, w ≠ w' → dedicatedCpu cpus ids w = dedicatedCpu cpus ids w' →
        (stdSet cpus).length < ids.length ∧ ∀ c ∈ cpus, c ≤ dedicatedCpu cpus ids w) ↔
      ∀ c ∈ cpus, (∃ c' ∈ cpus, c < c') → (cpus.take ids.length).count c ≤ 1 := by
  constructor
  · rintro hshared c - ⟨c', hc', hlt⟩
    by_contra hcount
    obtain ⟨i, j, hij, hjm, hj, hi, hci, hcj⟩ := two_le_count_take_iff.1 (not_le.1 hcount)
    have hii := dedicatedCpu_getElem hnodup (hij.trans hjm) hi
    have hjj := dedicatedCpu_getElem hnodup hjm hj
    -- the workloads at the two entries of the CPU
    obtain ⟨-, hmax⟩ := hshared _ (List.getElem_mem (hij.trans hjm)) _ (List.getElem_mem hjm)
      (fun heq => hij.ne ((hnodup.getElem_inj_iff).1 heq)) (by rw [hii, hjj, hci, hcj])
    have hle := hmax c' hc'
    rw [hii, hci] at hle
    omega
  · intro hcount w hw w' hw' hww hcpu
    -- of the two workloads, one comes first
    have hcase : ((stdSet cpus).length < ids.length ∧ ∀ c ∈ cpus, c ≤ dedicatedCpu cpus ids w) ∨
        2 ≤ (cpus.take ids.length).count (dedicatedCpu cpus ids w) := by
      rcases lt_trichotomy (ids.idxOf w) (ids.idxOf w') with hlt | heq | hgt
      · exact dedicatedCpu_highest_or_repeated hsorted hne hw hw' hlt hcpu
      · exact absurd (List.idxOf_inj hw |>.1 heq) hww
      · rw [hcpu]
        exact dedicatedCpu_highest_or_repeated hsorted hne hw' hw hgt hcpu.symm
    rcases hcase with hhigh | htwice
    · exact hhigh
    · by_contra hnot
      have hhigh : ∃ c' ∈ cpus, dedicatedCpu cpus ids w < c' := by
        obtain ⟨i, j, hij, hjm, hj, hi, hci, hcj⟩ := two_le_count_take_iff.1 htwice
        by_contra hnone
        push Not at hnone
        have hle := length_stdSet_le_of_highest hsorted hi (hci ▸ hnone)
        exact hnot ⟨by omega, hnone⟩
      have hone := hcount _ (dedicatedCpu_mem hne ids w) hhigh
      omega

variable {U : Type} [Floating U] {G : GlobalScheduler U} {nodeId : Text}
  {tt cbs : List ClassifiedTask} {a : Assignment U}

omit [Floating U] in
theorem pairwise_availableCpus (G : GlobalScheduler U) (nodeId : Text) :
    (G.availableCpus nodeId).Pairwise (· ≤ ·) :=
  (G.stdSort.sorted StrictWeak.of_lt _).imp fun h => by simpa using h

/-- **Dedicated CPUs.** The TT workloads of a node are kept apart iff no CPU but the highest occurs
twice among the first entries of the sorted list of CPUs, as many as there are TT workloads. -/
theorem dedicated_iff (h : G.assignCpus nodeId tt cbs = .ok a) :
    Dedicated (G.availableCpus nodeId) a.ttTasks ↔
      ∀ c ∈ G.availableCpus nodeId, (∃ c' ∈ G.availableCpus nodeId, c < c') →
        ((G.availableCpus nodeId).take (ttWorkloadIds tt).length).count c ≤ 1 := by
  rw [← dedicatedCpu_apart_iff (G.pairwise_availableCpus nodeId) (G.availableCpus_ne_nil nodeId)
    (nodup_ttWorkloadIds tt), ttTasks_assignCpus h]
  set onDedicated := fun t : ClassifiedTask =>
    t.onCpu (dedicatedCpu (G.availableCpus nodeId) (ttWorkloadIds tt) t.workloadId)
  have hids : ttWorkloadIds (tt.map onDedicated) = ttWorkloadIds tt := by
    rw [ttWorkloadIds, List.map_map]
    rfl
  constructor
  · rintro ⟨-, hshared⟩ w hw w' hw' hne hcpu
    obtain ⟨t, ht, rfl⟩ := mem_ttWorkloadIds.1 hw
    obtain ⟨t', ht', rfl⟩ := mem_ttWorkloadIds.1 hw'
    rw [hids] at hshared
    exact hshared _ (List.mem_map_of_mem ht) _ (List.mem_map_of_mem ht') hne hcpu
  · intro hshared
    refine ⟨?_, ?_⟩
    · simp only [List.forall_mem_map]
      intro t _ t' _ hwl
      exact congrArg (dedicatedCpu (G.availableCpus nodeId) (ttWorkloadIds tt)) hwl
    · simp only [List.forall_mem_map, hids]
      intro t ht t' ht' hne hcpu
      exact hshared _ (mem_ttWorkloadIds.2 ⟨t, ht, rfl⟩) _ (mem_ttWorkloadIds.2 ⟨t', ht', rfl⟩)
        hne hcpu

/-- The scheduler of a node `n` with the given CPUs. -/
def nodeWithCpus (cpus : List ℤ) : GlobalScheduler ℚ where
  stdSort := insertionStdSort
  nodeConfigManager := some {
    nodes := .ofList [(text "n", NodeConfig.mk (text "n") cpus 4096 (text "aarch64") [] [])]
    loaded := true }

/-- Two TT workloads of one task each. -/
def twoTtWorkloads : List ClassifiedTask :=
  [.periodic (text "a") (text "t") 10 1 10, .periodic (text "b") (text "t") 10 1 10]

/-- Two workloads and two CPUs, the higher of them configured twice. -/
theorem dedicated_twoTtWorkloads :
    ∃ a, (nodeWithCpus [3, 2, 3]).assignCpus (text "n") twoTtWorkloads [] = .ok a ∧
      Dedicated ((nodeWithCpus [3, 2, 3]).availableCpus (text "n")) a.ttTasks := by
  have hrun : ((nodeWithCpus [3, 2, 3]).assignCpus (text "n") twoTtWorkloads []).toOption.isSome =
      true := by decide +kernel
  obtain ⟨a, h⟩ := Option.isSome_iff_exists.1 hrun
  have h := toOption_eq_some.1 h
  exact ⟨a, h, (dedicated_iff h).2 (by decide +kernel)⟩

/-- **A CPU that is configured twice** is given to two workloads, while CPU 3 stays free. -/
theorem not_dedicated_duplicate :
    ∃ a, (nodeWithCpus [2, 2, 3]).assignCpus (text "n") twoTtWorkloads [] = .ok a ∧
      a.ttTasks.map (·.assignedCpu) = [2, 2] ∧
      ¬ Dedicated ((nodeWithCpus [2, 2, 3]).availableCpus (text "n")) a.ttTasks := by
  have hrun : ((nodeWithCpus [2, 2, 3]).assignCpus (text "n") twoTtWorkloads []).toOption.any
      (fun a => decide (a.ttTasks.map (·.assignedCpu) = [2, 2] ∧ ∃ t ∈ a.ttTasks,
        ∃ t' ∈ a.ttTasks, t.workloadId ≠ t'.workloadId ∧ t.assignedCpu = t'.assignedCpu ∧
          t.assignedCpu = 2)) = true := by decide +kernel
  obtain ⟨a, h, htt⟩ := (Option.any_eq_true _ _).1 hrun
  obtain ⟨htt, t, ht, t', ht', hne, hcpu, htwo⟩ := of_decide_eq_true htt
  refine ⟨a, toOption_eq_some.1 h, htt, fun hded => ?_⟩
  have hle := (hded.shared t ht t' ht' hne hcpu).2 3 (by decide +kernel)
  omega

end GlobalScheduler

end Timpani
