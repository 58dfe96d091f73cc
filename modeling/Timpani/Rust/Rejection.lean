import Timpani.Rust.Placement
import Mathlib.Algebra.Order.BigOperators.Group.List
import Mathlib.Algebra.Order.Field.Rat
import Mathlib.Tactic.Linarith

/-!
# Rejections of the Rust scheduler

Under `least_loaded` and `best_fit_decreasing`, with exact utilisations, a task is rejected only
where no node has room for it.  Both searches compare the nodes that can take the task with a bound of their own, the largest
floating-point number and the number of CPUs.  Neither bound excludes a node: no CPU is loaded
beyond 90 %, so the load of a node stays below the number of its CPUs.

* `sum_values_add_le` : the sum of a table of loads, one of which has room for more;
* `GlobalScheduler.calculateNodeUtilization_add_le` : the load of a node that can take a task;
* `GlobalScheduler.noSchedulableNode_justified` : a rejected task fits nowhere.
-/

namespace Timpani.Rust

/-! ### Sums of tables -/

section Sums

variable {κ : Type} [Ord κ] [Std.TransOrd κ] [Std.LawfulEqOrd κ]

omit [Std.LawfulEqOrd κ] in
theorem values_eq_map_snd_toList {β : Type} (m : Std.ExtTreeMap κ β) :
    m.values = m.toList.map Prod.snd := by
  rcases m with ⟨⟨t⟩⟩
  induction t using Quotient.inductionOn with
  | h t =>
    change t.inner.values = (Std.DTreeMap.Internal.Impl.Const.toList t.inner).map Prod.snd
    rw [Std.DTreeMap.Internal.Impl.values_eq_map_snd,
      Std.DTreeMap.Internal.Impl.Const.toList_eq_toListModel_map]
    simp

/-- A table of loads within a bound: the sum, where one of them has room for `u` more. -/
theorem sum_values_add_le {m : Std.ExtTreeMap κ ℚ} {c : κ} {v u bound : ℚ} (hc : m[c]? = some v)
    (hroom : v + u ≤ bound) (hle : ∀ (k : κ) (w : ℚ), m[k]? = some w → w ≤ bound) :
    m.values.sum + u ≤ m.size * bound := by
  have hsum : ∀ l : List (κ × ℚ), (∀ e ∈ l, e ∈ m.toList) →
      (l.map Prod.snd).sum ≤ l.length * bound := by
    intro l hl
    have hbound := List.sum_le_card_nsmul (l.map Prod.snd) bound fun w hw => by
      obtain ⟨e, he, rfl⟩ := List.mem_map.1 hw
      exact hle e.1 e.2 (Std.ExtTreeMap.mem_toList_iff_getElem?_eq_some.1 (hl e he))
    rwa [List.length_map, nsmul_eq_mul] at hbound
  obtain ⟨l₁, l₂, hl⟩ := List.append_of_mem (Std.ExtTreeMap.mem_toList_iff_getElem?_eq_some.2 hc)
  have h₁ := hsum l₁ fun e he => hl ▸ List.mem_append_left _ he
  have h₂ := hsum l₂ fun e he => hl ▸ List.mem_append_right _ (List.mem_cons_of_mem _ he)
  have hsize : m.size = l₁.length + l₂.length + 1 := by
    rw [← Std.ExtTreeMap.length_toList, hl, List.length_append, List.length_cons]
    rfl
  rw [values_eq_map_snd_toList, hl, hsize]
  simp only [List.map_append, List.map_cons, List.sum_append, List.sum_cons]
  push_cast
  linarith

theorem sum_values_nonneg {m : Std.ExtTreeMap κ ℚ} (h : ∀ (k : κ) (w : ℚ), m[k]? = some w → 0 ≤ w) :
    0 ≤ m.values.sum := by
  rw [values_eq_map_snd_toList]
  refine List.sum_nonneg fun w hw => ?_
  obtain ⟨e, he, rfl⟩ := List.mem_map.1 hw
  exact h e.1 e.2 (Std.ExtTreeMap.mem_toList_iff_getElem?_eq_some.1 he)

theorem size_le_length {β : Type} {m : Std.ExtTreeMap κ β} {l : List κ} (h : ∀ k ∈ m, k ∈ l) :
    m.size ≤ l.length := by
  rw [← Std.ExtTreeMap.length_keys]
  exact (List.subperm_of_subset Std.ExtTreeMap.nodup_keys
    fun k hk => h k (Std.ExtTreeMap.mem_keys.1 hk)).length_le

end Sums

namespace GlobalScheduler

variable {G : GlobalScheduler ℚ} {algorithm : Text} {tasks : List Task} {task : Task}
  {pass pass' : Pass ℚ} {ps : List Placement}

/-! ### Tables of utilisations -/

/-- The table has an entry for every CPU of every node, and for no other CPU of the node. -/
def Tracked (G : GlobalScheduler ℚ) (util : CpuUtil ℚ) : Prop :=
  ∀ (nodeId : Text) (cpus : List UInt32), G.buildAvailableCpus[nodeId]? = some cpus →
    ∃ m, util[nodeId]? = some m ∧ ∀ cpu, cpu ∈ m ↔ cpu ∈ cpus

theorem tracked_buildCpuUtilization : G.Tracked (buildCpuUtilization G.buildAvailableCpus) := by
  intro nodeId cpus hcpus
  refine ⟨cpus.foldl (fun m c => m.insert c (Floating.ofDecimal 0 0)) ∅, ?_, fun cpu => ?_⟩
  · rw [buildCpuUtilization, Std.ExtTreeMap.getElem?_map, hcpus]
    rfl
  · have hfold : ∀ (l : List UInt32) (m : Std.ExtTreeMap UInt32 ℚ),
        cpu ∈ l.foldl (fun m c => m.insert c (Floating.ofDecimal 0 0)) m ↔ cpu ∈ m ∨ cpu ∈ l := by
      intro l
      induction l with
      | nil => simp
      | cons c l ih =>
        intro m
        rw [List.foldl_cons, ih, Std.ExtTreeMap.mem_insert, Std.LawfulEqOrd.compare_eq_iff_eq,
          List.mem_cons, eq_comm (a := c)]
        tauto
    simpa using hfold cpus ∅

theorem Tracked.place (h : G.Tracked pass.util) (hstep : G.Places algorithm pass task pass') :
    G.Tracked pass'.util := by
  obtain ⟨nodeId, cpu, hcpu, -, rfl⟩ := hstep
  obtain ⟨cpus, hcpus, hmem, -⟩ := of_findBestCpuForTask hcpu
  obtain ⟨m, hm, hkeys⟩ := h nodeId cpus hcpus
  intro n cpus' hcpus'
  change ∃ m', (pass.util.insert nodeId ((pass.util.getD nodeId ∅).insert cpu _))[n]? = some m' ∧ _
  by_cases hn : nodeId = n
  · subst hn
    cases hcpus.symm.trans hcpus'
    refine ⟨_, Std.ExtTreeMap.getElem?_insert_self, fun c => ?_⟩
    rw [Std.ExtTreeMap.getD_eq_getD_getElem?, hm, Option.getD_some, Std.ExtTreeMap.mem_insert,
      Std.LawfulEqOrd.compare_eq_iff_eq, hkeys]
    exact or_iff_right_of_imp fun h => h ▸ hmem
  · obtain ⟨m', hm', hkeys'⟩ := h n cpus' hcpus'
    refine ⟨m', ?_, hkeys'⟩
    simp only [Std.ExtTreeMap.getElem?_insert, Std.LawfulEqOrd.compare_eq_iff_eq, hn, if_false, hm']

theorem calculateNodeUtilization_eq (util : CpuUtil ℚ) (nodeId : Text) :
    calculateNodeUtilization util nodeId = (util[nodeId]?.map fun m => m.values.sum).getD 0 := by
  unfold calculateNodeUtilization
  simp only [Floating.ofDecimal_zero, List.sum_eq_foldl]
  rfl

/-- **The load of a node** on which one CPU has room for `u` more: every CPU is within 90 %. -/
theorem calculateNodeUtilization_add_le (hplaced : G.Placed algorithm tasks pass ps)
    (htracked : G.Tracked pass.util) {nodeId : Text} {cpus : List UInt32} {cpu : UInt32} {u : ℚ}
    (hcpus : G.buildAvailableCpus[nodeId]? = some cpus) (hcpu : cpu ∈ cpus)
    (hroom : load (Task.utilization (U := ℚ)) ps (nodeId, cpu) + u ≤ cpuUtilizationThreshold) :
    ∃ n : ℕ, n ≤ cpus.length ∧ n ≤ 2 ^ 32 ∧
      calculateNodeUtilization pass.util nodeId + u ≤ n * cpuUtilizationThreshold := by
  obtain ⟨m, hm, hkeys⟩ := htracked nodeId cpus hcpus
  have hload : ∀ (c : UInt32) w, m[c]? = some w → w = load (Task.utilization (U := ℚ)) ps (nodeId, c) := by
    intro c w hw
    rw [← utilizationOn_eq_load, ← hplaced.util_eq, calculateCpuUtilization, hm, Option.bind_some,
      hw]
    rfl
  have hall : ∀ k ∈ m, k ∈ (List.range (2 ^ 32)).map UInt32.ofNat := fun k _ =>
    List.mem_map.2 ⟨k.toNat, List.mem_range.2 k.toNat_lt, UInt32.ofNat_toNat⟩
  refine ⟨m.size, size_le_length fun k hk => (hkeys k).1 hk, ?_, ?_⟩
  · refine (size_le_length hall).trans (le_of_eq ?_)
    rw [List.length_map, List.length_range]
  · obtain ⟨v, hv⟩ := Std.ExtTreeMap.isSome_getElem?_iff_mem.2 ((hkeys cpu).2 hcpu) |>
      Option.isSome_iff_exists.1
    rw [calculateNodeUtilization_eq, hm, Option.map_some, Option.getD_some]
    refine sum_values_add_le hv (hload cpu v hv ▸ hroom) fun k w hw => ?_
    rw [hload k w hw, cpuUtilizationThreshold_eq]
    exact hplaced.load_le _

theorem calculateNodeUtilization_nonneg (hplaced : G.Placed algorithm tasks pass ps)
    (nodeId : Text) : 0 ≤ calculateNodeUtilization pass.util nodeId := by
  rw [calculateNodeUtilization_eq]
  cases hm : pass.util[nodeId]? with
  | none => exact le_rfl
  | some m =>
    refine sum_values_nonneg fun k w hw => ?_
    have hload := hplaced.util_eq nodeId k
    rw [calculateCpuUtilization, hm, Option.bind_some, hw, Option.getD_some,
      utilizationOn_eq_load] at hload
    rw [hload]
    refine List.sum_nonneg fun v hv => ?_
    obtain ⟨p, -, rfl⟩ := List.mem_map.1 hv
    exact Floating.ratio_nonneg _ _

/-! ### Nodes -/

section Nodes

variable {avail : AvailCpus} {util : CpuUtil ℚ} {nodeId : Text} {cpus : List UInt32}

/-- A search that ends without a result has kept its start all the time, if finding something is
the only change a step makes. -/
theorem foldl_keeps_none {α β γ : Type} {step : Option γ × β → α → Option γ × β}
    (hstep : ∀ best a, step best a = best ∨ (step best a).1 ≠ none) {l : List α}
    {best : Option γ × β} (h : (l.foldl step best).1 = none) :
    best.1 = none ∧ ∀ a ∈ l, step best a = best := by
  induction l generalizing best with
  | nil => exact ⟨h, fun a ha => absurd ha List.not_mem_nil⟩
  | cons a l ih =>
    obtain ⟨hnone, hrest⟩ := ih h
    obtain hkeep | hfound := hstep best a
    · rw [hkeep] at hnone hrest
      exact ⟨hnone, List.forall_mem_cons.2 ⟨hkeep, hrest⟩⟩
    · exact absurd hnone hfound

/-- Where no node is found, none of those that can take the task is better than the start. -/
theorem better_eq_none {better : Text → List UInt32 → ℚ → Option ℚ} {start : ℚ}
    (h : G.findBestNode task avail util better start = none) (hcpus : avail[nodeId]? = some cpus)
    (hne : cpus ≠ []) (heligible : G.eligible task avail util nodeId = true) :
    better nodeId cpus start = none := by
  have hmem : (nodeId, cpus) ∈ avail.toList :=
    Std.ExtTreeMap.mem_toList_iff_getElem?_eq_some.2 hcpus
  have hkeep := foldl_keeps_none ?_ h
  · have hnode := hkeep.2 _ hmem
    dsimp only at hnode
    rw [if_neg (by simp [hne, heligible])] at hnode
    cases hbetter : better nodeId cpus start with
    | none => rfl
    | some value =>
      rw [hbetter] at hnode
      cases congrArg Prod.fst hnode
  · rintro best ⟨n, cs⟩
    dsimp only
    split_ifs
    · exact .inl rfl
    · cases better n cs best.2 with
      | none => exact .inl rfl
      | some value => exact .inr (Option.some_ne_none n)

theorem isSome_findBestCpuForTask {cpu : UInt32} (hcpus : avail[nodeId]? = some cpus)
    (hcpu : cpu ∈ cpus) (hfits : fits task nodeId util cpu = true) :
    (findBestCpuForTask G.stdSort task nodeId avail util).isSome = true := by
  have hpacked : ((G.stdSort.sort (fun a b => b < a) cpus).find?
      (fits task nodeId util)).isSome = true :=
    List.find?_isSome.2 ⟨cpu,
      (G.stdSort.perm StrictWeak.of_uint32_lt.swap cpus).mem_iff.2 hcpu, hfits⟩
  unfold findBestCpuForTask
  rw [hcpus]
  cases task.affinity with
  | any => exact hpacked
  | pinned mask =>
    dsimp only [Option.bind_eq_bind, Option.bind_some]
    split_ifs
    · rfl
    · exact hpacked

end Nodes

/-! ### Algorithms -/

/-- The algorithms that search for a node. -/
def Searches (algorithm : Text) : Prop :=
  algorithm = text "least_loaded" ∨ algorithm = text "best_fit_decreasing"

/-- Their searches. -/
def findBestNodeOf (G : GlobalScheduler ℚ) (algorithm : Text) :
    Task → AvailCpus → CpuUtil ℚ → Option Text :=
  if algorithm = text "least_loaded" then G.findBestNodeLeastLoaded
  else G.findBestNodeBestFitDecreasing

/-- The order in which they take the tasks. -/
def processingOrder (G : GlobalScheduler ℚ) (algorithm : Text) (tasks : List Task) : List Task :=
  if algorithm = text "least_loaded" then tasks
  else G.stdSort.sort (fun a b => b.runtimeUs < a.runtimeUs) tasks

/-- What they have done after the first tasks of that order. -/
def passAfter (G : GlobalScheduler ℚ) (algorithm : Text) (before : List Task) :
    Except SchedulerError (Pass ℚ) :=
  before.foldlM (G.placeOnBestNode (G.findBestNodeOf algorithm) G.buildAvailableCpus)
    ⟨[], buildCpuUtilization G.buildAvailableCpus, []⟩

theorem assign_eq_passAfter (halgorithm : Searches algorithm) (hne : tasks ≠ [])
    (hloaded : G.nodeConfigManager.loaded = true) :
    G.assign tasks algorithm = G.passAfter algorithm (G.processingOrder algorithm tasks) := by
  have htarget : text "least_loaded" ≠ text "target_node_priority" := by decide
  have htarget' : text "best_fit_decreasing" ≠ text "target_node_priority" := by decide
  have hleast : text "best_fit_decreasing" ≠ text "least_loaded" := by decide
  unfold assign
  rw [if_neg hne, if_neg (by simp [hloaded])]
  rcases halgorithm with rfl | rfl
  · simp only [if_neg htarget, if_true, passAfter, processingOrder, findBestNodeOf]
    rfl
  · simp only [if_neg htarget', if_neg hleast, if_true, passAfter, processingOrder, findBestNodeOf]
    rfl

theorem eligible_of_findBestNodeOf {avail : AvailCpus} {util : CpuUtil ℚ} {nodeId : Text}
    (h : G.findBestNodeOf algorithm task avail util = some nodeId) :
    G.eligible task avail util nodeId = true := by
  unfold findBestNodeOf at h
  split_ifs at h
  · exact eligible_of_findBestNode h
  · exact eligible_of_findBestNodeBestFitDecreasing h

theorem exists_placed_of_passAfter (halgorithm : Searches algorithm)
    (h : G.passAfter algorithm tasks = .ok pass) :
    ∃ ps, G.Placed algorithm tasks pass ps ∧ G.Tracked pass.util := by
  have htarget : algorithm ≠ text "target_node_priority" := by
    rcases halgorithm with rfl | rfl <;> decide
  refine foldlM_ok_induction
    (motive := fun done pass => ∃ ps, G.Placed algorithm done pass ps ∧ G.Tracked pass.util) h
    ⟨[], .nil, tracked_buildCpuUtilization⟩ ?_
  rintro done task pass pass' - ⟨ps, hplaced, htracked⟩ hok
  have hplaces := places_of_placeOnBestNode (fun _ => eligible_of_findBestNodeOf) htarget hok
  obtain ⟨bin, hplaced⟩ := hplaced.place hplaces
  exact ⟨ps ++ [(task, bin)], hplaced, htracked.place hplaces⟩

theorem calculateNodeUtilization_add_le_length (hplaced : G.Placed algorithm tasks pass ps)
    (htracked : G.Tracked pass.util) {nodeId : Text} {cpus : List UInt32} {cpu : UInt32} {u : ℚ}
    (hcpus : G.buildAvailableCpus[nodeId]? = some cpus) (hcpu : cpu ∈ cpus)
    (hroom : load (Task.utilization (U := ℚ)) ps (nodeId, cpu) + u ≤ cpuUtilizationThreshold) :
    calculateNodeUtilization pass.util nodeId + u ≤ cpus.length := by
  obtain ⟨n, hn, -, hle⟩ := calculateNodeUtilization_add_le hplaced htracked hcpus hcpu hroom
  have hn' : (n : ℚ) ≤ cpus.length := Nat.cast_le.2 hn
  have hpos : (0 : ℚ) ≤ n := Nat.cast_nonneg n
  rw [cpuUtilizationThreshold_eq] at hle
  linarith

/-- **One rejection**: no node that admits the task has a CPU with room. -/
theorem threshold_lt_of_findBestNodeOf_eq_none (hplaced : G.Placed algorithm tasks pass ps)
    (htracked : G.Tracked pass.util)
    (hnone : G.findBestNodeOf algorithm task G.buildAvailableCpus pass.util = none)
    {nodeId : Text} {cfg : NodeConfig} (hcfg : G.nodeConfigManager.nodes[nodeId]? = some cfg)
    (hadmission : G.checkAdmission task nodeId G.buildAvailableCpus = .ok ()) {cpu : UInt32}
    (hcpu : cpu ∈ cfg.availableCpus) :
    cpuUtilizationThreshold < load (Task.utilization (U := ℚ)) ps (nodeId, cpu) + task.utilization := by
  by_contra hroom
  rw [not_lt] at hroom
  have hcpus : G.buildAvailableCpus[nodeId]? = some cfg.availableCpus := by
    rw [buildAvailableCpus, Std.ExtTreeMap.getElem?_map, hcfg]
    rfl
  have hne : cfg.availableCpus ≠ [] := List.ne_nil_of_mem hcpu
  have hfits : fits task nodeId pass.util cpu = true := by
    refine decide_eq_true ?_
    rw [hplaced.util_eq, utilizationOn_eq_load]
    exact hroom
  have heligible : G.eligible task G.buildAvailableCpus pass.util nodeId = true := by
    rw [eligible, hadmission, isSome_findBestCpuForTask hcpus hcpu hfits]
    rfl
  have hnonneg := calculateNodeUtilization_nonneg hplaced nodeId
  have hutil : (0 : ℚ) ≤ task.utilization := Floating.ratio_nonneg _ _
  unfold findBestNodeOf at hnone
  split_ifs at hnone
  · -- the largest floating-point number is beyond the load of any node
    have hbetter := better_eq_none hnone hcpus hne heligible
    obtain ⟨n, -, hn, hle⟩ := calculateNodeUtilization_add_le hplaced htracked hcpus hcpu hroom
    have hn' : (n : ℚ) ≤ 2 ^ 32 := by exact_mod_cast hn
    have hlt : calculateNodeUtilization pass.util nodeId < f64Max := by
      have hmax : (2 : ℚ) ^ 32 < f64Max := by decide +kernel
      rw [cpuUtilizationThreshold_eq] at hle
      linarith
    simp [Floating.lt, hlt] at hbetter
  · unfold findBestNodeBestFitDecreasing at hnone
    split_ifs at hnone
    have hbetter := better_eq_none hnone hcpus hne heligible
    have hle := calculateNodeUtilization_add_le_length hplaced htracked hcpus hcpu hroom
    have hgt : (Floating.ofDecimal (-1) 0 : ℚ) <
        calculateNodeUtilization pass.util nodeId + task.utilization := by
      norm_num [Floating.ofDecimal]
      linarith
    simp only at hbetter
    rw [if_pos ⟨decide_eq_true hle, decide_eq_true hgt⟩] at hbetter
    cases hbetter

/-- **Rejections are justified.**  A task rejected by one of the algorithms that search for a node
fits nowhere: with the tasks that come before it in the order of the algorithm packed as they are,
no configured node admits it and has a CPU with room.  And the comparison with the number of CPUs
never excludes a node on which a CPU is found. -/
theorem noSchedulableNode_justified (G : GlobalScheduler ℚ) (tasks : List Task) {algorithm : Text}
    (halgorithm : Searches algorithm) :
    (∀ name, G.schedule tasks algorithm = .error (.noSchedulableNode name) →
      ∃ before task after pass ps, G.processingOrder algorithm tasks = before ++ task :: after ∧
        task.name = name ∧ G.passAfter algorithm before = .ok pass ∧
        G.Placed algorithm before pass ps ∧
        ∀ nodeId cfg, G.nodeConfigManager.nodes[nodeId]? = some cfg →
          G.checkAdmission task nodeId G.buildAvailableCpus = .ok () →
          ∀ cpu ∈ cfg.availableCpus,
            9 / 10 < load (Task.utilization (U := ℚ)) ps (nodeId, cpu) + task.utilization) ∧
    ∀ before task after pass, G.processingOrder algorithm tasks = before ++ task :: after →
      G.passAfter algorithm before = .ok pass →
      ∀ nodeId cpus cpu, G.buildAvailableCpus[nodeId]? = some cpus →
        findBestCpuForTask G.stdSort task nodeId G.buildAvailableCpus pass.util = some cpu →
        calculateNodeUtilization pass.util nodeId + task.utilization ≤ cpus.length := by
  constructor
  · intro name h
    have hassign : G.assign tasks algorithm = .error (.noSchedulableNode name) := by
      unfold schedule at h
      cases hassign : G.assign tasks algorithm with
      | ok pass => simp [hassign, Except.map] at h
      | error e =>
        rw [hassign] at h
        exact congrArg _ (Except.error.inj h)
    have hne : tasks ≠ [] := by
      rintro rfl
      cases hassign
    have hloaded : G.nodeConfigManager.loaded = true := by
      refine Bool.eq_true_of_not_eq_false fun hloaded => ?_
      rw [assign, if_neg hne, if_pos hloaded] at hassign
      cases hassign
    rw [assign_eq_passAfter halgorithm hne hloaded] at hassign
    obtain ⟨before, task, after, pass, horder, hpass, hstep⟩ := exists_of_foldlM_eq_error hassign
    obtain ⟨ps, hplaced, htracked⟩ := exists_placed_of_passAfter halgorithm hpass
    unfold placeOnBestNode at hstep
    cases hnode : G.findBestNodeOf algorithm task G.buildAvailableCpus pass.util with
    | some nodeId =>
      obtain ⟨cpu, hcpu⟩ := Option.isSome_iff_exists.1
        (Bool.and_eq_true_iff.1 (eligible_of_findBestNodeOf hnode)).2
      simp [hnode, hcpu] at hstep
    | none =>
      simp only [hnode, Except.error.injEq, SchedulerError.noSchedulableNode.injEq] at hstep
      refine ⟨before, task, after, pass, ps, horder, hstep, hpass, hplaced, ?_⟩
      intro nodeId cfg hcfg hadmission cpu hcpu
      rw [← cpuUtilizationThreshold_eq]
      exact threshold_lt_of_findBestNodeOf_eq_none hplaced htracked hnode hcfg hadmission hcpu
  · intro before task after pass _ hpass nodeId cpus cpu hcpus hcpu
    obtain ⟨ps, hplaced, htracked⟩ := exists_placed_of_passAfter halgorithm hpass
    obtain ⟨cpus', hcpus', hmem, hfits⟩ := of_findBestCpuForTask hcpu
    cases hcpus.symm.trans hcpus'
    refine calculateNodeUtilization_add_le_length hplaced htracked hcpus hmem ?_
    rw [← utilizationOn_eq_load, ← hplaced.util_eq]
    exact of_decide_eq_true hfits

/-- Three tasks take half of a CPU each, which leaves no room for the fourth. -/
def fourHalves : List Task :=
  [text "a", text "b", text "c", text "d"].map fun name => halfTask name [] .any

theorem fourHalves_justified :
    twoNodes.schedule fourHalves (text "least_loaded") = .error (.noSchedulableNode (text "d")) ∧
      ∃ before task after pass ps,
        twoNodes.processingOrder (text "least_loaded") fourHalves = before ++ task :: after ∧
        task.name = text "d" ∧ twoNodes.passAfter (text "least_loaded") before = .ok pass ∧
        twoNodes.Placed (text "least_loaded") before pass ps ∧
        ∀ nodeId cfg, twoNodes.nodeConfigManager.nodes[nodeId]? = some cfg →
          twoNodes.checkAdmission task nodeId twoNodes.buildAvailableCpus = .ok () →
          ∀ cpu ∈ cfg.availableCpus,
            9 / 10 < load (Task.utilization (U := ℚ)) ps (nodeId, cpu) + task.utilization := by
  have h : twoNodes.schedule fourHalves (text "least_loaded") =
      .error (.noSchedulableNode (text "d")) := by decide +kernel
  exact ⟨h, (noSchedulableNode_justified twoNodes fourHalves (Or.inl rfl)).1 _ h⟩

end GlobalScheduler

end Timpani.Rust
