import Timpani.Packing.Home
import Timpani.Rust.Placement

/-!
# Tasks on the CPUs they are pinned to

Under `target_node_priority` a task goes to the CPU it is pinned to if there is room, and otherwise
to the highest CPU of its node with room.  A mask of 64 bits cannot pin a task to a CPU beyond 63,
so on a node with such CPUs these are the first ones the other tasks go to.

* `GlobalScheduler.Trace` : the placements, each with the search it comes from;
* `GlobalScheduler.Trace.homeFirst` : the CPU a task is pinned to is its home;
* `GlobalScheduler.Trace.forall_lt_iff` : **when no CPU beyond 63 is used**.
-/

namespace Timpani.Rust

variable {U : Type} [Floating U]

theorem trailingZeros_lt {mask : UInt64} (h : mask ≠ 0) : (trailingZeros mask).toNat < 64 := by
  have hne : mask.toNat ≠ 0 := fun h0 => h (UInt64.toNat_inj.1 h0)
  obtain ⟨i, hi⟩ := Nat.exists_testBit_of_ne_zero hne
  have hi64 : i < 64 := by
    by_contra hge
    have hlt : mask.toNat < 2 ^ i :=
      mask.toNat_lt.trans_le (Nat.pow_le_pow_right (by decide) (Nat.not_lt.1 hge))
    rw [Nat.testBit_lt_two_pow hlt] at hi
    cases hi
  obtain ⟨j, hj⟩ := Option.isSome_iff_exists.1
    (List.find?_isSome.2 ⟨i, List.mem_range.2 hi64, hi⟩)
  have hj64 := List.mem_range.1 (List.mem_of_find?_eq_some hj)
  rw [trailingZeros, hj, Option.map_some, Option.getD_some,
    UInt32.toNat_ofNat_of_lt' (show j < 2 ^ 32 by omega)]
  exact hj64

namespace GlobalScheduler

variable {G : GlobalScheduler U} {tasks : List Task} {pass : Pass U} {ps : List Placement}
  {p : Placement}

/-- How a placement was found, after those before it. -/
structure Chosen (G : GlobalScheduler U) (ps : List Placement) (p : Placement) : Prop where
  node_eq : p.2.1 = p.1.targetNode
  node_ne : p.2.1 ≠ []
  admitted : G.checkAdmission p.1 p.2.1 G.buildAvailableCpus = .ok ()
  found : ∃ util : CpuUtil U, (∀ n c, calculateCpuUtilization util n c = utilizationOn ps (n, c)) ∧
    findBestCpuForTask G.stdSort p.1 p.2.1 G.buildAvailableCpus util = some p.2.2

/-- Placements that were found one after the other. -/
inductive Trace (G : GlobalScheduler U) : List Placement → Prop
  | nil : Trace G []
  | snoc {ps : List Placement} {p : Placement} (h : Trace G ps) (hp : G.Chosen ps p) :
      Trace G (ps ++ [p])

theorem exists_trace (h : G.assign tasks (text "target_node_priority") = .ok pass) :
    ∃ ps, G.Placed (text "target_node_priority") tasks pass ps ∧ G.Trace ps := by
  have h : G.scheduleTargetNodePriority tasks G.buildAvailableCpus
      (buildCpuUtilization G.buildAvailableCpus) = .ok pass := by
    unfold assign at h
    split_ifs at h with hne hloaded htarget
    · exact h
    · exact absurd rfl htarget
    · exact absurd rfl htarget
  refine foldlM_ok_induction (motive := fun done pass =>
    ∃ ps, G.Placed (text "target_node_priority") done pass ps ∧ G.Trace ps) h
    ⟨[], Placed.nil, .nil⟩ ?_
  rintro done task pass pass' - ⟨ps, hplaced, htrace⟩ hok
  obtain ⟨hnode, hadmission, cpu, hcpu, rfl⟩ := placeOnTargetNode_eq_ok hok
  exact ⟨_, hplaced.place_at hcpu fun _ => rfl,
    htrace.snoc ⟨rfl, hnode, hadmission, pass.util, hplaced.util_eq, hcpu⟩⟩

/-! ### Homes -/

/-- The CPU a task is pinned to, on its node. -/
def home (t : Task) : Option (Text × UInt32) :=
  match t.affinity with
  | .any => none
  | .pinned mask => some (t.targetNode, trailingZeros mask)

/-- The placements on a node. -/
def onNode (n : Text) (ps : List Placement) : List Placement := ps.filter fun p => p.2.1 = n

theorem mem_onNode {n : Text} : p ∈ onNode n ps ↔ p ∈ ps ∧ p.2.1 = n := by
  rw [onNode, List.mem_filter, decide_eq_true_eq]

theorem utilizationOn_onNode (n : Text) (c : UInt32) :
    (utilizationOn (onNode n ps) (n, c) : U) = utilizationOn ps (n, c) :=
  accumulated_filter (q := fun bin : Text × UInt32 => decide (bin.1 = n)) (decide_eq_true rfl)

theorem withinThreshold_alone [MonotoneFloating U] {bin : Text × UInt32} {task : Task}
    (h : WithinThreshold (addTask (utilizationOn ps bin : U) task)) :
    WithinThreshold (addTask (Floating.ofDecimal 0 0 : U) task) := by
  set pairs := ((ps.filter fun p => p.2 = bin).map Prod.fst).map fun t =>
    (t.runtimeUs, t.periodUs) with hpairs
  have hsum : (utilizationOn ps bin : U) = Floating.ratioSum pairs := by
    rw [utilizationOn, accumulated, Floating.ratioSum, hpairs, List.foldl_map, List.foldl_map,
      List.foldl_map]
    rfl
  rw [hsum] at h
  exact MonotoneFloating.le_of_ratioSum_add_le pairs (task.runtimeUs, task.periodUs) _ h

theorem exists_cons_sort {cpus : List UInt32} (stdSort : StdSort)
    (h : ∃ c ∈ cpus, 64 ≤ c.toNat) :
    ∃ top rest, stdSort.sort (fun a b => b < a) cpus = top :: rest ∧ 64 ≤ top.toNat := by
  obtain ⟨c, hc, hhigh⟩ := h
  have hperm := stdSort.perm StrictWeak.of_uint32_lt.swap cpus
  have hsorted := stdSort.sorted StrictWeak.of_uint32_lt.swap cpus
  have hmem := hperm.mem_iff.2 hc
  cases hsort : stdSort.sort (fun a b => b < a) cpus with
  | nil =>
    rw [hsort] at hmem
    cases hmem
  | cons top rest =>
    refine ⟨top, rest, rfl, ?_⟩
    rw [hsort] at hmem hsorted
    rcases List.mem_cons.1 hmem with rfl | hmem
    · exact hhigh
    · have hle := List.rel_of_pairwise_cons hsorted hmem
      rw [decide_eq_false_iff_not, UInt32.lt_iff_toNat_lt] at hle
      omega

namespace Chosen

variable {cfg : NodeConfig}

theorem search (h : G.Chosen ps p) (hcfg : G.nodeConfigManager.nodes[p.2.1]? = some cfg) :
    let room := fun c => Floating.le (addTask (utilizationOn ps (p.2.1, c) : U) p.1)
      cpuUtilizationThreshold
    let packed := (G.stdSort.sort (fun a b => b < a) cfg.availableCpus).find? room
    room p.2.2 = true ∧ match p.1.affinity with
      | .any => packed = some p.2.2
      | .pinned mask => trailingZeros mask ∈ cfg.availableCpus ∧
          (if room (trailingZeros mask) then some (trailingZeros mask) else packed) =
            some p.2.2 := by
  obtain ⟨util, hutil, hfound⟩ := h.found
  have havail : G.buildAvailableCpus[p.2.1]? = some cfg.availableCpus := by
    rw [buildAvailableCpus, Std.ExtTreeMap.getElem?_map, hcfg]
    rfl
  have hfits : fits p.1 p.2.1 util = fun c =>
      Floating.le (addTask (utilizationOn ps (p.2.1, c) : U) p.1) cpuUtilizationThreshold := by
    funext c
    rw [fits, hutil]
    rfl
  obtain ⟨-, -, -, hroom⟩ := of_findBestCpuForTask hfound
  have hadmitted := h.admitted
  unfold findBestCpuForTask at hfound
  unfold checkAdmission at hadmitted
  rw [havail, Option.bind_eq_bind, Option.bind_some] at hfound
  rw [hcfg] at hadmitted
  rw [hfits] at hroom hfound
  refine ⟨hroom, ?_⟩
  cases haffinity : p.1.affinity with
  | any =>
    rw [haffinity] at hfound
    exact hfound
  | pinned mask =>
    simp only [haffinity] at hfound hadmitted
    split_ifs at hadmitted with hmemory hmem
    rw [Std.ExtTreeMap.getD_eq_getD_getElem?, havail, Option.getD_some] at hmem
    refine ⟨hmem, ?_⟩
    simpa only [hmem, true_and] using hfound

theorem room (h : G.Chosen ps p) (hcfg : G.nodeConfigManager.nodes[p.2.1]? = some cfg) :
    WithinThreshold (addTask (utilizationOn ps p.2 : U) p.1) :=
  (h.search hcfg).1

theorem eq_home (h : G.Chosen ps p) (hcfg : G.nodeConfigManager.nodes[p.2.1]? = some cfg)
    {bin : Text × UInt32} (hhome : home p.1 = some bin)
    (hroom : WithinThreshold (addTask (utilizationOn ps bin : U) p.1)) : p.2 = bin := by
  have hsearch := (h.search hcfg).2
  unfold home at hhome
  cases haffinity : p.1.affinity with
  | any =>
    rw [haffinity] at hhome
    cases hhome
  | pinned mask =>
    rw [haffinity] at hhome hsearch
    cases hhome
    rw [← h.node_eq] at hroom ⊢
    dsimp only at hsearch
    rw [if_pos (show Floating.le _ _ = true from hroom)] at hsearch
    rw [Option.some.inj hsearch.2]

/-- Otherwise it goes to a CPU beyond 63, if the node has one and none of them is in use. -/
theorem high_of_ne_home [MonotoneFloating U] (h : G.Chosen ps p)
    (hcfg : G.nodeConfigManager.nodes[p.2.1]? = some cfg)
    (hhigh : ∃ c ∈ cfg.availableCpus, 64 ≤ c.toNat) (haway : home p.1 ≠ some p.2)
    (hnone : ∀ q ∈ onNode p.2.1 ps, ¬ 64 ≤ q.2.2.toNat) : 64 ≤ p.2.2.toNat := by
  have hsearch := (h.search hcfg).2
  have hpacked : ∀ c, (G.stdSort.sort (fun a b => b < a) cfg.availableCpus).find?
      (fun c => Floating.le (addTask (utilizationOn ps (p.2.1, c) : U) p.1)
        cpuUtilizationThreshold) = some c → 64 ≤ c.toNat := by
    intro c hc
    obtain ⟨top, rest, hsort, htop⟩ := exists_cons_sort G.stdSort hhigh
    have hzero : (utilizationOn ps (p.2.1, top) : U) = Floating.ofDecimal 0 0 := by
      rw [← utilizationOn_onNode]
      refine accumulated_eq_zero fun q hq heq => hnone q hq ?_
      rw [heq]
      exact htop
    have hfits : Floating.le (addTask (utilizationOn ps (p.2.1, top) : U) p.1)
        cpuUtilizationThreshold = true := by
      rw [hzero]
      exact withinThreshold_alone (h.room hcfg)
    rw [hsort, List.find?_cons, hfits] at hc
    rwa [← Option.some.inj hc]
  cases haffinity : p.1.affinity with
  | any =>
    rw [haffinity] at hsearch
    exact hpacked _ hsearch
  | pinned mask =>
    rw [haffinity] at hsearch
    dsimp only at hsearch
    split_ifs at hsearch with hfits
    · refine absurd ?_ haway
      unfold home
      rw [haffinity]
      dsimp only
      rw [← h.node_eq, Option.some.inj hsearch.2]
    · exact hpacked _ hsearch.2

end Chosen

namespace Trace

variable {n : Text} {cfg : NodeConfig}

theorem node_spec (h : G.Trace ps) : ∀ p ∈ ps, p.2.1 = p.1.targetNode ∧ p.2.1 ≠ [] := by
  induction h with
  | nil => exact List.forall_mem_nil _
  | snoc h hp ih =>
    exact List.forall_mem_append.2 ⟨ih, List.forall_mem_singleton.2 ⟨hp.node_eq, hp.node_ne⟩⟩

/-- **The CPU a task is pinned to is its home**, and the CPUs beyond 63 are where the other tasks go
first. -/
theorem homeFirst [MonotoneFloating U] (h : G.Trace ps)
    (hcfg : G.nodeConfigManager.nodes[n]? = some cfg)
    (hhigh : ∃ c ∈ cfg.availableCpus, 64 ≤ c.toNat) :
    HomeFirst addTask (Floating.ofDecimal 0 0) home (fun bin => 64 ≤ bin.2.toNat)
      (WithinThreshold (U := U)) (onNode n ps) := by
  induction h with
  | nil => exact .nil
  | @snoc ps p h hp ih =>
    rw [onNode, List.filter_append]
    by_cases hn : p.2.1 = n
    swap
    · rw [List.filter_singleton, decide_eq_false hn, cond_false, List.append_nil]
      exact ih
    subst hn
    rw [List.filter_singleton, decide_eq_true rfl, cond_true]
    refine .snoc ih (fun bin hhome hroom => ?_) (hp.high_of_ne_home hcfg hhigh) ?_
    · obtain ⟨n, c⟩ := bin
      have hn : n = p.2.1 := by
        rw [hp.node_eq]
        unfold home at hhome
        split at hhome <;> cases hhome
        rfl
      subst hn
      have hroom : WithinThreshold (addTask (utilizationOn (onNode p.2.1 ps) (p.2.1, c) : U) p.1) :=
        hroom
      rw [utilizationOn_onNode] at hroom
      exact hp.eq_home hcfg hhome hroom
    · have hroom : WithinThreshold (addTask (utilizationOn ps (p.2.1, p.2.2) : U) p.1) :=
        hp.room hcfg
      rw [← utilizationOn_onNode] at hroom
      exact hroom

/-- **When no CPU beyond 63 is used**: on every node with such CPUs all tasks are pinned, and to
CPUs with enough room for them. -/
theorem forall_lt_iff [MonotoneFloating U] (h : G.Trace ps)
    (hmask : ∀ p ∈ ps, ∀ mask, p.1.affinity = .pinned mask → mask ≠ 0)
    (hconfigured : ∀ p ∈ ps, ∃ cfg, G.nodeConfigManager.nodes[p.2.1]? = some cfg ∧
      p.2.2 ∈ cfg.availableCpus) :
    (∀ p ∈ ps, p.2.2.toNat < 64) ↔
      ∀ n cfg, G.nodeConfigManager.nodes[n]? = some cfg →
        (∃ c ∈ cfg.availableCpus, 64 ≤ c.toNat) →
        (∀ p ∈ onNode n ps, (home p.1).isSome) ∧
          ∀ bin, FitsInTurn addTask (Floating.ofDecimal 0 0) (WithinThreshold (U := U))
            (homeItems home ((onNode n ps).map Prod.fst) bin) := by
  have hnode : ∀ n cfg, G.nodeConfigManager.nodes[n]? = some cfg →
      (∃ c ∈ cfg.availableCpus, 64 ≤ c.toNat) →
      ((∀ p ∈ onNode n ps, ¬ 64 ≤ p.2.2.toNat) ↔
        (∀ p ∈ onNode n ps, (home p.1).isSome) ∧
          ∀ bin, FitsInTurn addTask (Floating.ofDecimal 0 0) (WithinThreshold (U := U))
            (homeItems home ((onNode n ps).map Prod.fst) bin)) := by
    intro n cfg hcfg hhigh
    refine (h.homeFirst hcfg hhigh).not_spill_iff ?_
    intro p hp b hb
    unfold home at hb
    split at hb
    · cases hb
    · rename_i mask haffinity
      cases hb
      exact Nat.not_le.2 (trailingZeros_lt (hmask p (mem_onNode.1 hp).1 mask haffinity))
  constructor
  · intro hlt n cfg hcfg hhigh
    exact (hnode n cfg hcfg hhigh).1 fun p hp => Nat.not_le.2 (hlt p (mem_onNode.1 hp).1)
  · intro hpinned p hp
    obtain ⟨cfg, hcfg, hmem⟩ := hconfigured p hp
    by_contra hge
    have hhigh : ∃ c ∈ cfg.availableCpus, 64 ≤ c.toNat := ⟨p.2.2, hmem, Nat.not_lt.1 hge⟩
    exact (hnode _ cfg hcfg hhigh).2 (hpinned _ cfg hcfg hhigh) p (mem_onNode.2 ⟨hp, rfl⟩)
      (Nat.not_lt.1 hge)

end Trace

end GlobalScheduler

end Timpani.Rust
