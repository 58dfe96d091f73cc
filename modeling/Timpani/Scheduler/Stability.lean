import Timpani.Scheduler.Completeness
import Timpani.Scheduler.Isolation
import Timpani.Scheduler.Load

/-!
# What a new workload moves

Every change regenerates the whole table of a node, from the names of the TT workloads and the
utilisations of the CBS tasks.  Two runs are compared here, without and with a workload `w`.

* `Undisturbed` : every slot and every CBS entry of the other workloads is where it was;
* `undisturbed_tt` : a TT workload whose name comes last, and whose CPU was not used, disturbs
  nothing;
* `undisturbed_cbs` : CBS tasks smaller than all others disturb nothing, when the others have
  distinct utilisations.

The first result compares loads with each other; `OrderedLoads` states what it needs to know about
the arithmetic, all of which is true of `double`.
-/

namespace Timpani

/-- The CBS entries of a CPU. -/
def HierarchicalScheduleTable.cbsEntriesOn (t : HierarchicalScheduleTable) (cpu : UInt32) :
    List CbsConfig :=
  (t.partitions.filter (·.cpu = some cpu)).flatMap fun p => p.layers.flatMap (·.cbsEntries)

/-- The second table differs from the first one only in what it holds of the workload `w`: all other
TT slots, with their CPUs, offsets and durations, are the same, and all other CBS entries are in the
partition of the same CPU. -/
structure Undisturbed (w : Text) (t t' : HierarchicalScheduleTable) : Prop where
  ttSlots : ∀ cpu, (t'.ttSlotsOn cpu).filter (·.workloadId ≠ w) = t.ttSlotsOn cpu
  cbsEntries : ∀ cpu, ((t'.cbsEntriesOn cpu).filter (·.workloadId ≠ w)).Perm (t.cbsEntriesOn cpu)

namespace GlobalScheduler

/-! ### Comparing loads -/

section Loads

variable {U : Type} [Floating U]

/-- The loads the assignment computes: sums of utilisations. -/
inductive Load : U → Prop
  | zero : Load (Floating.ofDecimal 0 0)
  | ratio (n d : UInt32) : Load (Floating.ratio n.toNat d.toNat)
  | add {a b : U} (ha : Load a) (hb : Load b) : Load (Floating.add a b)

/-- What the search for a CPU compares. -/
inductive Level : U → Prop
  | floor : Level (Floating.ofDecimal (-1) 0)
  | ratio (n d : UInt32) : Level (Floating.ratio n.toNat d.toNat)
  | residual {a b : U} (ha : Load a) (hb : Load b) : Level (residual a b)

variable (U) in
/-- Loads are never NaNs, so the comparisons are those of a linear preorder; and a larger load does
not leave a larger residual capacity. -/
class OrderedLoads : Prop where
  strictWeak : StrictWeak fun a b : { x : U // Level x } => Floating.lt a.1 b.1
  le_eq : ∀ {a b : U}, Level a → Level b → Floating.le a b = !Floating.lt b a
  residual_add : ∀ {a b c : U}, Load a → Load b → Load c →
    Floating.lt (residual a c) (residual (Floating.add a b) c) = false

instance : OrderedLoads ℚ where
  strictWeak := (StrictWeak.of_lt (κ := ℚ)).comap Subtype.val
  le_eq {a b} _ _ := by
    change decide (a ≤ b) = !decide (b < a)
    rw [← decide_not, decide_eq_decide, not_lt]
  residual_add {a b c} _ hb _ := by
    have hnonneg : ∀ x : ℚ, Load x → 0 ≤ x := by
      intro x hx
      induction hx with
      | zero => norm_num [Floating.ofDecimal]
      | ratio n d =>
        unfold Floating.ratio
        split_ifs
        · exact div_nonneg (Nat.cast_nonneg _) (Nat.cast_nonneg _)
        · norm_num [Floating.ofDecimal]
      | add _ _ ha hb => exact add_nonneg ha hb
    have := hnonneg b hb
    change decide ((uBound : ℚ) - a - c - uOverhead < uBound - (a + b) - c - uOverhead) = false
    rw [decide_eq_false_iff_not]
    linarith

variable [OrderedLoads U]

theorem Level.trans {a b c : U} (ha : Level a) (hb : Level b) (hc : Level c)
    (hab : Floating.lt a b = true) (hbc : Floating.lt b c = true) : Floating.lt a c = true :=
  OrderedLoads.strictWeak.trans (a := ⟨a, ha⟩) (b := ⟨b, hb⟩) (c := ⟨c, hc⟩) hab hbc

theorem Level.incomp {a b c : U} (ha : Level a) (hb : Level b) (hc : Level c)
    (hab : Floating.lt a b = false) (hbc : Floating.lt b c = false) : Floating.lt a c = false :=
  OrderedLoads.strictWeak.incomp (a := ⟨a, ha⟩) (b := ⟨b, hb⟩) (c := ⟨c, hc⟩) hab hbc

theorem Level.irrefl {a : U} (ha : Level a) : Floating.lt a a = false :=
  OrderedLoads.strictWeak.irrefl ⟨a, ha⟩

/-! ### Worst fit with less room on one CPU -/

/-- Two searches that found the same CPU; or the first one is at `cpu`, with level `x`, and what the
second one has found is not better. -/
structure Follows (cpu : ℤ) (x : U) (best best' : ℤ × U) : Prop where
  level : Level best.2
  level' : Level best'.2
  cases : best' = best ∨ best = (cpu, x) ∧ Floating.lt x best'.2 = false

theorem Follows.other {cpu c : ℤ} {x y u : U} {best best' : ℤ × U} (h : Follows cpu x best best')
    (hy : Level y) :
    Follows cpu x (if Floating.le u y && Floating.lt best.2 y then (c, y) else best)
      (if Floating.le u y && Floating.lt best'.2 y then (c, y) else best') := by
  have hlevel : ∀ b : ℤ × U, Level b.2 →
      Level (if Floating.le u y && Floating.lt b.2 y then (c, y) else b).2 := by
    intro b hb
    split_ifs
    · exact hy
    · exact hb
  refine ⟨hlevel _ h.level, hlevel _ h.level', ?_⟩
  rcases h.cases with rfl | ⟨hbest, hnot⟩
  · exact Or.inl rfl
  · cases hu : Floating.le u y with
    | false => exact Or.inr ⟨hbest, hnot⟩
    | true =>
      have hx : Level x := by
        have := h.level
        rwa [hbest] at this
      rw [hbest]
      simp only [Bool.true_and]
      cases htake : Floating.lt x y with
      | true =>
        -- better than `x` is better than what is not better than `x`
        have htake' : Floating.lt best'.2 y = true := by
          by_contra hfalse
          rw [Bool.not_eq_true] at hfalse
          rw [Level.incomp hx h.level' hy hnot hfalse] at htake
          cases htake
        rw [if_pos rfl, if_pos htake']
        exact Or.inl rfl
      | false =>
        refine Or.inr ⟨rfl, ?_⟩
        split_ifs
        · exact htake
        · exact hnot

theorem Follows.self {cpu : ℤ} {x x' u : U} {best best' : ℤ × U} (h : Follows cpu x best best')
    (hu : Level u) (hx : Level x) (hx' : Level x') (hless : Floating.lt x x' = false) :
    Follows cpu x (if Floating.le u x && Floating.lt best.2 x then (cpu, x) else best)
      (if Floating.le u x' && Floating.lt best'.2 x' then (cpu, x') else best') := by
  have hlevel : ∀ (b : ℤ × U) (y : U), Level b.2 → Level y →
      Level (if Floating.le u y && Floating.lt b.2 y then (cpu, y) else b).2 := by
    intro b y hb hy
    split_ifs
    · exact hy
    · exact hb
  have hnot : ∀ b : ℤ × U, Floating.lt x b.2 = false → Floating.lt x
      (if Floating.le u x' && Floating.lt b.2 x' then (cpu, x') else b).2 = false := by
    intro b hb
    split_ifs
    · exact hless
    · exact hb
  refine ⟨hlevel _ _ h.level hx, hlevel _ _ h.level' hx', ?_⟩
  rcases h.cases with rfl | ⟨rfl, hcases⟩
  · cases htake : Floating.le u x && Floating.lt best'.2 x with
    | true =>
      obtain ⟨-, hlt⟩ := Bool.and_eq_true_iff.1 htake
      refine Or.inr ⟨if_pos rfl, hnot _ ?_⟩
      by_contra htrue
      rw [Bool.not_eq_false] at htrue
      have := Level.trans hx h.level hx htrue hlt
      rw [Level.irrefl hx] at this
      cases this
    | false =>
      have hskip : (Floating.le u x' && Floating.lt best'.2 x') = false := by
        rw [Bool.and_eq_false_iff] at htake ⊢
        refine htake.imp (fun hle => ?_) fun hlt => Level.incomp h.level hx hx' hlt hless
        rw [OrderedLoads.le_eq hu hx, Bool.not_eq_false'] at hle
        rw [OrderedLoads.le_eq hu hx', Bool.not_eq_false']
        by_contra hfalse
        rw [Bool.not_eq_true] at hfalse
        rw [Level.incomp hx hx' hu hless hfalse] at hle
        cases hle
      rw [hskip]
      exact Or.inl rfl
  · rw [Level.irrefl hx, Bool.and_false]
    exact Or.inr ⟨rfl, hnot _ hcases⟩

variable {cpus : List ℤ} {uTt uTt' uCbs uCbs' : ℤ → U} {cpu : ℤ}

/-- **The search does not notice less room** on a CPU it does not choose. -/
theorem worstFitCpu_of_less {u : U} (hu : Level u)
    (hlevel : ∀ c, Level (residual (uTt c) (uCbs c)))
    (hlevel' : Level (residual (uTt' cpu) (uCbs cpu)))
    (hsame : ∀ c, c ≠ cpu → uTt' c = uTt c)
    (hless : Floating.lt (residual (uTt cpu) (uCbs cpu)) (residual (uTt' cpu) (uCbs cpu)) = false)
    (hne : worstFitCpu cpus (loaded cpus uTt uCbs) u ≠ cpu) :
    worstFitCpu cpus (loaded cpus uTt' uCbs) u = worstFitCpu cpus (loaded cpus uTt uCbs) u := by
  have hpart : ∀ l : List ℤ, l ⊆ cpus → Follows cpu (residual (uTt cpu) (uCbs cpu))
      (l.foldl (worstFitStep (loaded cpus uTt uCbs) u) (-1, Floating.ofDecimal (-1) 0))
      (l.foldl (worstFitStep (loaded cpus uTt' uCbs) u) (-1, Floating.ofDecimal (-1) 0)) := by
    intro l hl
    induction l using List.reverseRecOn with
    | nil => exact ⟨.floor, .floor, Or.inl rfl⟩
    | append_singleton l c ih =>
      have hc : c ∈ cpus := hl (List.mem_append_right _ (List.mem_singleton_self c))
      have ih := ih fun x hx => hl (List.mem_append_left _ hx)
      simp only [List.foldl_append, List.foldl_cons, List.foldl_nil, worstFitStep_loaded hc]
      by_cases hcpu : c = cpu
      · subst hcpu
        exact ih.self hu (hlevel c) hlevel' hless
      · rw [hsame c hcpu]
        exact ih.other (hlevel c)
  rcases (hpart cpus (List.Subset.refl _)).cases with heq | ⟨hbest, -⟩
  · exact congrArg Prod.fst heq
  · exact absurd (congrArg Prod.fst hbest) hne

/-- **Neither does the whole run.** -/
theorem worstFitRun_of_less {us : List U} {chosen : List ℤ} {v : U}
    (hus : ∀ u ∈ us, ∃ n d : UInt32, u = Floating.ratio n.toNat d.toNat)
    (hTt : ∀ c, Load (uTt c)) (hCbs : ∀ c, Load (uCbs c)) (hv : Load v)
    (h : worstFitRun cpus uTt uCbs us = .ok (chosen, uCbs')) (hnot : cpu ∉ chosen) :
    worstFitRun cpus (Function.update uTt cpu (Floating.add (uTt cpu) v)) uCbs us =
      .ok (chosen, uCbs') := by
  induction us generalizing uCbs chosen with
  | nil =>
    cases h
    rfl
  | cons u us ih =>
    obtain ⟨c, chosen', rfl, hneg, hrest, rfl⟩ := worstFitRun_cons.1 h
    obtain ⟨n, d, hu⟩ := hus u List.mem_cons_self
    rw [List.mem_cons, not_or] at hnot
    have hsearch : worstFitCpu cpus (loaded cpus (Function.update uTt cpu
        (Floating.add (uTt cpu) v)) uCbs) u = worstFitCpu cpus (loaded cpus uTt uCbs) u := by
      refine worstFitCpu_of_less (hu ▸ .ratio n d) (fun c => .residual (hTt c) (hCbs c)) ?_
        (fun c hc => Function.update_of_ne hc _ _) ?_ (Ne.symm hnot.1)
      · rw [Function.update_self]
        exact .residual (.add (hTt cpu) hv) (hCbs cpu)
      · rw [Function.update_self]
        exact OrderedLoads.residual_add (hTt cpu) hv (hCbs cpu)
    refine worstFitRun_cons.2 ⟨_, chosen', hsearch.symm, hneg, ?_, rfl⟩
    refine ih (fun u hu => hus u (List.mem_cons_of_mem _ hu)) (fun c => ?_) hrest hnot.2
    by_cases hc : c = worstFitCpu cpus (loaded cpus uTt uCbs) u
    · rw [hc, Function.update_self]
      exact .add (hCbs _) (hu ▸ .ratio n d)
    · rw [Function.update_of_ne hc]
      exact hCbs c

end Loads

/-! ### Two tables -/

section Tables

variable {U : Type}

theorem cbsEntriesOn_buildTable (now : UInt64) (nodeId : Text) (scheds : List (PerCpuSchedule U))
    (hp : UInt64) (cpu : UInt32) : (buildTable now nodeId scheds hp).cbsEntriesOn cpu =
      (scheds.filter (cpuNumber ·.cpuId = cpu)).flatMap fun s =>
        s.cbsAllocations.map cbsConfigOf := by
  have hunused : ∀ s : PerCpuSchedule U, inUse s = false →
      (partitionOf s).layers.flatMap (·.cbsEntries) = [] := fun s hs => by
    simp only [inUse, Bool.not_eq_false', Bool.and_eq_true, List.isEmpty_iff] at hs
    simp [partitionOf, hs.2]
  rw [HierarchicalScheduleTable.cbsEntriesOn, flatMap_partitions_buildTable hunused]
  simp [partitionOf]

/-- The schedule of a CPU differs only in what it holds of `w`. -/
structure UndisturbedCpu (w : Text) (s s' : PerCpuSchedule U) : Prop where
  cpuId : s.cpuId = s'.cpuId
  ttSlots : s'.ttSlots.filter (·.workloadId ≠ w) = s.ttSlots
  cbsAllocations : (s'.cbsAllocations.filter (·.workloadId ≠ w)).Perm s.cbsAllocations

theorem undisturbed_buildTable {w : Text} {scheds scheds' : List (PerCpuSchedule U)}
    (h : List.Forall₂ (UndisturbedCpu w) scheds scheds') (now now' : UInt64) (nodeId : Text)
    (hp hp' : UInt64) :
    Undisturbed w (buildTable now nodeId scheds hp) (buildTable now' nodeId scheds' hp') := by
  constructor
  · intro cpu
    rw [ttSlotsOn_buildTable, ttSlotsOn_buildTable]
    induction h with
    | nil => rfl
    | @cons s s' _ _ hs _ ih =>
      have hslots : (s'.ttSlots.map ttSlotOf).filter (·.workloadId ≠ w) =
          s.ttSlots.map ttSlotOf := by
        rw [← hs.ttSlots, List.filter_map]
        rfl
      simp only [List.filter_cons, hs.cpuId]
      split_ifs
      · rw [List.flatMap_cons, List.flatMap_cons, List.filter_append, hslots, ih]
      · exact ih
  · intro cpu
    rw [cbsEntriesOn_buildTable, cbsEntriesOn_buildTable]
    induction h with
    | nil => rfl
    | @cons s s' _ _ hs _ ih =>
      have hentries : ((s'.cbsAllocations.map cbsConfigOf).filter (·.workloadId ≠ w)).Perm
          (s.cbsAllocations.map cbsConfigOf) := by
        rw [List.filter_map]
        exact hs.cbsAllocations.map _
      simp only [List.filter_cons, hs.cpuId]
      split_ifs
      · rw [List.flatMap_cons, List.flatMap_cons, List.filter_append]
        exact hentries.append ih
      · exact ih

end Tables

/-! ### Two runs -/

section Runs

variable {U : Type} [Floating U] {G : GlobalScheduler U} {nodeId w : Text}
  {tasks tasks' : List ClassifiedTask} {a a' : Assignment U}
  {allocated allocated' : List (PerCpuSchedule U)}

theorem Stages.workloadId_ttSlots (hst : Stages G nodeId tasks a allocated) {s : PerCpuSchedule U}
    (hs : s ∈ allocated) {slot : TtSlotPlacement} (hslot : slot ∈ s.ttSlots) :
    ∃ t ∈ assignedTo s.cpuId a.ttTasks, slot.workloadId = t.workloadId := by
  obtain ⟨hharm, hplace⟩ := hst.cpuResult s hs
  obtain ⟨t, ht, -, hids⟩ := (hplace.mem_ids hharm).1 ⟨slot, hslot, rfl⟩
  exact ⟨t, ht, congrArg Prod.fst hids⟩

/-- **Two runs that agree on the other workloads**: on every CPU either the TT tasks are the same
and none of them is of `w`, or there were none and all are of `w`; and the CBS tasks of the others
are on the same CPUs. -/
theorem Stages.undisturbed [LawfulFloating U] (hst : Stages G nodeId tasks a allocated)
    (hst' : Stages G nodeId tasks' a' allocated')
    (htt : ∀ c ∈ G.availableCpus nodeId,
      (assignedTo c a'.ttTasks = assignedTo c a.ttTasks ∧
        ∀ t ∈ assignedTo c a.ttTasks, t.workloadId ≠ w) ∨
      (assignedTo c a.ttTasks = [] ∧ ∀ t ∈ assignedTo c a'.ttTasks, t.workloadId = w))
    (hcbs : ∀ c, ((assignedTo c a'.cbsTasks).filter (·.workloadId ≠ w)).Perm
      (assignedTo c a.cbsTasks)) :
    List.Forall₂ (UndisturbedCpu w) allocated allocated' := by
  have hpairs := (forall₂_comp hst.forall₂_placed.flip hst'.forall₂_placed).flip
  have hpairs := ((List.forall₂_and_left _ _).2 ⟨fun s' (hs' : s' ∈ allocated') => hs', hpairs⟩).flip
  refine ((List.forall₂_and_left _ _).2 ⟨fun s (hs : s ∈ allocated) => hs, hpairs⟩).imp ?_
  rintro s s' ⟨hs, hs', cpu, ⟨rfl, hplace⟩, hid, hplace'⟩
  have hid := hid.symm
  have hcpu : s.cpuId ∈ G.availableCpus nodeId := by
    rw [← mem_stdSet, ← hst.cpuIds]
    exact List.mem_map_of_mem hs
  refine ⟨hid, ?_, ?_⟩
  · rcases htt s.cpuId hcpu with ⟨hsame, hne⟩ | ⟨hnil, hall⟩
    · have hslots : s.ttSlots = s'.ttSlots := by
        have hsame : (G.placeOnCpu a'.ttTasks (.new s.cpuId)).map (·.ttSlots) =
            (G.placeOnCpu a.ttTasks (.new s.cpuId)).map (·.ttSlots) :=
          map_ttSlots_placeOnCpu rfl rfl hsame
        rw [hsame, hplace] at hplace'
        exact Except.ok.inj hplace'
      rw [← hslots]
      refine List.filter_eq_self.2 fun slot hslot => decide_eq_true ?_
      obtain ⟨t, ht, heq⟩ := hst.workloadId_ttSlots hs hslot
      rw [heq]
      exact hne t ht
    · have hnone : s.ttSlots = [] := by
        refine List.eq_nil_iff_forall_not_mem.2 fun slot hslot => ?_
        obtain ⟨t, ht, -⟩ := hst.workloadId_ttSlots hs hslot
        rw [hnil] at ht
        cases ht
      rw [hnone]
      refine List.filter_eq_nil_iff.2 fun slot hslot => ?_
      obtain ⟨t, ht, heq⟩ := hst'.workloadId_ttSlots hs' hslot
      rw [← hid] at ht
      simpa [heq] using hall t ht
  · obtain ⟨order, horder, hallocs⟩ := hst.budgets s hs
    obtain ⟨order', horder', hallocs'⟩ := hst'.budgets s' hs'
    rw [hallocs, hallocs', List.filter_map, ← hid]
    refine List.Perm.map _ ?_
    exact ((horder'.filter _).trans (hid ▸ hcbs s.cpuId)).trans horder.symm

/-! ### Tables without and with only the workload -/

omit [Floating U] in
theorem mem_pairs_of_mem_on {table : HierarchicalScheduleTable} {cpu : UInt32} :
    (∀ slot ∈ table.ttSlotsOn cpu, (slot.workloadId, slot.taskId) ∈ table.pairs) ∧
      ∀ e ∈ table.cbsEntriesOn cpu, (e.workloadId, e.taskId) ∈ table.pairs := by
  simp only [HierarchicalScheduleTable.ttSlotsOn, HierarchicalScheduleTable.cbsEntriesOn,
    HierarchicalScheduleTable.pairs, HierarchicalScheduleTable.layers, List.mem_flatMap,
    List.mem_filter, List.mem_append, List.mem_map]
  constructor
  · rintro slot ⟨p, ⟨hp, -⟩, l, hl, hslot⟩
    exact ⟨l, ⟨p, hp, hl⟩, Or.inl ⟨slot, hslot, rfl⟩⟩
  · rintro e ⟨p, ⟨hp, -⟩, l, hl, he⟩
    exact ⟨l, ⟨p, hp, hl⟩, Or.inr ⟨e, he, rfl⟩⟩

theorem undisturbed_of_forall_ne [LawfulFloating U] {now now' : UInt64}
    {table table' : HierarchicalScheduleTable} (h : G.generateSchedule now nodeId tasks = .ok table)
    (h' : G.generateSchedule now' nodeId tasks = .ok table')
    (hne : ∀ t ∈ tasks, t.workloadId ≠ w) : Undisturbed w table table' := by
  have hpairs : ∀ p ∈ table.pairs, p.1 ≠ w := by
    intro p hp
    obtain ⟨t, ht, -, rfl⟩ := (mem_pairs_generateSchedule h).1 hp
    exact hne t ht
  rw [G.generateSchedule_now now now', h] at h'
  cases h'
  refine ⟨fun cpu => ?_, fun cpu => .of_eq ?_⟩
  · exact List.filter_eq_self.2 fun slot hslot =>
      decide_eq_true (hpairs _ (mem_pairs_of_mem_on.1 slot hslot))
  · exact List.filter_eq_self.2 fun e he =>
      decide_eq_true (hpairs _ (mem_pairs_of_mem_on.2 e he))

theorem undisturbed_of_forall_eq [LawfulFloating U] {now now' : UInt64}
    {table table' : HierarchicalScheduleTable} (h : G.generateSchedule now nodeId [] = .ok table)
    (h' : G.generateSchedule now' nodeId tasks' = .ok table')
    (heq : ∀ t ∈ tasks', t.workloadId = w) : Undisturbed w table table' := by
  have hpairs : ∀ p ∈ table'.pairs, p.1 = w := by
    intro p hp
    obtain ⟨t, ht, -, rfl⟩ := (mem_pairs_generateSchedule h').1 hp
    exact heq t ht
  cases h
  refine ⟨fun cpu => ?_, fun cpu => .of_eq ?_⟩
  · exact List.filter_eq_nil_iff.2 fun slot hslot => by
      simpa using hpairs _ (mem_pairs_of_mem_on.1 slot hslot)
  · exact List.filter_eq_nil_iff.2 fun e he => by
      simpa using hpairs _ (mem_pairs_of_mem_on.2 e he)

theorem undisturbed_of_stages [LawfulFloating U] {now now' : UInt64}
    {table table' : HierarchicalScheduleTable} (htasks : tasks = tasks'.filter (·.workloadId ≠ w))
    (h : G.generateSchedule now nodeId tasks = .ok table)
    (h' : G.generateSchedule now' nodeId tasks' = .ok table')
    (hcpus : ∀ (a : Assignment U) (allocated : List (PerCpuSchedule U)) (a' : Assignment U)
      (allocated' : List (PerCpuSchedule U)), Stages G nodeId tasks a allocated →
      table = buildTable now nodeId allocated (calculateHyperperiod (periodsOf a.ttTasks)) →
      Stages G nodeId tasks' a' allocated' →
      List.Forall₂ (UndisturbedCpu w) allocated allocated') : Undisturbed w table table' := by
  by_cases hne : tasks = []
  · rw [hne] at h
    refine undisturbed_of_forall_eq h h' fun t ht => ?_
    have := List.filter_eq_nil_iff.1 (htasks.symm.trans hne) t ht
    simpa using this
  have hne' : tasks' ≠ [] := by
    rintro rfl
    exact hne htasks
  obtain ⟨a, allocated, hst, heq⟩ := (generateSchedule_eq_ok hne).1 h
  obtain ⟨a', allocated', hst', rfl⟩ := (generateSchedule_eq_ok hne').1 h'
  have hall := hcpus a allocated a' allocated' hst heq hst'
  rw [heq]
  exact undisturbed_buildTable hall _ _ _ _ _

/-! ### A new TT workload -/

omit [Floating U] in
theorem ttWorkloadIds_of_last {tt : List ClassifiedTask} (hw : w ∈ ttWorkloadIds tt)
    (hlast : ∀ id ∈ ttWorkloadIds (tt.filter (·.workloadId ≠ w)), compare id w = .lt) :
    ttWorkloadIds tt = ttWorkloadIds (tt.filter (·.workloadId ≠ w)) ++ [w] := by
  have hord : ∀ l : List ClassifiedTask,
      (ttWorkloadIds l).Pairwise fun a b => compare a b = .lt := fun l => pairwise_stdSet _
  have hord' : (ttWorkloadIds (tt.filter (·.workloadId ≠ w)) ++ [w]).Pairwise
      fun a b => compare a b = .lt := by
    refine List.pairwise_append.2 ⟨hord _, List.pairwise_singleton _ _, fun id hid b hb => ?_⟩
    rw [List.mem_singleton.1 hb]
    exact hlast id hid
  have hnd : ∀ l : List Text, (l.Pairwise fun a b => compare a b = .lt) → l.Nodup := fun l hl =>
    hl.imp fun h => by rintro rfl; simp at h
  refine List.Perm.eq_of_pairwise
    (fun a b _ _ hab hba => absurd (Std.OrientedCmp.gt_of_lt hab) (by rw [hba]; simp)) (hord tt) hord'
    ((List.perm_ext_iff_of_nodup (hnd _ (hord tt)) (hnd _ hord')).2 fun id => ?_)
  rw [List.mem_append, List.mem_singleton, mem_ttWorkloadIds_filter]
  by_cases hid : id = w
  · simp [hid, hw]
  · simp [hid]

omit [Floating U] in
theorem periodsOf_ne_nil_of_placeOnCpu {tt : List ClassifiedTask} {s s' : PerCpuSchedule U}
    (h : G.placeOnCpu tt s = .ok s') (hne : assignedTo s.cpuId tt ≠ []) :
    periodsOf (assignedTo s.cpuId tt) ≠ [] := by
  intro hnil
  unfold placeOnCpu at h
  dsimp only at h
  rw [hnil, if_neg (by simpa using hne)] at h
  split_ifs at h
  cases h

theorem Stages.unused [LawfulFloating U] (hst : Stages G nodeId tasks a allocated) {now : UInt64}
    {hp : UInt64} {c : ℤ} (hc : c ∈ G.availableCpus nodeId)
    (hfree : ∀ p ∈ (buildTable now nodeId allocated hp).partitions, p.cpu ≠ some (cpuNumber c)) :
    assignedTo c a.ttTasks = [] ∧ assignedTo c a.cbsTasks = [] := by
  obtain ⟨s, hs, rfl⟩ := hst.exists_schedule hc
  have hunused : inUse s = false := by
    by_contra huse
    rw [Bool.not_eq_false] at huse
    exact hfree _ (List.mem_map_of_mem (List.mem_filter.2 ⟨hs, huse⟩)) rfl
  simp only [inUse, Bool.not_eq_false', Bool.and_eq_true, List.isEmpty_iff] at hunused
  constructor
  · by_contra hne
    obtain ⟨s₀, hs₀, s₁, h₁, h₂⟩ := exists_of_forall₂_right hst.origin hs
    have hid : s₀.cpuId = s.cpuId := by
      rw [(allocateOnCpu_eq_ok h₂).1,
        (placeOnCpu_eq_ok h₁ ((blank_assignCpus hst.assign).ttSlots s₀ hs₀)).1]
    obtain ⟨p, hp⟩ := List.exists_mem_of_ne_nil _
      (periodsOf_ne_nil_of_placeOnCpu h₁ (by rwa [hid]))
    obtain ⟨t, ht, h0, -⟩ := mem_periodsOf.1 hp
    obtain ⟨hharm, hplace⟩ := hst.cpuResult s hs
    obtain ⟨slot, hslot, -⟩ := (hplace.mem_ids hharm).2 ⟨t, by rwa [← hid], h0, rfl⟩
    rw [hunused.1] at hslot
    cases hslot
  · obtain ⟨order, horder, hallocs⟩ := hst.budgets s hs
    rw [hunused.2] at hallocs
    rw [List.map_eq_nil_iff.1 hallocs.symm] at horder
    exact List.nil_perm.1 horder

theorem load_workloadUtilization (tt : List ClassifiedTask) (id : Text) :
    Load (workloadUtilization tt id : U) := by
  unfold workloadUtilization
  suffices hfold : ∀ (ts : List ClassifiedTask) (u : U), Load u → Load (ts.foldl (fun u t =>
      if 0 < t.periodUs then Floating.add u t.utilization else u) u) from hfold _ _ .zero
  intro ts
  induction ts with
  | nil => exact fun _ hu => hu
  | cons t ts ih =>
    intro u hu
    refine ih _ ?_
    dsimp only
    split_ifs
    · exact .add hu (.ratio _ _)
    · exact hu

theorem load_ttLoads (G : GlobalScheduler U) (nodeId : Text) (tt : List ClassifiedTask) (c : ℤ) :
    Load (G.ttLoads nodeId tt c) := by
  unfold ttLoads ttUtilization
  suffices hfold : ∀ (ids : List Text) (u : U), Load u → Load (ids.foldl (fun u id =>
      Floating.add u (workloadUtilization tt id)) u) from hfold _ _ .zero
  intro ids
  induction ids with
  | nil => exact fun _ hu => hu
  | cons id ids ih => exact fun u hu => ih _ (.add hu (load_workloadUtilization tt id))

theorem ttLoads_of_last {tt : List ClassifiedTask} (hw : w ∈ ttWorkloadIds tt)
    (hlast : ∀ id ∈ ttWorkloadIds (tt.filter (·.workloadId ≠ w)), compare id w = .lt) {c : ℤ}
    (hc : dedicatedCpu (G.availableCpus nodeId) (ttWorkloadIds tt) w = c) :
    G.ttLoads nodeId tt = Function.update (G.ttLoads nodeId (tt.filter (·.workloadId ≠ w))) c
      (Floating.add (G.ttLoads nodeId (tt.filter (·.workloadId ≠ w)) c)
        (workloadUtilization tt w)) := by
  have hids := ttWorkloadIds_of_last hw hlast
  set ids := ttWorkloadIds (tt.filter (·.workloadId ≠ w)) with hdef
  have hsame : (ttUtilization (G.availableCpus nodeId) ids tt : ℤ → U) =
      ttUtilization (G.availableCpus nodeId) ids (tt.filter (·.workloadId ≠ w)) := by
    funext c
    refine List.foldl_ext _ _ _ fun u id hid => ?_
    have hne : id ≠ w := (mem_ttWorkloadIds_filter.1 (List.mem_of_mem_filter hid)).2
    rw [workloadUtilization, workloadUtilization, filter_filter_ne hne]
  rw [ttLoads, hids, ttUtilization_append, ← hids, hc, hsame]
  rfl

omit [Floating U] in
theorem filter_ttTasksOn_of_last {tt : List ClassifiedTask} (hw : w ∈ ttWorkloadIds tt)
    (hlast : ∀ id ∈ ttWorkloadIds (tt.filter (·.workloadId ≠ w)), compare id w = .lt)
    (cpus : List ℤ) (c : ℤ) : (ttTasksOn cpus tt c).filter (·.workloadId ≠ w) =
      ttTasksOn cpus (tt.filter (·.workloadId ≠ w)) c := by
  rw [ttTasksOn, ttTasksOn, List.filter_comm]
  refine List.filter_congr fun t ht => ?_
  rw [ttWorkloadIds_of_last hw hlast,
    dedicatedCpu_append (mem_ttWorkloadIds.2 ⟨t, ht, rfl⟩)]

omit [Floating U] in
theorem dedicatedCpu_of_last {tt : List ClassifiedTask} {cpus : List ℤ}
    (hw : w ∈ ttWorkloadIds tt)
    (hlast : ∀ id ∈ ttWorkloadIds (tt.filter (·.workloadId ≠ w)), compare id w = .lt)
    (hroom : (ttWorkloadIds (tt.filter (·.workloadId ≠ w))).length < cpus.length) :
    dedicatedCpu cpus (ttWorkloadIds tt) w =
      cpus.getD (ttWorkloadIds (tt.filter (·.workloadId ≠ w))).length 0 := by
  have hnot : w ∉ ttWorkloadIds (tt.filter (·.workloadId ≠ w)) := fun hin =>
    (mem_ttWorkloadIds_filter.1 hin).2 rfl
  have hidx : (ttWorkloadIds (tt.filter (·.workloadId ≠ w)) ++ [w]).idxOf w =
      (ttWorkloadIds (tt.filter (·.workloadId ≠ w))).length := by
    rw [List.idxOf_append_of_notMem hnot]
    simp
  rw [ttWorkloadIds_of_last hw hlast, dedicatedCpu, hidx, min_eq_left (by omega)]

omit [Floating U] in
theorem filter_ttTasksOn_cases {tt : List ClassifiedTask} {cpus : List ℤ} {cpu : ℤ}
    (hcpu : dedicatedCpu cpus (ttWorkloadIds tt) w = cpu)
    (hnone : (ttTasksOn cpus tt cpu).filter (·.workloadId ≠ w) = []) (c : ℤ) :
    (ttTasksOn cpus tt c).filter (·.workloadId ≠ w) = ttTasksOn cpus tt c ∨
      (ttTasksOn cpus tt c).filter (·.workloadId ≠ w) = [] ∧
        ∀ t ∈ ttTasksOn cpus tt c, t.workloadId = w := by
  by_cases hc : c = cpu
  · subst hc
    refine Or.inr ⟨hnone, fun t ht => ?_⟩
    simpa using List.filter_eq_nil_iff.1 hnone t ht
  · refine Or.inl (List.filter_eq_self.2 fun t ht => decide_eq_true fun heq => hc ?_)
    rw [← of_decide_eq_true (List.mem_filter.1 ht).2, ← hcpu, ← heq]

/-- **A TT workload whose name comes last disturbs nothing**, when the CPU it gets has no partition
in the table before. -/
theorem undisturbed_tt [LawfulFloating U] [OrderedLoads U] {now now' : UInt64}
    {table table' : HierarchicalScheduleTable} (htasks : tasks = tasks'.filter (·.workloadId ≠ w))
    (h : G.generateSchedule now nodeId tasks = .ok table)
    (h' : G.generateSchedule now' nodeId tasks' = .ok table')
    (hw : ∀ t ∈ tasks', t.workloadId = w → t.mechanism = .tt)
    (hmem : w ∈ ttWorkloadIds (ttTasks tasks'))
    (hlast : ∀ id ∈ ttWorkloadIds (ttTasks tasks), compare id w = .lt)
    (hroom : (ttWorkloadIds (ttTasks tasks)).length < (G.availableCpus nodeId).length)
    (hfree : ∀ p ∈ table.partitions, p.cpu ≠ some (cpuNumber
      ((G.availableCpus nodeId).getD (ttWorkloadIds (ttTasks tasks)).length 0))) :
    Undisturbed w table table' := by
  refine undisturbed_of_stages htasks h h' ?_
  rintro a allocated a' allocated' hst rfl hst'
  have htt : ttTasks tasks = (ttTasks tasks').filter (·.workloadId ≠ w) := by
    rw [htasks]
    exact List.filter_comm ..
  have hcbs : cbsTasks tasks = cbsTasks tasks' := by
    rw [htasks, cbsTasks, List.filter_comm]
    refine List.filter_eq_self.2 fun t ht => decide_eq_true fun heq => ?_
    obtain ⟨ht, hm⟩ := mem_cbsTasks.1 ht
    exact hm (hw t ht heq)
  rw [htt] at hlast hroom hfree
  set cpus := G.availableCpus nodeId
  set ids := ttWorkloadIds ((ttTasks tasks').filter (·.workloadId ≠ w))
  set cpu := cpus.getD ids.length 0
  have hcpu : dedicatedCpu cpus (ttWorkloadIds (ttTasks tasks')) w = cpu :=
    dedicatedCpu_of_last hmem hlast hroom
  have hin : cpu ∈ cpus := hcpu ▸ dedicatedCpu_mem (G.availableCpus_ne_nil nodeId) _ _
  obtain ⟨hnoTt, hnoCbs⟩ := hst.unused hin hfree
  obtain ⟨chosen, uCbs, hrun, ha⟩ := assignCpus_eq_ok_iff.1 hst.assign
  obtain ⟨chosen', uCbs', hrun', ha'⟩ := assignCpus_eq_ok_iff.1 hst'.assign
  -- worst fit makes the same choices
  have hchosen : cpu ∉ chosen := by
    intro hmem
    rw [ha] at hnoCbs
    exact (assignedTo_ne_nil_iff ((worstFitRun_length hrun).trans (by simp)) cpu).2 hmem hnoCbs
  have hless : worstFitRun cpus (G.ttLoads nodeId (ttTasks tasks')) unloaded
      ((G.cbsOrder (cbsTasks tasks)).map fun i => ((cbsTasks tasks).get i).utilization) =
        .ok (chosen, uCbs) := by
    rw [ttLoads_of_last hmem hlast hcpu]
    rw [htt] at hrun
    refine worstFitRun_of_less (fun u hu => ?_) (load_ttLoads G nodeId _) (fun _ => .zero)
      (load_workloadUtilization _ _) hrun hchosen
    obtain ⟨i, -, rfl⟩ := List.mem_map.1 hu
    exact ⟨_, _, rfl⟩
  rw [hcbs] at hless
  rw [hless] at hrun'
  cases hrun'
  have hsame : a'.cbsTasks = a.cbsTasks := by rw [ha, ha', hcbs]
  refine hst.undisturbed hst' (fun c hc => ?_) fun c => ?_
  · have hothers := filter_ttTasksOn_of_last hmem hlast cpus
    rw [ha, assignedTo_ttTasks, htt, ← hothers] at hnoTt
    rw [ha, ha', assignedTo_ttTasks, assignedTo_ttTasks, htt, ← hothers]
    rcases filter_ttTasksOn_cases hcpu (List.map_eq_nil_iff.1 hnoTt) c with hself | ⟨hnil, hown⟩
    · refine Or.inl ⟨by rw [hself], fun t ht => ?_⟩
      obtain ⟨t₀, ht₀, rfl⟩ := List.mem_map.1 ht
      exact of_decide_eq_true (List.mem_filter.1 ht₀).2
    · refine Or.inr ⟨by rw [hnil]; rfl, fun t ht => ?_⟩
      obtain ⟨t₀, ht₀, rfl⟩ := List.mem_map.1 ht
      exact hown t₀ ht₀
  · rw [hsame]
    refine .of_eq (List.filter_eq_self.2 fun t ht => decide_eq_true ?_)
    obtain ⟨t₀, ht₀, -, -, rfl⟩ := exists_of_forall₂_right (cbsTasks_assignCpus hst.assign)
      (mem_assignedTo.1 ht).1
    have ht₀ := (mem_cbsTasks.1 ht₀).1
    rw [htasks] at ht₀
    exact of_decide_eq_true (List.mem_filter.1 ht₀).2

/-! ### New CBS tasks -/

/-- The CBS tasks in the order of their assignment. -/
def orderedCbs (G : GlobalScheduler U) (cbs : List ClassifiedTask) : List ClassifiedTask :=
  (G.cbsOrder cbs).map cbs.get

theorem perm_orderedCbs [LawfulFloating U] (G : GlobalScheduler U) (cbs : List ClassifiedTask) :
    (G.orderedCbs cbs).Perm cbs := by
  have hperm := (G.perm_cbsOrder cbs).map cbs.get
  rwa [List.map_get_finRange] at hperm

theorem sorted_orderedCbs [LawfulFloating U] (G : GlobalScheduler U) (cbs : List ClassifiedTask) :
    (G.orderedCbs cbs).Pairwise fun t t' => t'.byUtilization U t = false := by
  rw [orderedCbs, List.pairwise_map]
  exact G.stdSort.sorted (ClassifiedTask.byUtilization_strictWeak.comap cbs.get) _

theorem perm_assignAll_ordered [LawfulFloating U] {cbs : List ClassifiedTask} {chosen : List ℤ}
    (hlen : chosen.length = (G.cbsOrder cbs).length) :
    (assignAll cbs ((G.cbsOrder cbs).zip chosen)).Perm
      (((G.orderedCbs cbs).zip chosen).map fun x => x.1.onCpu x.2) := by
  have hfst : (((G.cbsOrder cbs).zip chosen).map Prod.fst).Perm (List.finRange cbs.length) := by
    rw [List.map_fst_zip hlen.ge]
    exact G.perm_cbsOrder cbs
  refine (perm_assignAll hfst).trans (.of_eq ?_)
  rw [orderedCbs, List.zip_map_left, List.map_map]
  rfl

theorem filter_onCpu_of_ne {l : List ClassifiedTask} {chosen : List ℤ}
    (h : ∀ t ∈ l, t.workloadId ≠ w) :
    ((l.zip chosen).map fun x => x.1.onCpu x.2).filter (·.workloadId ≠ w) =
      (l.zip chosen).map fun x => x.1.onCpu x.2 := by
  refine List.filter_eq_self.2 fun t ht => ?_
  obtain ⟨x, hx, rfl⟩ := List.mem_map.1 ht
  exact decide_eq_true (h x.1 (List.of_mem_zip hx).1)

theorem filter_onCpu_of_eq {l : List ClassifiedTask} {chosen : List ℤ}
    (h : ∀ t ∈ l, t.workloadId = w) :
    ((l.zip chosen).map fun x => x.1.onCpu x.2).filter (·.workloadId ≠ w) = [] := by
  refine List.filter_eq_nil_iff.2 fun t ht hne => ?_
  obtain ⟨x, hx, rfl⟩ := List.mem_map.1 ht
  exact of_decide_eq_true hne (h x.1 (List.of_mem_zip hx).1)

theorem filter_append_filter_of_small {l : List ClassifiedTask}
    (hsmall : ∀ t ∈ l, t.workloadId ≠ w → ∀ t' ∈ l, t'.workloadId = w →
      t.byUtilization U t' = true)
    (hsorted : l.Pairwise fun t t' => t'.byUtilization U t = false) :
    l = l.filter (·.workloadId ≠ w) ++ l.filter (·.workloadId = w) := by
  induction l with
  | nil => rfl
  | cons t l ih =>
    obtain ⟨ht, hsorted⟩ := List.pairwise_cons.1 hsorted
    have ih := ih (fun t₁ ht₁ hne t₂ ht₂ => hsmall t₁ (List.mem_cons_of_mem _ ht₁) hne t₂
      (List.mem_cons_of_mem _ ht₂)) hsorted
    by_cases hw : t.workloadId = w
    · -- nothing that follows is larger
      have hnone : l.filter (·.workloadId ≠ w) = [] := by
        refine List.filter_eq_nil_iff.2 fun t' ht' hne => ?_
        have hlt := hsmall t' (List.mem_cons_of_mem _ ht') (of_decide_eq_true hne) t
          List.mem_cons_self hw
        rw [ht t' ht'] at hlt
        cases hlt
      rw [List.filter_cons_of_neg (by simpa using hw), List.filter_cons_of_pos (by simpa using hw),
        hnone, List.nil_append]
      rw [hnone, List.nil_append] at ih
      rw [← ih]
    · rw [List.filter_cons_of_pos (by simpa using hw), List.filter_cons_of_neg (by simpa using hw),
        List.cons_append, ← ih]

/-- Tasks smaller than all others come last, and the others keep their order if it is the only
one. -/
theorem orderedCbs_of_small [LawfulFloating U] {cbs : List ClassifiedTask}
    (hdistinct : (cbs.filter (·.workloadId ≠ w)).Pairwise fun t t' =>
      t.byUtilization U t' = true ∨ t'.byUtilization U t = true)
    (hsmall : ∀ t ∈ cbs, t.workloadId ≠ w → ∀ t' ∈ cbs, t'.workloadId = w →
      t.byUtilization U t' = true) :
    G.orderedCbs cbs = G.orderedCbs (cbs.filter (·.workloadId ≠ w)) ++
      (G.orderedCbs cbs).filter (·.workloadId = w) := by
  have hperm := G.perm_orderedCbs cbs
  have hsorted := G.sorted_orderedCbs cbs
  have hothers : (G.orderedCbs cbs).filter (·.workloadId ≠ w) =
      G.orderedCbs (cbs.filter (·.workloadId ≠ w)) := by
    refine List.Perm.eq_of_pairwise (fun t t' ht ht' h h' => ?_) (hsorted.filter _)
      (G.sorted_orderedCbs _) ((hperm.filter _).trans (G.perm_orderedCbs _).symm)
    -- two tasks of equal utilisation are the same one
    have ht := (hperm.filter _).mem_iff.1 ht
    have ht' := (G.perm_orderedCbs _).mem_iff.1 ht'
    by_contra hne
    have : Std.Symm fun t t' : ClassifiedTask => t.byUtilization U t' = true ∨
        t'.byUtilization U t = true := ⟨fun _ _ h => h.symm⟩
    rcases hdistinct.forall ht ht' hne with hlt | hlt
    · rw [hlt] at h'
      cases h'
    · rw [hlt] at h
      cases h
  rw [← hothers]
  refine filter_append_filter_of_small (fun t ht hne t' ht' hw => ?_) hsorted
  exact hsmall t (hperm.mem_iff.1 ht) hne t' (hperm.mem_iff.1 ht') hw

/-- **CBS tasks smaller than all others disturb nothing**, when the others have distinct
utilisations. -/
theorem undisturbed_cbs [LawfulFloating U] {now now' : UInt64}
    {table table' : HierarchicalScheduleTable} (htasks : tasks = tasks'.filter (·.workloadId ≠ w))
    (h : G.generateSchedule now nodeId tasks = .ok table)
    (h' : G.generateSchedule now' nodeId tasks' = .ok table')
    (hw : ∀ t ∈ tasks', t.workloadId = w → t.mechanism ≠ .tt)
    (hdistinct : (cbsTasks tasks).Pairwise fun t t' =>
      t.byUtilization U t' = true ∨ t'.byUtilization U t = true)
    (hsmall : ∀ t ∈ cbsTasks tasks, ∀ t' ∈ tasks', t'.workloadId = w →
      t.byUtilization U t' = true) : Undisturbed w table table' := by
  refine undisturbed_of_stages htasks h h' ?_
  rintro a allocated a' allocated' hst rfl hst'
  have htt : ttTasks tasks = ttTasks tasks' := by
    rw [htasks, ttTasks, List.filter_comm]
    refine List.filter_eq_self.2 fun t ht => decide_eq_true fun heq => ?_
    obtain ⟨ht, hm⟩ := mem_ttTasks.1 ht
    exact hw t ht heq hm
  have hcbs : cbsTasks tasks = (cbsTasks tasks').filter (·.workloadId ≠ w) := by
    rw [htasks]
    exact List.filter_comm ..
  rw [hcbs] at hdistinct
  have hordered := orderedCbs_of_small (G := G) hdistinct fun t ht hne t' ht' heq =>
    hsmall t (hcbs ▸ List.mem_filter.2 ⟨ht, decide_eq_true hne⟩) t' (mem_cbsTasks.1 ht').1 heq
  rw [← hcbs] at hordered
  set new := (G.orderedCbs (cbsTasks tasks')).filter (·.workloadId = w)
  obtain ⟨chosen, uCbs, hrun, ha⟩ := assignCpus_eq_ok_iff.1 hst.assign
  obtain ⟨chosen', uCbs', hrun', ha'⟩ := assignCpus_eq_ok_iff.1 hst'.assign
  have hloads : ∀ cbs : List ClassifiedTask, ((G.cbsOrder cbs).map fun i =>
      ((cbs.get i).utilization : U)) = (G.orderedCbs cbs).map (·.utilization) := fun cbs => by
    rw [orderedCbs, List.map_map]
    rfl
  have hlen := (worstFitRun_length hrun).trans (List.length_map ..)
  have hlen' := (worstFitRun_length hrun').trans (List.length_map ..)
  -- the run without the new tasks is the first part of the run with them
  rw [hloads] at hrun hrun'
  rw [hordered, List.map_append, worstFitRun_append, ← htt] at hrun'
  obtain ⟨chosen₁, uCbs₁, chosen₂, hrun₁, -, rfl⟩ := hrun'
  rw [hrun] at hrun₁
  cases hrun₁
  have hlength : (G.orderedCbs (cbsTasks tasks)).length = chosen.length := by
    rw [hlen, orderedCbs, List.length_map]
  have hperm : a.cbsTasks.Perm (((G.orderedCbs (cbsTasks tasks)).zip chosen).map fun x =>
      x.1.onCpu x.2) := by
    rw [ha]
    exact perm_assignAll_ordered hlen
  have hperm' : (a'.cbsTasks.filter (·.workloadId ≠ w)).Perm a.cbsTasks := by
    have hall := perm_assignAll_ordered hlen'
    rw [hordered, List.zip_append hlength, List.map_append] at hall
    have hold : ∀ t ∈ G.orderedCbs (cbsTasks tasks), t.workloadId ≠ w := fun t ht => by
      rw [(G.perm_orderedCbs _).mem_iff, hcbs] at ht
      exact of_decide_eq_true (List.mem_filter.1 ht).2
    have hnew : ∀ t ∈ new, t.workloadId = w := fun t ht =>
      of_decide_eq_true (List.mem_filter.1 ht).2
    have hall := hall.filter (·.workloadId ≠ w)
    rw [List.filter_append, filter_onCpu_of_ne hold, filter_onCpu_of_eq hnew,
      List.append_nil] at hall
    rw [ha']
    exact hall.trans hperm.symm
  refine hst.undisturbed hst' (fun c _ => Or.inl ⟨?_, fun t ht => ?_⟩) fun c => ?_
  · rw [ttTasks_assignCpus hst.assign, ttTasks_assignCpus hst'.assign, htt]
  · have ht := (mem_assignedTo.1 ht).1
    rw [ttTasks_assignCpus hst.assign] at ht
    obtain ⟨t₀, ht₀, rfl⟩ := List.mem_map.1 ht
    have ht₀ := (mem_ttTasks.1 ht₀).1
    rw [htasks] at ht₀
    exact of_decide_eq_true (List.mem_filter.1 ht₀).2
  · rw [assignedTo, List.filter_comm]
    exact hperm'.filter _

end Runs

end GlobalScheduler

end Timpani
