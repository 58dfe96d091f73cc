import Timpani.Node.Firings
import Timpani.Scheduler.Replay

/-!
# From the scheduler to the timers

The orchestrator generates a table for a node, and the node makes a thread of it for each CPU, which
sleeps until one target after the other.  This is the composition of the two: the firings of a thread
are the activations of the tasks of its CPU, one by one.

It needs the hyperperiod of the table to be that of the CPU; a table has only one.

* `Activation` : a task and the number of one of its periods since the epoch;
* `exists_activations` : a valid list of slots, replayed for ever;
* `firings_are_activations` : **end to end**: from the first hyperperiod of the thread on, every
  activation of every TT task of the CPU has exactly one firing, every firing is for one, it is within
  the window of the activation, and the work of different firings does not overlap.
-/

namespace Timpani

open GlobalScheduler (fnv1aHash cpuNumber ttSlotOf lcmPeriods Fits)
open TimerMaster (SlotEntry CpuThread gridNs skippedPeriods)

/-! ### Activations -/

/-- The activations of tasks from hyperperiod `n₀` on: an entry of the task list, and the number of
one of its periods since the epoch. -/
abbrev Activation (hp n₀ : ℕ) (ts : List ClassifiedTask) : Type :=
  {a : Fin ts.length × ℕ //
    (ts.get a.1).periodUs ≠ 0 ∧ n₀ * (hp / (ts.get a.1).periodUs.toNat) ≤ a.2}

/-- The releases of one hyperperiod, replayed from hyperperiod `n₀` on, are the activations. -/
def activationEquiv {hp : ℕ} (n₀ : ℕ) {ts : List ClassifiedTask}
    (hq : ∀ i, (ts.get i).periodUs ≠ 0 → 0 < hp / (ts.get i).periodUs.toNat) :
    ℕ × Release hp ts ≃ Activation hp n₀ ts where
  toFun x := ⟨(x.2.1.1, (n₀ + x.1) * (hp / (ts.get x.2.1.1).periodUs.toNat) + x.2.1.2), x.2.2.1, by
    rw [Nat.add_mul, Nat.add_assoc]
    exact Nat.le_add_right _ _⟩
  invFun a := (a.1.2 / (hp / (ts.get a.1.1).periodUs.toNat) - n₀,
    ⟨(a.1.1, a.1.2 % (hp / (ts.get a.1.1).periodUs.toNat)), a.2.1, Nat.mod_lt _ (hq _ a.2.1)⟩)
  left_inv := by
    rintro ⟨r, ⟨⟨i, k⟩, h0, hk⟩⟩
    have hpos := hq i h0
    have hdiv : ((n₀ + r) * (hp / (ts.get i).periodUs.toNat) + k) /
        (hp / (ts.get i).periodUs.toNat) = n₀ + r := by
      rw [Nat.mul_comm, Nat.mul_add_div hpos, Nat.div_eq_of_lt hk, Nat.add_zero]
    have hmod : ((n₀ + r) * (hp / (ts.get i).periodUs.toNat) + k) %
        (hp / (ts.get i).periodUs.toNat) = k := by
      rw [Nat.mul_comm, Nat.mul_add_mod, Nat.mod_eq_of_lt hk]
    simp only [hdiv, hmod, Nat.add_sub_cancel_left]
  right_inv := by
    rintro ⟨⟨i, n⟩, h0, hn⟩
    have hle : n₀ ≤ n / (hp / (ts.get i).periodUs.toNat) :=
      (Nat.le_div_iff_mul_le (hq i h0)).2 hn
    simp only [Subtype.mk.injEq, Prod.mk.injEq, true_and]
    rw [Nat.add_sub_cancel' hle, Nat.mul_comm]
    exact Nat.div_add_mod _ _

/-! ### Entries of TimerMaster -/

/-- The entry serves the `k`-th release of the task. -/
structure EntryServes (hp : ℕ) (t : ClassifiedTask) (k : ℕ) (e : SlotEntry) : Prop where
  workloadIdHash : e.workloadIdHash = fnv1aHash t.workloadId
  taskIdHash : e.taskIdHash = fnv1aHash t.taskId
  taskName : e.taskName = t.taskId
  durationNs : e.durationNs.toNat = t.wcetUs.toNat * 1000
  start_le : k * t.periodUs.toNat * 1000 ≤ e.offsetNs.toNat
  end_le : e.offsetNs.toNat + e.durationNs.toNat ≤
    min (k * t.periodUs.toNat + t.deadlineUs.toNat) hp * 1000

theorem Serves.toEntry {hp k i : ℕ} {t : ClassifiedTask} {s : TtSlot} (h : Serves hp t k s)
    (hw : s.workloadIdHash = fnv1aHash s.workloadId) (ht : s.taskIdHash = fnv1aHash s.taskId) :
    EntryServes hp t k (s.toEntry i) where
  workloadIdHash := by rw [← h.workloadId]; exact hw
  taskIdHash := by rw [← h.taskId]; exact ht
  taskName := h.taskId
  durationNs := by rw [← h.duration]; exact toNat_toUInt64_mul _
  start_le := by
    have := h.start_le
    simp only [TtSlot.toEntry, toNat_toUInt64_mul]
    omega
  end_le := by
    have := h.end_le
    simp only [TtSlot.toEntry, toNat_toUInt64_mul]
    omega

/-- The work of the entries does not overlap. -/
def WorkApart (a b : SlotEntry) : Prop :=
  0 < a.durationNs.toNat → 0 < b.durationNs.toNat →
    a.offsetNs.toNat + a.durationNs.toNat ≤ b.offsetNs.toNat ∨
      b.offsetNs.toNat + b.durationNs.toNat ≤ a.offsetNs.toNat

theorem workApart_of_disjoint {a b : TtSlot} {i j : ℕ} (h : Disjoint a.span b.span) :
    WorkApart (a.toEntry i) (b.toEntry j) := by
  rw [TtSlot.span, TtSlot.span, Set.Ico_disjoint_Ico] at h
  unfold WorkApart
  simp only [TtSlot.toEntry, toNat_toUInt64_mul]
  omega

/-- The entries of a CPU that runs the tasks `ts`, in the order in which its thread fires them. -/
structure ValidEntries (hp : ℕ) (ts : List ClassifiedTask) (entries : List SlotEntry) : Prop where
  sorted : entries.Pairwise fun a b => a.offsetNs.toNat ≤ b.offsetNs.toNat
  apart : entries.Pairwise WorkApart
  releases : ∃ e : Fin entries.length ≃ Release hp ts,
    ∀ j, EntryServes hp (ts.get (e j).1.1) (e j).1.2 (entries.get j)

theorem ValidSlots.validEntries {hp : ℕ} {ts : List ClassifiedTask} {slots : List TtSlot}
    (h : ValidSlots hp ts slots)
    (hash : ∀ s ∈ slots, s.workloadIdHash = fnv1aHash s.workloadId ∧
      s.taskIdHash = fnv1aHash s.taskId) {entries sorted : List SlotEntry}
    (hentries : List.Forall₂ (fun s e => ∃ i, e = s.toEntry i) slots entries)
    (hperm : sorted.Perm entries)
    (hsorted : sorted.Pairwise fun a b => a.offsetNs.toNat ≤ b.offsetNs.toNat) :
    ValidEntries hp ts sorted := by
  obtain ⟨hlen, hget⟩ := List.forall₂_iff_get.1 hentries
  refine ⟨hsorted, ?_, ?_⟩
  · have happart : entries.Pairwise WorkApart := by
      rw [List.pairwise_iff_getElem]
      intro i j hi hj hij
      obtain ⟨i', hi'⟩ := hget i (hlen ▸ hi) hi
      obtain ⟨j', hj'⟩ := hget j (hlen ▸ hj) hj
      simp only [List.get_eq_getElem] at hi' hj'
      rw [hi', hj']
      exact workApart_of_disjoint (List.pairwise_iff_getElem.1 h.disjoint i j _ _ hij)
    exact (hperm.pairwise_iff fun {a b} hab ha hb => (hab hb ha).symm).2 happart
  · obtain ⟨e, he⟩ := h.releases
    have htags : List.Forall₂ (fun entry (r : Release hp ts) =>
        EntryServes hp (ts.get r.1.1) r.1.2 entry) entries (List.ofFn e) := by
      refine List.forall₂_iff_get.2 ⟨by rw [List.length_ofFn, hlen], fun i hi hi' => ?_⟩
      have hi₀ : i < slots.length := hlen ▸ hi
      obtain ⟨i', hentry⟩ := hget i hi₀ hi
      have hslot := hash _ (List.get_mem slots ⟨i, hi₀⟩)
      rw [hentry, List.get_ofFn]
      exact (he ⟨i, hi₀⟩).toEntry hslot.1 hslot.2
    obtain ⟨rs, hrs, hperm'⟩ := List.perm_comp_forall₂ hperm htags
    have hnd : rs.Nodup := hperm'.nodup_iff.2 (List.nodup_ofFn.2 e.injective)
    have hall : ∀ r, r ∈ rs := fun r => hperm'.mem_iff.2 (List.mem_ofFn.2 ⟨e.symm r, e.apply_symm_apply r⟩)
    refine ⟨(finCongr hrs.length_eq).trans (hnd.getEquivOfForallMemList rs hall), fun j => ?_⟩
    exact (List.forall₂_iff_get.1 hrs).2 j j.isLt (hrs.length_eq ▸ j.isLt)

/-! ### Replaying -/

/-- A firing at the time `target` is for the `n`-th activation of the task. -/
structure FiresFor (E : ℕ) (t : ClassifiedTask) (n : ℕ) (e : SlotEntry) (target : ℕ) : Prop where
  workloadIdHash : e.workloadIdHash = fnv1aHash t.workloadId
  taskIdHash : e.taskIdHash = fnv1aHash t.taskId
  taskName : e.taskName = t.taskId
  release : E + n * t.periodUs.toNat * 1000 ≤ target
  deadline : target + t.wcetUs.toNat * 1000 ≤ E + (n * t.periodUs.toNat + t.deadlineUs.toNat) * 1000

section Replayed

variable {hp : ℕ} {ts : List ClassifiedTask} {entries : List SlotEntry} {E H : UInt64} {n₀ : ℕ}

/-- The entry of the `k`-th firing. -/
def entryAt (entries : List SlotEntry) (hne : 0 < entries.length) (k : ℕ) : SlotEntry :=
  entries.get ⟨k % entries.length, Nat.mod_lt k hne⟩

theorem gridNs_eq (hne : 0 < entries.length) (k : ℕ) :
    gridNs entries E H n₀ k = E.toNat + (n₀ + k / entries.length) * H.toNat +
      (entryAt entries hne k).offsetNs.toNat := by
  have hlt : k % entries.length < (entries.map (·.offsetNs)).length := by
    rw [List.length_map]
    exact Nat.mod_lt k hne
  rw [gridNs, List.getD_eq_getElem _ _ hlt, List.getElem_map]
  rfl

/-- **Valid entries, replayed for ever,** serve every activation once. -/
theorem ValidEntries.exists_activations (h : ValidEntries hp ts entries) (hne : 0 < entries.length)
    (hhp : 0 < hp) (hdvd : ∀ i, (ts.get i).periodUs ≠ 0 → (ts.get i).periodUs.toNat ∣ hp)
    (hH : H.toNat = hp * 1000) :
    ∃ e : ℕ ≃ Activation hp n₀ ts, ∀ k,
      FiresFor E.toNat (ts.get (e k).1.1) (e k).1.2 (entryAt entries hne k)
        (gridNs entries E H n₀ k) ∧
      (entryAt entries hne k).durationNs.toNat = (ts.get (e k).1.1).wcetUs.toNat * 1000 := by
  obtain ⟨e, he⟩ := h.releases
  have : NeZero entries.length := ⟨hne.ne'⟩
  have hq : ∀ i, (ts.get i).periodUs ≠ 0 → 0 < hp / (ts.get i).periodUs.toNat := fun i h0 =>
    Nat.div_pos (Nat.le_of_dvd hhp (hdvd i h0))
      (Nat.pos_of_ne_zero fun h => h0 (UInt32.toNat_inj.1 h))
  refine ⟨(Nat.divModEquiv entries.length).trans
    ((Equiv.prodCongr (Equiv.refl ℕ) e).trans (activationEquiv n₀ hq)), fun k => ?_⟩
  have hserve := he (Fin.ofNat entries.length k)
  set r := e (Fin.ofNat entries.length k) with hr
  have hentry : entries.get (Fin.ofNat entries.length k) = entryAt entries hne k := rfl
  rw [hentry] at hserve
  have hmul : hp / (ts.get r.1.1).periodUs.toNat * (ts.get r.1.1).periodUs.toNat = hp :=
    Nat.div_mul_cancel (hdvd _ r.2.1)
  have hstart : ((n₀ + k / entries.length) * (hp / (ts.get r.1.1).periodUs.toNat) + r.1.2) *
      (ts.get r.1.1).periodUs.toNat =
        (n₀ + k / entries.length) * hp + r.1.2 * (ts.get r.1.1).periodUs.toNat := by
    rw [Nat.add_mul, Nat.mul_assoc, hmul]
  refine ⟨⟨hserve.workloadIdHash, hserve.taskIdHash, hserve.taskName, ?_, ?_⟩, hserve.durationNs⟩
  all_goals rw [gridNs_eq hne, hH]
  all_goals
    simp only [Equiv.trans_apply, Nat.divModEquiv_apply, Equiv.prodCongr_apply, Prod.map_apply,
      Equiv.refl_apply, activationEquiv, Equiv.coe_fn_mk]
    rw [← hr]
  · have hle := hserve.start_le
    rw [hstart, ← Nat.mul_assoc]
    omega
  · have hle := hserve.end_le
    rw [hserve.durationNs] at hle
    rw [hstart, ← Nat.mul_assoc]
    omega

theorem ValidEntries.gridNs_apart (h : ValidEntries hp ts entries) (hne : 0 < entries.length)
    (hH : H.toNat = hp * 1000) {k k' : ℕ} (hk : k < k')
    (hwork : 0 < (entryAt entries hne k).durationNs.toNat)
    (hwork' : 0 < (entryAt entries hne k').durationNs.toNat) :
    gridNs entries E H n₀ k + (entryAt entries hne k).durationNs.toNat ≤
      gridNs entries E H n₀ k' := by
  rw [gridNs_eq hne, gridNs_eq hne, hH]
  rcases (Nat.div_le_div_right hk.le : k / entries.length ≤ k' / entries.length).eq_or_lt with
    hsame | hlater
  · -- in one hyperperiod the entries are in order
    rw [hsame]
    have hmod : k % entries.length < k' % entries.length := by
      have hk₁ := Nat.div_add_mod k entries.length
      have hk₂ := Nat.div_add_mod k' entries.length
      rw [hsame] at hk₁
      omega
    have hle := List.pairwise_iff_getElem.1 h.sorted _ _ (Nat.mod_lt k hne) (Nat.mod_lt k' hne) hmod
    have happart := List.pairwise_iff_getElem.1 h.apart _ _ (Nat.mod_lt k hne) (Nat.mod_lt k' hne)
      hmod hwork hwork'
    simp only [entryAt, List.get_eq_getElem] at hwork hwork' ⊢
    omega
  · -- an entry ends within its hyperperiod
    obtain ⟨e, he⟩ := h.releases
    have hend := (he ⟨k % entries.length, Nat.mod_lt k hne⟩).end_le
    have hentry : entries.get ⟨k % entries.length, Nat.mod_lt k hne⟩ = entryAt entries hne k := rfl
    rw [hentry] at hend
    have hmul : (n₀ + k / entries.length + 1) * (hp * 1000) ≤
        (n₀ + k' / entries.length) * (hp * 1000) := Nat.mul_le_mul_right _ (by omega)
    rw [Nat.add_mul _ 1, Nat.one_mul] at hmul
    omega

end Replayed

/-! ### The thread of a CPU -/

namespace TimerMaster

variable {stdSort : StdSort} {slotTable : List SlotEntry} {E H : UInt64}
  {clock : UInt32 → UInt64} {cpu : UInt32} {th : CpuThread}

/-- The slot a thread fires next. -/
def CpuThread.slot (th : CpuThread) : SlotEntry := th.cpuSlots.get th.nextSlotIdx

theorem CpuThread.length_pos (th : CpuThread) : 0 < th.cpuSlots.length :=
  Nat.zero_lt_of_lt th.nextSlotIdx.isLt

theorem firings_of_spawn (hspawn : spawn stdSort slotTable H E clock cpu = some th) (hE : 0 < E)
    (k : ℕ) :
    (CpuThread.advance^[k] th).slot = entryAt th.cpuSlots th.length_pos k ∧
      (CpuThread.advance^[k] th).targetNs =
        UInt64.ofNat (gridNs th.cpuSlots E H (skippedPeriods E H (clock cpu)) k) := by
  unfold spawn at hspawn
  dsimp only at hspawn
  split_ifs at hspawn with hpos
  cases hspawn
  constructor
  · rw [CpuThread.slot, CpuThread.iterate_advance _ rfl]
    rfl
  · rw [CpuThread.targetNs_iterate _ rfl k, firstHyperperiodStart_eq hE, gridNs, Nat.add_mul]
    simp only [UInt64.ofNat_add, UInt64.ofNat_mul, UInt64.ofNat_toNat, UInt64.add_assoc]

end TimerMaster

/-! ### Generated tables -/

theorem HierarchicalScheduleTable.forall₂_entries (table : HierarchicalScheduleTable) (cpu : UInt32) :
    List.Forall₂ (fun s e => ∃ i, e = s.toEntry i) (table.ttSlots.filter (·.cpu = cpu))
      (table.slotEntries.filter (·.cpu = cpu)) := by
  unfold slotEntries
  generalize table.ttSlots = slots
  generalize 0 = i
  induction slots generalizing i with
  | nil => exact .nil
  | cons s slots ih =>
    have hcpu : (s.toEntry i).cpu = s.cpu := rfl
    simp only [List.zipIdx_cons, List.map_cons, List.filter_cons, hcpu]
    split_ifs
    · exact .cons ⟨i, rfl⟩ (ih (i + 1))
    · exact ih (i + 1)

namespace GlobalScheduler

theorem cpuNumber_inj {c c' : ℤ} (hc : -2 ^ 31 ≤ c ∧ c < 2 ^ 31) (hc' : -2 ^ 31 ≤ c' ∧ c' < 2 ^ 31)
    (h : cpuNumber c = cpuNumber c') : c = c' := by
  have hof : Int32.ofInt c = Int32.ofInt c' := by
    unfold cpuNumber at h
    cases hx : Int32.ofInt c
    cases hy : Int32.ofInt c'
    rw [hx, hy] at h
    cases h
    rfl
  rw [← Int32.toInt_ofInt_of_le hc.1 hc.2, hof, Int32.toInt_ofInt_of_le hc'.1 hc'.2]

theorem flatMap_of_cpuId {U α : Type} {scheds : List (PerCpuSchedule U)} {s₀ : PerCpuSchedule U}
    (hnd : (scheds.map (·.cpuId)).Nodup) (hs₀ : s₀ ∈ scheds) {f : PerCpuSchedule U → List α}
    (hf : ∀ s ∈ scheds, s.cpuId ≠ s₀.cpuId → f s = []) : scheds.flatMap f = f s₀ := by
  induction scheds with
  | nil => cases hs₀
  | cons s scheds ih =>
    rw [List.map_cons, List.nodup_cons] at hnd
    rw [List.flatMap_cons]
    rcases List.mem_cons.1 hs₀ with rfl | hs₀
    · have hrest : scheds.flatMap f = [] := by
        refine List.flatMap_eq_nil_iff.2 fun s hs => hf s (List.mem_cons_of_mem _ hs) fun heq => ?_
        exact hnd.1 (heq ▸ List.mem_map_of_mem hs)
      rw [hrest, List.append_nil]
    · have hne : s.cpuId ≠ s₀.cpuId := fun heq => hnd.1 (heq ▸ List.mem_map_of_mem hs₀)
      rw [hf s List.mem_cons_self hne, List.nil_append]
      exact ih hnd.2 hs₀ fun s hs => hf s (List.mem_cons_of_mem _ hs)

theorem CpuResult.cpu_eq {U : Type} {a : Assignment U} {s : PerCpuSchedule U} (h : CpuResult a s)
    {slot : TtSlotPlacement} (hslot : slot ∈ s.ttSlots) : slot.cpu = s.cpuId := by
  obtain ⟨rs, -, -, hframes⟩ := h.placement.exists_tags
  obtain ⟨r, -, hin⟩ := exists_of_forall₂_left hframes hslot
  rw [hin.eq]
  rfl

variable {U : Type} [Floating U] {G : GlobalScheduler U} {now : UInt64} {nodeId : Text}
  {tasks : List ClassifiedTask} {table : HierarchicalScheduleTable}

theorem validSlots_on_cpu (hfit : ∀ t ∈ tasks, Fits t)
    (h : G.generateSchedule now nodeId tasks = .ok table)
    (hcpus : ∀ c ∈ G.availableCpus nodeId, -2 ^ 31 ≤ c ∧ c < 2 ^ 31) {cpu : ℤ}
    (hne : G.ttOn nodeId tasks cpu ≠ []) :
    ValidSlots (lcmPeriods (G.ttOn nodeId tasks cpu)) (G.ttOn nodeId tasks cpu)
        (table.ttSlots.filter (·.cpu = cpuNumber cpu)) ∧
      ∀ s ∈ table.ttSlots.filter (·.cpu = cpuNumber cpu),
        s.workloadIdHash = fnv1aHash s.workloadId ∧ s.taskIdHash = fnv1aHash s.taskId := by
  obtain ⟨t, ht⟩ := List.exists_mem_of_ne_nil _ hne
  have htasks : tasks ≠ [] := by
    obtain ⟨t₀, ht₀, -⟩ := mem_ttOn ht
    exact List.ne_nil_of_mem ht₀
  obtain ⟨a, allocated, hst, rfl⟩ := (generateSchedule_eq_ok htasks).1 h
  have hint : ∀ s ∈ allocated, -2 ^ 31 ≤ s.cpuId ∧ s.cpuId < 2 ^ 31 := fun s hs => by
    have hmem : s.cpuId ∈ allocated.map (·.cpuId) := List.mem_map_of_mem hs
    rw [hst.cpuIds, mem_stdSet] at hmem
    exact hcpus _ hmem
  -- the CPU has a schedule, since a task is assigned to it
  obtain ⟨s₀, hs₀, rfl⟩ : ∃ s₀ ∈ allocated, s₀.cpuId = cpu := by
    rw [hst.ttOn, mem_assignedTo, ttTasks_assignCpus hst.assign] at ht
    obtain ⟨hmem, rfl⟩ := ht
    obtain ⟨t₀, -, rfl⟩ := List.mem_map.1 hmem
    refine List.mem_map.1 ?_
    rw [hst.cpuIds, mem_stdSet]
    exact dedicatedCpu_mem (G.availableCpus_ne_nil nodeId) _ _
  have hslots : (buildTable now nodeId allocated
      (calculateHyperperiod (periodsOf a.ttTasks))).ttSlots.filter (·.cpu = cpuNumber s₀.cpuId) =
        s₀.ttSlots.map ttSlotOf := by
    rw [HierarchicalScheduleTable.ttSlots, ← HierarchicalScheduleTable.slots, slots_buildTable,
      List.map_flatMap, List.filter_flatMap, flatMap_of_cpuId hst.nodup_cpuIds hs₀]
    · refine List.filter_eq_self.2 fun slot hslot => ?_
      obtain ⟨p, hp, rfl⟩ := List.mem_map.1 hslot
      exact decide_eq_true (congrArg cpuNumber ((hst.cpuResult s₀ hs₀).cpu_eq hp))
    · intro s hs hne
      refine List.filter_eq_nil_iff.2 fun slot hslot heq => hne ?_
      obtain ⟨p, hp, rfl⟩ := List.mem_map.1 hslot
      have hcpu : cpuNumber p.cpu = cpuNumber s₀.cpuId := of_decide_eq_true heq
      rw [(hst.cpuResult s hs).cpu_eq hp] at hcpu
      exact cpuNumber_inj (hint s hs) (hint s₀ hs₀) hcpu
  rw [hslots]
  obtain ⟨hharm, hplace⟩ := hst.cpuResult s₀ hs₀
  rw [← hst.ttOn] at hharm hplace
  refine ⟨hplace.validSlots hharm fun t ht => ?_, fun slot hslot => ?_⟩
  · obtain ⟨t₀, ht₀, -, rfl⟩ := mem_ttOn ht
    exact hfit t₀ ht₀
  · obtain ⟨p, -, rfl⟩ := List.mem_map.1 hslot
    exact ⟨rfl, rfl⟩

end GlobalScheduler

/-! ### The node -/

namespace TimedDaemon

variable {U : Type} [Floating U] {G : GlobalScheduler U} {now : UInt64} {nodeId : Text}
  {tasks : List ClassifiedTask} {table : HierarchicalScheduleTable} {cpu : ℤ}

theorem exists_thread (stdSort : StdSort) (t : TimedDaemon) (findPid : ℕ → Option UInt32)
    (clock : ℕ → UInt64) (restarts : ℕ → Restart) {cpu : UInt32}
    (hne : table.slotEntries.filter (·.cpu = cpu) ≠ []) :
    ∃ th, (t.tableCallback stdSort findPid clock table restarts).threads cpu = some th ∧
      TimerMaster.spawn stdSort (TimerMaster.setScheduleTable stdSort table.slotEntries)
        (table.hyperperiodUs.toUInt64 * 1000) table.epochNs
        (restarts (t.daemon.node.evictedHashes table).length).clock cpu = some th ∧
      th.cpuSlots.Perm (table.slotEntries.filter (·.cpu = cpu)) ∧
      th.cpuSlots.Pairwise fun a b => a.offsetNs.toNat ≤ b.offsetNs.toNat := by
  have hweak : StrictWeak fun a b : SlotEntry => decide (a.offsetNs < b.offsetNs) :=
    StrictWeak.of_uint64_lt.comap SlotEntry.offsetNs
  set sorted := stdSort.sort (fun a b => a.offsetNs < b.offsetNs)
    ((TimerMaster.setScheduleTable stdSort table.slotEntries).filter (·.cpu = cpu)) with hdef
  have hperm : sorted.Perm (table.slotEntries.filter (·.cpu = cpu)) :=
    (stdSort.perm hweak _).trans ((stdSort.perm hweak table.slotEntries).filter _)
  have hpos : 0 < sorted.length := by
    rw [hperm.length_eq]
    exact List.length_pos_of_ne_nil hne
  refine ⟨_, dif_pos hpos, dif_pos hpos, hperm, (stdSort.sorted hweak _).imp fun {a b} hab => ?_⟩
  rw [decide_eq_false_iff_not, UInt64.not_lt] at hab
  exact UInt64.le_iff_toNat_le.1 hab

/-- **From the scheduler to the timers.**  Let a table be generated for a node and applied there, and
let its hyperperiod be that of the tasks of a CPU.  Then the thread of the CPU fires for the
activations of these tasks, from its first hyperperiod `n₀` on: every activation has exactly one
firing and every firing is for an activation, as long as the deadline fits into the 64-bit clock.  The
firing carries the names of the task, is not before the start of the period, leaves enough time
before the deadline, and the work of different firings does not overlap. -/
theorem firings_are_activations (hfit : ∀ t ∈ tasks, Fits t)
    (h : G.generateSchedule now nodeId tasks = .ok table) (hepoch : 0 < table.epochNs)
    (hcpus : ∀ c ∈ G.availableCpus nodeId, -2 ^ 31 ≤ c ∧ c < 2 ^ 31)
    (htask : ∃ t ∈ G.ttOn nodeId tasks cpu, t.periodUs ≠ 0)
    (hhp : lcmPeriods (G.ttOn nodeId tasks cpu) = table.hyperperiodUs.toNat) (stdSort : StdSort)
    (t : TimedDaemon) (findPid : ℕ → Option UInt32) (clock : ℕ → UInt64) (restarts : ℕ → Restart) :
    let ts := G.ttOn nodeId tasks cpu
    let E := table.epochNs.toNat
    let n₀ := skippedPeriods table.epochNs (table.hyperperiodUs.toUInt64 * 1000)
      ((restarts (t.daemon.node.evictedHashes table).length).clock (cpuNumber cpu))
    ∃ th, (t.tableCallback stdSort findPid clock table restarts).threads (cpuNumber cpu) = some th ∧
      ∃ e : ℕ ≃ Activation table.hyperperiodUs.toNat n₀ ts,
        let task := fun k => ts.get (e k).1.1
        let deadlineNs := fun k =>
          E + ((e k).1.2 * (task k).periodUs.toNat + (task k).deadlineUs.toNat) * 1000
        (∀ k, deadlineNs k < 2 ^ 64 →
          FiresFor E (task k) (e k).1.2 (CpuThread.advance^[k] th).slot
            (CpuThread.advance^[k] th).targetNs.toNat) ∧
        ∀ k k', k < k' → deadlineNs k < 2 ^ 64 → deadlineNs k' < 2 ^ 64 →
          0 < (task k).wcetUs → 0 < (task k').wcetUs →
          (CpuThread.advance^[k] th).targetNs.toNat + (task k).wcetUs.toNat * 1000 ≤
            (CpuThread.advance^[k'] th).targetNs.toNat := by
  intro ts E n₀
  obtain ⟨t₀, ht₀, h0⟩ := htask
  obtain ⟨hvalid, hash⟩ :=
    GlobalScheduler.validSlots_on_cpu hfit h hcpus (List.ne_nil_of_mem ht₀)
  have hentries := table.forall₂_entries (cpuNumber cpu)
  have hdvd : ∀ i : Fin ts.length, (ts.get i).periodUs ≠ 0 →
      (ts.get i).periodUs.toNat ∣ table.hyperperiodUs.toNat := fun i hi =>
    hhp ▸ GlobalScheduler.dvd_lcmPeriods (ts.get_mem i) hi
  have hpos : 0 < table.hyperperiodUs.toNat :=
    hhp ▸ Nat.pos_of_ne_zero (GlobalScheduler.lcmPeriods_ne_zero ts)
  rw [hhp] at hvalid
  -- the first release of the task has a slot, so there is a thread
  have hne : table.slotEntries.filter (·.cpu = cpuNumber cpu) ≠ [] := by
    obtain ⟨i, hi⟩ := List.get_of_mem ht₀
    rw [← hi] at h0
    obtain ⟨e, -⟩ := hvalid.releases
    have hslot := (e.symm ⟨(i, 0), h0, Nat.div_pos (Nat.le_of_dvd hpos (hdvd i h0))
      (Nat.pos_of_ne_zero fun h => h0 (UInt32.toNat_inj.1 h))⟩).isLt
    exact List.ne_nil_of_length_pos (hentries.length_eq ▸ Nat.zero_lt_of_lt hslot)
  obtain ⟨th, hth, hspawn, hperm, hsorted⟩ :=
    t.exists_thread stdSort findPid clock restarts hne
  have hval := hvalid.validEntries hash hentries hperm hsorted
  have hH : (table.hyperperiodUs.toUInt64 * 1000).toNat = table.hyperperiodUs.toNat * 1000 :=
    toNat_toUInt64_mul _
  obtain ⟨e, he⟩ : ∃ e : ℕ ≃ Activation table.hyperperiodUs.toNat n₀ ts, ∀ k,
      FiresFor E (ts.get (e k).1.1) (e k).1.2 (entryAt th.cpuSlots th.length_pos k)
        (gridNs th.cpuSlots table.epochNs (table.hyperperiodUs.toUInt64 * 1000) n₀ k) ∧
      (entryAt th.cpuSlots th.length_pos k).durationNs.toNat =
        (ts.get (e k).1.1).wcetUs.toNat * 1000 :=
    hval.exists_activations th.length_pos hpos hdvd hH
  have htarget : ∀ k, E + ((e k).1.2 * (ts.get (e k).1.1).periodUs.toNat +
      (ts.get (e k).1.1).deadlineUs.toNat) * 1000 < 2 ^ 64 →
      (CpuThread.advance^[k] th).targetNs.toNat =
        gridNs th.cpuSlots table.epochNs (table.hyperperiodUs.toUInt64 * 1000) n₀ k := by
    intro k hk
    have hle := (he k).1.deadline
    rw [(TimerMaster.firings_of_spawn hspawn hepoch k).2, UInt64.toNat_ofNat_of_lt']
    exact lt_of_le_of_lt ((Nat.le_add_right _ _).trans hle) hk
  refine ⟨th, hth, e, fun k hk => ?_, fun k k' hlt hk hk' hwork hwork' => ?_⟩
  · rw [htarget k hk, (TimerMaster.firings_of_spawn hspawn hepoch k).1]
    exact (he k).1
  · rw [htarget k hk, htarget k' hk', ← (he k).2]
    have hduration : ∀ k, 0 < (ts.get (e k).1.1).wcetUs →
        0 < (entryAt th.cpuSlots th.length_pos k).durationNs.toNat := fun k hw => by
      rw [(he k).2]
      exact Nat.mul_pos (UInt32.lt_iff_toNat_lt.1 hw) (by decide)
    exact hval.gridNs_apart th.length_pos hH hlt (hduration k hwork) (hduration k' hwork')

/-- Two tasks of a workload with periods of 20 and 10 µs. -/
def slowAndFast : List ClassifiedTask :=
  [.periodic (text "w") (text "slow") 20 8 20, .periodic (text "w") (text "fast") 10 2 10]

/-- The eighth period of the faster one begins 70 µs after the epoch. -/
theorem firings_are_activations_fast :
    ∃ table th k, GlobalScheduler.unconfigured.generateSchedule 1000 (text "n") slowAndFast =
        .ok table ∧
      (idle.tableCallback insertionStdSort (Daemon.finding []) (fun _ => 0) table swift).threads 2 =
        some th ∧
      FiresFor 1000 ((ClassifiedTask.periodic (text "w") (text "fast") 10 2 10).onCpu 2) 7
        (CpuThread.advance^[k] th).slot (CpuThread.advance^[k] th).targetNs.toNat := by
  have heval : (GlobalScheduler.unconfigured.generateSchedule 1000 (text "n")
      slowAndFast).toOption.any (fun table =>
        decide (table.epochNs = 1000 ∧ table.hyperperiodUs = 20)) = true := by decide +kernel
  have hts : GlobalScheduler.unconfigured.ttOn (text "n") slowAndFast 2 =
      slowAndFast.map (·.onCpu 2) := by decide +kernel
  cases h : GlobalScheduler.unconfigured.generateSchedule 1000 (text "n") slowAndFast with
  | error e => rw [h] at heval; cases heval
  | ok table =>
    rw [h] at heval
    obtain ⟨hepoch, hhp⟩ := of_decide_eq_true heval
    obtain ⟨th, hth, e, hfires, -⟩ := @firings_are_activations _ _ _ _ _ _ _ 2 (by decide) h
      (by rw [hepoch]; decide) (by decide) (by rw [hts]; decide) (by rw [hts, hhp]; decide)
      insertionStdSort idle (Daemon.finding []) (fun _ => 0) swift
    have hlt : 1 < (GlobalScheduler.unconfigured.ttOn (text "n") slowAndFast 2).length := by
      rw [hts]
      decide
    have hget : (GlobalScheduler.unconfigured.ttOn (text "n") slowAndFast 2).get ⟨1, hlt⟩ =
        (ClassifiedTask.periodic (text "w") (text "fast") 10 2 10).onCpu 2 :=
      (List.get_of_eq hts ⟨1, hlt⟩).trans rfl
    have hfirst : skippedPeriods table.epochNs (table.hyperperiodUs.toUInt64 * 1000)
        ((swift (idle.daemon.node.evictedHashes table).length).clock (cpuNumber 2)) = 0 := by
      rw [hepoch]
      exact if_neg (show ¬ (1000 : UInt64) < 1 by decide)
    obtain ⟨k, hk⟩ := e.surjective ⟨(⟨1, hlt⟩, 7), by rw [hget]; decide, by rw [hfirst]; simp⟩
    have hfire := hfires k
    simp only [hk, hget, hepoch] at hfire
    exact ⟨table, th, k, rfl, hth, hfire (by decide)⟩

end TimedDaemon

end Timpani
