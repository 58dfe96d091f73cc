import Timpani.Cpp.Loop
import Timpani.Rust.Scheduler
import Timpani.Scheduler.Hyperperiod
import Mathlib.Data.List.Destutter

/-!
# Hyperperiods in the Rust orchestrator

The Rust orchestrator computes the hyperperiod of a workload as the C++ one does, with two
differences: the products are checked, and a hyperperiod beyond the limit is an error.

* `lcmOfSlice_toNat` : what is computed is the least common multiple;
* `HyperperiodManager.calculateHyperperiod_ok` : the hyperperiod of a workload, if it is accepted;
* `HyperperiodManager.calculateHyperperiod_exact` : results and errors, told apart by the periods.
-/

namespace Timpani.Rust

/-- `DEFAULT_HYPERPERIOD_LIMIT_US`, one hour. -/
def defaultHyperperiodLimitUs : UInt64 := 3600000000

inductive HyperperiodError where
  | noValidPeriods
  | overflow (a b : UInt64)
  | tooLarge (valueUs limitUs : UInt64)
  deriving DecidableEq, Repr

/-! ### Arithmetic -/

/-- Euclid's loop is the one of the C++ scheduler. -/
def gcd (a b : UInt64) : UInt64 := Timpani.GlobalScheduler.gcd a b

def lcm (a b : UInt64) : Except HyperperiodError UInt64 :=
  if a = 0 || b = 0 then .ok 0
  else
    let reduced := a / gcd a b
    if reduced.toNat * b.toNat < 2 ^ 64 then .ok (reduced * b) else .error (.overflow a b)

def lcmOfSlice (periods : List UInt64) : Except HyperperiodError UInt64 :=
  periods.foldlM lcm (periods.head?.getD 0)

theorem lcm_toNat {a b r : UInt64} (h : lcm a b = .ok r) : r.toNat = Nat.lcm a.toNat b.toNat := by
  unfold lcm at h
  dsimp only at h
  split_ifs at h with hzero hlt
  · cases h
    rw [Bool.or_eq_true, decide_eq_true_eq, decide_eq_true_eq] at hzero
    rcases hzero with rfl | rfl
    · exact (Nat.lcm_zero_left _).symm
    · exact (Nat.lcm_zero_right _).symm
  · cases h
    rw [UInt64.toNat_mul, Nat.mod_eq_of_lt hlt]
    exact Timpani.GlobalScheduler.div_gcd_mul a b

theorem foldlM_lcm_toNat {ps : List UInt64} {a r : UInt64} (h : ps.foldlM lcm a = .ok r) :
    r.toNat = Nat.lcm a.toNat (Multiset.lcm (ps.map UInt64.toNat : List ℕ)) := by
  induction ps generalizing a with
  | nil =>
    cases h
    simp
  | cons p ps ih =>
    rw [List.foldlM_cons] at h
    obtain ⟨b, hb, h⟩ := bind_eq_ok.1 h
    rw [ih h, lcm_toNat hb, List.map_cons, ← Multiset.cons_coe, Multiset.lcm_cons, lcm_eq_nat_lcm,
      Nat.lcm_assoc]

/-- **What is computed is the least common multiple.** -/
theorem lcmOfSlice_toNat {ps : List UInt64} (hne : ps ≠ []) {r : UInt64}
    (h : lcmOfSlice ps = .ok r) :
    r.toNat = Multiset.lcm (ps.map UInt64.toNat : List ℕ) := by
  cases ps with
  | nil => exact absurd rfl hne
  | cons p ps =>
    rw [foldlM_lcm_toNat h]
    -- the first period is also where the fold starts
    exact Nat.lcm_eq_right (Multiset.dvd_lcm (Multiset.mem_coe.2 List.mem_cons_self))

theorem lcm_cases {a b : UInt64} (ha : a ≠ 0) (hb : b ≠ 0) :
    (∃ r, lcm a b = .ok r ∧ r.toNat = Nat.lcm a.toNat b.toNat) ∨
      (lcm a b = .error (.overflow a b) ∧ 2 ^ 64 ≤ Nat.lcm a.toNat b.toNat) := by
  have hprod : (a / gcd a b).toNat * b.toNat = Nat.lcm a.toNat b.toNat :=
    Timpani.GlobalScheduler.div_gcd_mul a b
  have hzero : (decide (a = 0) || decide (b = 0)) = false := by simp [ha, hb]
  have hunfold : lcm a b = if (a / gcd a b).toNat * b.toNat < 2 ^ 64 then .ok (a / gcd a b * b)
      else .error (.overflow a b) := by
    unfold lcm
    rw [hzero]
    rfl
  by_cases hlt : (a / gcd a b).toNat * b.toNat < 2 ^ 64
  · rw [if_pos hlt] at hunfold
    exact Or.inl ⟨_, hunfold, lcm_toNat hunfold⟩
  · rw [if_neg hlt] at hunfold
    exact Or.inr ⟨hunfold, hprod ▸ Nat.le_of_not_lt hlt⟩

/-- Partial results divide the whole, so an error in the middle is an error of the whole. -/
theorem foldlM_lcm_cases {ps : List UInt64} {a : UInt64} (ha : a ≠ 0) (hps : ∀ p ∈ ps, p ≠ 0) :
    (∃ r, ps.foldlM lcm a = .ok r) ∨
      ∃ x y, ps.foldlM lcm a = .error (.overflow x y) ∧
        2 ^ 64 ≤ Nat.lcm a.toNat (Multiset.lcm (ps.map UInt64.toNat : List ℕ)) := by
  induction ps generalizing a with
  | nil => exact Or.inl ⟨a, rfl⟩
  | cons p ps ih =>
    have hne : ∀ {x : UInt64}, x ≠ 0 → x.toNat ≠ 0 := fun h h' => h (UInt64.toNat_inj.1 h')
    have hp := hps p List.mem_cons_self
    have hrest := fun q hq => hps q (List.mem_cons_of_mem p hq)
    rw [List.foldlM_cons, List.map_cons, ← Multiset.cons_coe, Multiset.lcm_cons, lcm_eq_nat_lcm,
      ← Nat.lcm_assoc]
    rcases lcm_cases ha hp with ⟨r, hr, hlcm⟩ | ⟨herr, hlarge⟩
    · have hr0 : r ≠ 0 := by
        rintro rfl
        exact Nat.lcm_ne_zero (hne ha) (hne hp) hlcm.symm
      rw [hr, ← hlcm]
      exact ih hr0 hrest
    · refine Or.inr
        ⟨a, p, by rw [herr]; rfl, hlarge.trans (Nat.le_of_dvd ?_ (Nat.dvd_lcm_left _ _))⟩
      refine Nat.pos_of_ne_zero (Nat.lcm_ne_zero (Nat.lcm_ne_zero (hne ha) (hne hp)) ?_)
      rw [ne_eq, Multiset.lcm_eq_zero_iff, Multiset.mem_coe, List.mem_map]
      rintro ⟨q, hq, hzero⟩
      exact hne (hrest q hq) hzero

/-- The fold as a whole: the least common multiple, or an error where 64 bits do not hold it. -/
theorem lcmOfSlice_cases {ps : List UInt64} (hne : ps ≠ []) (hps : ∀ p ∈ ps, p ≠ 0) :
    (∃ r, lcmOfSlice ps = .ok r ∧ r.toNat = Multiset.lcm (ps.map UInt64.toNat : List ℕ)) ∨
      ∃ x y, lcmOfSlice ps = .error (.overflow x y) ∧
        2 ^ 64 ≤ Multiset.lcm (ps.map UInt64.toNat : List ℕ) := by
  cases ps with
  | nil => exact absurd rfl hne
  | cons p ps =>
    rcases foldlM_lcm_cases (hps p List.mem_cons_self) hps with ⟨r, hr⟩ | ⟨x, y, herr, hlarge⟩
    · exact Or.inl ⟨r, hr, lcmOfSlice_toNat hne hr⟩
    · refine Or.inr ⟨x, y, herr, ?_⟩
      rwa [Nat.lcm_eq_right (Multiset.dvd_lcm (Multiset.mem_coe.2
        (List.mem_map_of_mem List.mem_cons_self)))] at hlarge

/-! ### Workloads -/

structure HyperperiodInfo where
  workloadId : Text
  hyperperiodUs : UInt64
  uniquePeriods : List UInt64
  taskCount : ℕ
  deriving DecidableEq, Repr

structure HyperperiodManager where
  map : Std.ExtTreeMap Text HyperperiodInfo
  limitUs : UInt64

namespace HyperperiodManager

def new : HyperperiodManager := ⟨∅, defaultHyperperiodLimitUs⟩

/-- The tasks of a workload whose periods count. -/
def matching (workloadId : Text) (tasks : List Task) : List Task :=
  tasks.filter fun t => t.workloadId = workloadId && 0 < t.periodUs

/-- The periods in increasing order, each once: `sort_unstable` and `dedup`. -/
def distinctPeriods (stdSort : StdSort) (tasks : List Task) : List UInt64 :=
  (stdSort.sort (fun a b => a < b) (tasks.map (·.periodUs))).destutter (· ≠ ·)

/-- The manager once the hyperperiod of a workload is stored. -/
def store (m : HyperperiodManager) (info : HyperperiodInfo) : HyperperiodManager :=
  { m with map := m.map.insert info.workloadId info }

/-- `calculate_hyperperiod`, with the manager it leaves; `sort_unstable` is any sort. -/
def calculateHyperperiod (stdSort : StdSort) (m : HyperperiodManager) (workloadId : Text)
    (tasks : List Task) : HyperperiodManager × Except HyperperiodError HyperperiodInfo :=
  if matching workloadId tasks = [] then (m, .error .noValidPeriods)
  else
    let uniquePeriods := distinctPeriods stdSort (matching workloadId tasks)
    match lcmOfSlice uniquePeriods with
    | .error e => (m, .error e)
    | .ok hyperperiodUs =>
      if hyperperiodUs > m.limitUs then (m, .error (.tooLarge hyperperiodUs m.limitUs))
      else
        let info := ⟨workloadId, hyperperiodUs, uniquePeriods, (matching workloadId tasks).length⟩
        (m.store info, .ok info)

theorem mem_destutter_ne {α : Type} [DecidableEq α] {l : List α} {x : α} :
    x ∈ l.destutter (· ≠ ·) ↔ x ∈ l := by
  refine ⟨fun h => (List.destutter_sublist _ l).subset h, ?_⟩
  have hcons : ∀ (l : List α) (a : α), x ∈ a :: l → x ∈ l.destutter' (· ≠ ·) a := by
    intro l
    induction l with
    | nil => exact fun a h => h
    | cons b l ih =>
      intro a h
      by_cases hab : a = b
      · subst hab
        rw [List.destutter'_cons_neg _ (not_not.2 rfl)]
        exact ih a (by simpa using h)
      · rw [List.destutter'_cons_pos _ hab]
        rcases List.mem_cons.1 h with rfl | h
        · exact List.mem_cons_self
        · exact List.mem_cons_of_mem _ (ih b h)
  cases l with
  | nil => exact id
  | cons a l => exact hcons l a

/-- The least common multiple of their periods, over the unbounded integers. -/
def periodLcm (workloadId : Text) (tasks : List Task) : ℕ :=
  Multiset.lcm (((matching workloadId tasks).map (·.periodUs.toNat) : List ℕ) : Multiset ℕ)

theorem mem_distinctPeriods {stdSort : StdSort} {tasks : List Task} {p : UInt64} :
    p ∈ distinctPeriods stdSort tasks ↔ ∃ t ∈ tasks, t.periodUs = p := by
  unfold distinctPeriods
  rw [mem_destutter_ne, (stdSort.perm StrictWeak.of_uint64_lt _).mem_iff, List.mem_map]

theorem pairwise_distinctPeriods (stdSort : StdSort) (tasks : List Task) :
    (distinctPeriods stdSort tasks).Pairwise (· < ·) := by
  have hle := (stdSort.sorted StrictWeak.of_uint64_lt (tasks.map (·.periodUs))).sublist
    (List.destutter_sublist (· ≠ ·) _)
  have hne := List.isChain_destutter (· ≠ ·)
    (stdSort.sort (fun a b => a < b) (tasks.map (·.periodUs)))
  have : IsTrans UInt64 (· < ·) := ⟨fun _ _ _ => UInt64.lt_trans⟩
  refine List.isChain_iff_pairwise.1 (List.isChain_iff_getElem.2 fun i hi => ?_)
  have hne := mt UInt64.toNat_inj.1 (List.isChain_iff_getElem.1 hne i hi)
  have hle := List.isChain_iff_getElem.1 hle.isChain i hi
  simp only [decide_eq_false_iff_not, UInt64.lt_iff_toNat_lt] at hle ⊢
  exact Nat.lt_of_le_of_ne (Nat.le_of_not_lt hle) hne

theorem distinctPeriods_congr {stdSort stdSort' : StdSort} {tasks tasks' : List Task}
    (h : tasks.Perm tasks') : distinctPeriods stdSort tasks = distinctPeriods stdSort' tasks' := by
  have : Std.Irrefl ((· < ·) : UInt64 → UInt64 → Prop) := ⟨fun _ => UInt64.lt_irrefl _⟩
  have : Std.Antisymm ((· < ·) : UInt64 → UInt64 → Prop) :=
    ⟨fun _ _ hab hba => absurd (UInt64.lt_trans hab hba) (UInt64.lt_irrefl _)⟩
  refine (pairwise_distinctPeriods _ _).eq_of_mem_iff (pairwise_distinctPeriods _ _) fun p => ?_
  simp only [mem_distinctPeriods, h.mem_iff]

theorem lcm_distinctPeriods (stdSort : StdSort) (tasks : List Task) :
    Multiset.lcm ((distinctPeriods stdSort tasks).map UInt64.toNat : List ℕ) =
      Multiset.lcm ((tasks.map (·.periodUs.toNat) : List ℕ) : Multiset ℕ) := by
  refine Nat.dvd_antisymm (Multiset.lcm_dvd.2 fun p hp => Multiset.dvd_lcm ?_)
    (Multiset.lcm_dvd.2 fun p hp => Multiset.dvd_lcm ?_)
  · rw [Multiset.mem_coe, List.mem_map] at hp
    obtain ⟨q, hq, rfl⟩ := hp
    obtain ⟨t, ht, rfl⟩ := mem_distinctPeriods.1 hq
    exact Multiset.mem_coe.2 (List.mem_map_of_mem ht)
  · rw [Multiset.mem_coe, List.mem_map] at hp
    obtain ⟨t, ht, rfl⟩ := hp
    exact Multiset.mem_coe.2 (List.mem_map_of_mem (mem_distinctPeriods.2 ⟨t, ht, rfl⟩))

theorem calculateHyperperiod_perm {stdSort stdSort' : StdSort} {m : HyperperiodManager}
    {workloadId : Text} {tasks tasks' : List Task} (h : tasks'.Perm tasks) :
    m.calculateHyperperiod stdSort' workloadId tasks' =
        m.calculateHyperperiod stdSort workloadId tasks ∧
      periodLcm workloadId tasks' = periodLcm workloadId tasks := by
  have hmatching : (matching workloadId tasks').Perm (matching workloadId tasks) := h.filter _
  constructor
  · rw [calculateHyperperiod, calculateHyperperiod, distinctPeriods_congr hmatching,
      hmatching.length_eq]
    refine if_congr ?_ rfl rfl
    rw [← List.length_eq_zero_iff, ← List.length_eq_zero_iff, hmatching.length_eq]
  · exact congrArg Multiset.lcm (Multiset.coe_eq_coe.2 (hmatching.map _))

theorem calculateHyperperiod_cases (stdSort : StdSort) (m : HyperperiodManager)
    (workloadId : Text) (tasks : List Task) :
    (matching workloadId tasks = [] ∧
        m.calculateHyperperiod stdSort workloadId tasks = (m, .error .noValidPeriods)) ∨
      (matching workloadId tasks ≠ [] ∧
        ((2 ^ 64 ≤ periodLcm workloadId tasks ∧
            ∃ a b, m.calculateHyperperiod stdSort workloadId tasks = (m, .error (.overflow a b))) ∨
          ∃ hyperperiodUs : UInt64, hyperperiodUs.toNat = periodLcm workloadId tasks ∧
            if hyperperiodUs > m.limitUs then
              m.calculateHyperperiod stdSort workloadId tasks =
                (m, .error (.tooLarge hyperperiodUs m.limitUs))
            else
              let info := ⟨workloadId, hyperperiodUs,
                distinctPeriods stdSort (matching workloadId tasks),
                (matching workloadId tasks).length⟩
              m.calculateHyperperiod stdSort workloadId tasks = (m.store info, .ok info))) := by
  have hunfold := calculateHyperperiod.eq_1 stdSort m workloadId tasks
  by_cases hne : matching workloadId tasks = []
  · exact Or.inl ⟨hne, hunfold.trans (if_pos hne)⟩
  rw [if_neg hne] at hunfold
  dsimp only at hunfold
  have hperiods : distinctPeriods stdSort (matching workloadId tasks) ≠ [] := by
    obtain ⟨t, ht⟩ := List.exists_mem_of_ne_nil _ hne
    exact List.ne_nil_of_mem (mem_distinctPeriods.2 ⟨t, ht, rfl⟩)
  have hzero : ∀ p ∈ distinctPeriods stdSort (matching workloadId tasks), p ≠ 0 := by
    rintro p hp rfl
    obtain ⟨t, ht, hzero⟩ := mem_distinctPeriods.1 hp
    have hpos := (List.mem_filter.1 ht).2
    rw [Bool.and_eq_true, decide_eq_true_eq, decide_eq_true_eq, hzero] at hpos
    exact UInt64.lt_irrefl _ hpos.2
  refine Or.inr ⟨hne, ?_⟩
  rcases lcmOfSlice_cases hperiods hzero with ⟨hyperperiodUs, hok, hlcm⟩ | ⟨a, b, herr, hlcm⟩
  · rw [hok] at hunfold
    refine Or.inr ⟨hyperperiodUs, hlcm.trans (lcm_distinctPeriods _ _), ?_⟩
    dsimp only at hunfold
    split_ifs at hunfold ⊢
    · exact hunfold
    · exact hunfold
  · rw [herr] at hunfold
    rw [lcm_distinctPeriods] at hlcm
    exact Or.inl ⟨hlcm, a, b, hunfold⟩

theorem of_calculateHyperperiod_ok {stdSort : StdSort} {m : HyperperiodManager} {workloadId : Text}
    {tasks : List Task} {info : HyperperiodInfo}
    (h : (m.calculateHyperperiod stdSort workloadId tasks).2 = .ok info) :
    info.workloadId = workloadId ∧ info.hyperperiodUs.toNat = periodLcm workloadId tasks ∧
      info.uniquePeriods = distinctPeriods stdSort (matching workloadId tasks) ∧
      info.taskCount = (matching workloadId tasks).length ∧
      (m.calculateHyperperiod stdSort workloadId tasks).1 = m.store info := by
  rcases calculateHyperperiod_cases stdSort m workloadId tasks with
    ⟨_, hout⟩ | ⟨_, ⟨_, a, b, hout⟩ | ⟨hyperperiodUs, hlcm, hout⟩⟩
  · rw [hout] at h
    cases h
  · rw [hout] at h
    cases h
  · split_ifs at hout
    · rw [hout] at h
      cases h
    · rw [hout] at h
      cases h
      exact ⟨rfl, hlcm, rfl, rfl, congrArg Prod.fst hout⟩

theorem fst_calculateHyperperiod_of_error {stdSort : StdSort} {m : HyperperiodManager}
    {workloadId : Text} {tasks : List Task} {e : HyperperiodError}
    (h : (m.calculateHyperperiod stdSort workloadId tasks).2 = .error e) :
    (m.calculateHyperperiod stdSort workloadId tasks).1 = m := by
  rcases calculateHyperperiod_cases stdSort m workloadId tasks with
    ⟨_, hout⟩ | ⟨_, ⟨_, a, b, hout⟩ | ⟨hyperperiodUs, _, hout⟩⟩
  · rw [hout]
  · rw [hout]
  · split_ifs at hout
    · rw [hout]
    · rw [hout] at h
      cases h

/-- **The hyperperiod of an accepted workload** is the least common multiple of its periods. -/
theorem calculateHyperperiod_ok {stdSort : StdSort} {m : HyperperiodManager} {workloadId : Text}
    {tasks : List Task} {info : HyperperiodInfo}
    (h : (m.calculateHyperperiod stdSort workloadId tasks).2 = .ok info) :
    info.hyperperiodUs.toNat = Multiset.lcm
      (((tasks.filter fun t => t.workloadId = workloadId && 0 < t.periodUs).map
        (·.periodUs.toNat) : List ℕ) : Multiset ℕ) :=
  (of_calculateHyperperiod_ok h).2.1

/-- **Exact results and exact errors.**  The four outcomes are told apart by the periods and their
least common multiple over the unbounded integers, the stored entries change only where a result is
returned, and only the entry of the workload; the order of the tasks does not matter. -/
theorem calculateHyperperiod_exact (stdSort : StdSort) (m : HyperperiodManager) (workloadId : Text)
    (tasks : List Task) :
    let out := m.calculateHyperperiod stdSort workloadId tasks
    let L := periodLcm workloadId tasks
    (out.2 = .error .noValidPeriods ↔ matching workloadId tasks = []) ∧
    ((∃ a b, out.2 = .error (.overflow a b)) ↔ 2 ^ 64 ≤ L) ∧
    ((∃ valueUs limitUs, out.2 = .error (.tooLarge valueUs limitUs)) ↔
      matching workloadId tasks ≠ [] ∧ m.limitUs.toNat < L ∧ L < 2 ^ 64) ∧
    (∀ valueUs limitUs, out.2 = .error (.tooLarge valueUs limitUs) →
      valueUs.toNat = L ∧ limitUs = m.limitUs) ∧
    ((∃ info, out.2 = .ok info) ↔ matching workloadId tasks ≠ [] ∧ L ≤ m.limitUs.toNat) ∧
    (∀ info, out.2 = .ok info →
      info.workloadId = workloadId ∧ info.hyperperiodUs.toNat = L ∧
      info.uniquePeriods.Pairwise (· < ·) ∧
      (∀ p, p ∈ info.uniquePeriods ↔ ∃ t ∈ matching workloadId tasks, t.periodUs = p) ∧
      info.taskCount = (matching workloadId tasks).length ∧
      out.1.limitUs = m.limitUs ∧
      ∀ w, out.1.map[w]? = if w = workloadId then some info else m.map[w]?) ∧
    (∀ e, out.2 = .error e → out.1 = m) ∧
    ∀ (stdSort' : StdSort) (tasks' : List Task), tasks'.Perm tasks →
      m.calculateHyperperiod stdSort' workloadId tasks' = out ∧
        periodLcm workloadId tasks' = L := by
  intro out L
  have hperm : ∀ (stdSort' : StdSort) (tasks' : List Task), tasks'.Perm tasks →
      m.calculateHyperperiod stdSort' workloadId tasks' = out ∧ periodLcm workloadId tasks' = L :=
    fun _ _ => calculateHyperperiod_perm
  have herror : ∀ e, out.2 = .error e → out.1 = m := fun _ => fst_calculateHyperperiod_of_error
  have hstored : ∀ info, out.2 = .ok info → info.workloadId = workloadId ∧
      info.hyperperiodUs.toNat = L ∧ info.uniquePeriods.Pairwise (· < ·) ∧
      (∀ p, p ∈ info.uniquePeriods ↔ ∃ t ∈ matching workloadId tasks, t.periodUs = p) ∧
      info.taskCount = (matching workloadId tasks).length ∧ out.1.limitUs = m.limitUs ∧
      ∀ w, out.1.map[w]? = if w = workloadId then some info else m.map[w]? := by
    intro info h
    obtain ⟨hid, hlcm, hperiods, hcount, hstore⟩ := of_calculateHyperperiod_ok h
    refine ⟨hid, hlcm, hperiods ▸ pairwise_distinctPeriods _ _,
      fun p => hperiods ▸ mem_distinctPeriods, hcount, (congrArg limitUs hstore).trans rfl,
      fun w => ?_⟩
    rw [hstore]
    simp only [store, hid, Std.ExtTreeMap.getElem?_insert, Std.LawfulEqOrd.compare_eq_iff_eq,
      eq_comm (a := workloadId)]
  have hlt : ∀ v : UInt64, v.toNat < 2 ^ 64 := UInt64.toNat_lt
  rcases calculateHyperperiod_cases stdSort m workloadId tasks with
    ⟨hnil, hout⟩ | ⟨hne, ⟨hlarge, a, b, hout⟩ | ⟨v, hv, hout⟩⟩
  · -- the least common multiple of no periods is one
    have hone : L = 1 := by simp [L, periodLcm, hnil]
    refine ⟨by simp [out, hout, hnil], ?_, by simp [out, hout, hnil], by simp [out, hout],
      by simp [out, hout, hnil], hstored, herror, hperm⟩
    simp only [out, hout, hone]
    simp
  · refine ⟨by simp [out, hout, hne], ?_, ?_, by simp [out, hout], ?_, hstored, herror, hperm⟩
    · exact iff_of_true ⟨a, b, congrArg Prod.snd hout⟩ hlarge
    · refine iff_of_false (by simp [out, hout]) ?_
      rintro ⟨_, _, hsmall⟩
      exact Nat.not_le_of_lt hsmall hlarge
    · refine iff_of_false (by simp [out, hout]) ?_
      rintro ⟨_, hsmall⟩
      exact Nat.not_le_of_lt (Nat.lt_of_le_of_lt hsmall (hlt m.limitUs)) hlarge
  · change v.toNat = L at hv
    have hsmall : L < 2 ^ 64 := hv ▸ hlt v
    by_cases hgt : v > m.limitUs
    · rw [if_pos hgt] at hout
      have hgt' : m.limitUs.toNat < L := hv ▸ UInt64.lt_iff_toNat_lt.1 hgt
      refine ⟨by simp [out, hout, hne], ?_, ?_, ?_, ?_, hstored, herror, hperm⟩
      · exact iff_of_false (by simp [out, hout]) (Nat.not_le_of_lt hsmall)
      · exact iff_of_true ⟨v, m.limitUs, congrArg Prod.snd hout⟩ ⟨hne, hgt', hsmall⟩
      · intro valueUs limitUs h
        simp only [out, hout, Except.error.injEq, HyperperiodError.tooLarge.injEq] at h
        exact ⟨h.1 ▸ hv, h.2.symm⟩
      · exact iff_of_false (by simp [out, hout]) fun h => Nat.not_le_of_lt hgt' h.2
    · rw [if_neg hgt] at hout
      have hle : L ≤ m.limitUs.toNat := by
        rw [← hv]
        exact Nat.le_of_not_lt fun h => hgt (UInt64.lt_iff_toNat_lt.2 h)
      refine ⟨by simp [out, hout, hne], ?_, ?_, by simp [out, hout], ?_, hstored, herror, hperm⟩
      · exact iff_of_false (by simp [out, hout]) (Nat.not_le_of_lt hsmall)
      · exact iff_of_false (by simp [out, hout]) fun h => Nat.not_le_of_lt h.2.1 hle
      · exact iff_of_true ⟨_, congrArg Prod.snd hout⟩ ⟨hne, hle⟩

end HyperperiodManager

end Timpani.Rust
