import Timpani.Bpf.Frame
import Timpani.Bpf.Replenish

/-!
# Enforcement of the CBS budgets

Between two refills of its server a CBS task should not execute for longer than the budget.  The
runs are those of the callbacks of one task: it executes from `running` to `stopping`, and the
kernel stops it before its slice is over.  `dispatch` may be called at any time, and may refill the
server in the middle of an execution.

Executions are measured in nanoseconds but charged in whole microseconds, rounded down, so short
ones are free, and of the others up to a microsecond is.

* `Enforced` : no window between two refills has seen more execution time than the budget;
* `enforced_of_lossesCovered` : this holds in every run in which the budget that is left covers what
  was not charged since the refill, as it does while the task does not use up its budget; in every run
  at all the budget that is left stays between zero and the full one;
* `not_enforced_short_executions` : two executions of 999 ns on a budget of 1 µs.
-/

namespace Timpani

/-! ### Charging -/

namespace CbsState

variable {c : CbsState} {now : UInt64}

@[simp] theorem budgetUs_start : (c.start now).budgetUs = c.budgetUs := budgetUs_lazyReplenish

@[simp] theorem periodUs_start : (c.start now).periodUs = c.periodUs := periodUs_lazyReplenish

@[simp] theorem execStartNs_lazyReplenish : (c.lazyReplenish now).execStartNs = c.execStartNs := by
  unfold lazyReplenish
  split_ifs <;> rfl

theorem lazyReplenish_cases (hnow : now.toNat < 2 ^ 63) :
    c.lazyReplenish now = c ∨ (c.lazyReplenish now).replenishAtNs ≠ c.replenishAtNs ∧
      (c.lazyReplenish now).remainingUs = c.budgetUs := by
  by_cases h : c.periodUs = 0 ∨ now < c.replenishAtNs
  · exact Or.inl (if_pos h)
  · obtain ⟨hp, hlt⟩ := not_or.1 h
    have hp := UInt32.pos_iff_ne_zero.2 hp
    have hahead := lt_lazyReplenish hp hnow
    refine Or.inr ⟨fun heq => hlt (heq ▸ hahead), ?_⟩
    rw [lazyReplenish_of_le hp (UInt64.not_lt.1 hlt)]

theorem remainingAt_le : (c.remainingAt now).toNat ≤ c.remainingUs.toNat := by
  unfold remainingAt
  dsimp only
  split_ifs with h
  · exact Nat.zero_le _
  · rw [UInt32.toNat_sub_of_le _ _ (UInt32.le_of_lt (UInt32.not_le.1 h))]
    exact Nat.sub_le _ _

theorem remainingUs_stop_le : (c.stop now).remainingUs.toNat ≤ c.remainingUs.toNat := by
  unfold stop
  by_cases h : 0 < c.execStartNs
  · rw [if_pos h]
    exact remainingAt_le
  · rw [if_neg h]

theorem toNat_elapsed (hle : c.execStartNs ≤ now)
    (hlt : now.toNat - c.execStartNs.toNat < 1000 * 2 ^ 32) :
    ((now - c.execStartNs) / 1000).toUInt32.toNat = (now.toNat - c.execStartNs.toNat) / 1000 := by
  rw [UInt64.toNat_toUInt32, UInt64.toNat_div, UInt64.toNat_sub_of_le _ _ hle]
  simp only [UInt64.reduceToNat]
  omega

/-- An execution that is not longer than the budget that was left is charged up to a microsecond. -/
theorem remainingAt_add (hle : c.execStartNs ≤ now)
    (hfit : now.toNat ≤ c.execStartNs.toNat + 1000 * c.remainingUs.toNat) :
    1000 * (c.remainingAt now).toNat + (now.toNat - c.execStartNs.toNat) =
      1000 * c.remainingUs.toNat + (now.toNat - c.execStartNs.toNat) % 1000 := by
  have hrem := c.remainingUs.toNat_lt
  have helapsed := toNat_elapsed hle (by omega)
  unfold remainingAt
  dsimp only
  split_ifs with h
  · rw [ge_iff_le, UInt32.le_iff_toNat_le, helapsed] at h
    simp only [UInt32.reduceToNat]
    omega
  · rw [UInt32.toNat_sub_of_le _ _ (UInt32.le_of_lt (UInt32.not_le.1 h)), helapsed]
    rw [ge_iff_le, UInt32.le_iff_toNat_le, helapsed] at h
    omega

end CbsState

/-! ### Runs of one task -/

/-- The BPF state and the time of the last callback, with the executions of a task measured. -/
structure BudgetRun where
  bpf : BpfState
  clock : UInt64
  /-- While the task executes, the time by which the kernel stops it. -/
  limit : Option ℕ
  /-- How long the task has executed since the last refill. -/
  spent : ℕ
  /-- The same for the windows between earlier refills. -/
  windows : List ℕ
  /-- How much of the executions since the last refill was not charged. -/
  lost : ℕ

namespace BudgetRun

open CbsRun (Action apply)

/-- The callbacks of the task: it stops if and only if it runs. -/
def Enabled (pid : UInt32) (r : BudgetRun) : Action → Prop
  | .enqueue p _ => p = pid
  | .running p _ _ => p = pid ∧ r.limit = none
  | .stopping p _ _ _ => p = pid ∧ r.limit ≠ none
  | .dispatch _ _ => True

instance (pid : UInt32) (r : BudgetRun) (a : Action) : Decidable (Enabled pid r a) := by
  cases a <;> unfold Enabled <;> infer_instance

/-- The boundary of a server. -/
def boundary (key : UInt64) (s : BpfState) : Option UInt64 :=
  (s.cbsMap.lookup key).map (·.replenishAtNs)

/-- The callback refills the server.  A stop never does, it only moves the boundary. -/
def refills (key : UInt64) (s : BpfState) : Action → Bool
  | .stopping .. => false
  | a => boundary key (apply s a) ≠ boundary key s

/-- The limit after a callback: `running` gives the task a slice. -/
def limitAfter (r : BudgetRun) : Action → Option ℕ
  | .running pid cpu now => (r.bpf.running pid cpu now).2.map fun slice => now.toNat + slice.toNat
  | .stopping .. => none
  | _ => r.limit

/-- How long the task has executed since the last refill, at a time after the last callback. -/
def spentAt (r : BudgetRun) (now : UInt64) : ℕ :=
  if r.limit = none then r.spent else r.spent + (now.toNat - r.clock.toNat)

/-- What was not charged, after a callback: a stop charges whole microseconds. -/
def lostAfter (key : UInt64) (r : BudgetRun) : Action → ℕ
  | .stopping _ _ _ now => r.lost + (r.bpf.cbsMap.lookup key).elim 0 fun c =>
      (now.toNat - c.execStartNs.toNat) % 1000
  | _ => r.lost

/-- The callbacks of a task at non-decreasing times, after its server was registered. -/
def machine (pid : UInt32) (key : UInt64) (e : CbsConfig) : Machine BudgetRun Action where
  init r := r.bpf.serves pid key = true ∧ r.bpf.cbsMap.lookup key = some (e.initial r.clock) ∧
    r.clock.toNat < 2 ^ 63 ∧ r.limit = none ∧ r.spent = 0 ∧ r.windows = [] ∧ r.lost = 0
  next r a :=
    if r.clock ≤ a.now ∧ a.now.toNat < 2 ^ 63 ∧ (∀ t ∈ r.limit, a.now.toNat ≤ t) ∧
        Enabled pid r a then
      some { bpf := apply r.bpf a
             clock := a.now
             limit := r.limitAfter a
             spent := if refills key r.bpf a then 0 else r.spentAt a.now
             windows :=
               if refills key r.bpf a then r.windows ++ [r.spentAt a.now] else r.windows
             lost := if refills key r.bpf a then 0 else r.lostAfter key a }
    else none

/-- No window has seen more execution time than the budget. -/
def Enforced (e : CbsConfig) (r : BudgetRun) : Prop :=
  (∀ w ∈ r.windows, w ≤ 1000 * e.budgetUs.toNat) ∧ r.spent ≤ 1000 * e.budgetUs.toNat

/-- While the task executes, the budget that is left covers the execution so far and what was not
charged since the refill; executions start with a budget and after time zero. -/
def LossesCovered (key : UInt64) (r : BudgetRun) (a : Action) : Prop :=
  (r.limit ≠ none → ∀ c ∈ r.bpf.cbsMap.lookup key,
    r.lost + (a.now.toNat - c.execStartNs.toNat) ≤ 1000 * c.remainingUs.toNat) ∧
  match a with
  | .running _ _ now =>
    0 < now ∧ ∀ c ∈ r.bpf.cbsMap.lookup key, 0 < (c.lazyReplenish now).remainingUs
  | _ => True

instance (key : UInt64) (r : BudgetRun) (a : Action) : Decidable (LossesCovered key r a) := by
  cases a <;> unfold LossesCovered <;> infer_instance

/-! ### The server along a run -/

variable {pid : UInt32} {key : UInt64} {e : CbsConfig} {r r' : BudgetRun} {c : CbsState}
  {a : Action}

/-- The server exists and holds at most the full budget. -/
structure Served (pid : UInt32) (key : UInt64) (e : CbsConfig) (r : BudgetRun) (c : CbsState) :
    Prop where
  serves : r.bpf.serves pid key = true
  lookup : r.bpf.cbsMap.lookup key = some c
  budget : c.budgetUs = e.budgetUs
  remaining : c.remainingUs.toNat ≤ e.budgetUs.toNat

/-- The accounts of the current window: what was spent and what is left make up at most the budget,
the time that was not charged apart, and what is left covers that time. -/
structure Within (e : CbsConfig) (r : BudgetRun) (c : CbsState) : Prop where
  windows : ∀ w ∈ r.windows, w ≤ 1000 * e.budgetUs.toNat
  idle : r.limit = none → r.lost ≤ 1000 * c.remainingUs.toNat ∧
    r.spent + 1000 * c.remainingUs.toNat ≤ 1000 * e.budgetUs.toNat + r.lost
  busy : ∀ t ∈ r.limit, 0 < c.execStartNs ∧ c.execStartNs ≤ r.clock ∧ r.clock.toNat ≤ t ∧
    t ≤ c.execStartNs.toNat + 1000 * c.remainingUs.toNat ∧
    r.lost + (r.clock.toNat - c.execStartNs.toNat) ≤ 1000 * c.remainingUs.toNat ∧
    r.spent + 1000 * c.remainingUs.toNat + c.execStartNs.toNat ≤
      1000 * e.budgetUs.toNat + r.clock.toNat + r.lost

theorem Within.enforced (h : Within e r c) : Enforced e r := by
  refine ⟨h.windows, ?_⟩
  cases hl : r.limit with
  | none =>
    have := h.idle hl
    omega
  | some t =>
    obtain ⟨-, hstart, -, -, hcover, hsum⟩ := h.busy t hl
    have := UInt64.le_iff_toNat_le.1 hstart
    omega

/-! The accounts do not depend on the BPF state `s`: a callback lets the time pass, may refill the
server, and starts or stops an execution. -/

theorem Within.tick (h : Within e r c) {now : UInt64} (hle : r.clock ≤ now)
    (hlimit : ∀ t ∈ r.limit, now.toNat ≤ t)
    (hcover : r.limit ≠ none →
      r.lost + (now.toNat - c.execStartNs.toNat) ≤ 1000 * c.remainingUs.toNat) (s : BpfState) :
    Within e ⟨s, now, r.limit, r.spentAt now, r.windows, r.lost⟩ c := by
  refine ⟨h.windows, fun hl => ?_, fun t ht => ?_⟩
  · rw [spentAt, if_pos hl]
    exact h.idle hl
  · have hbusy : r.limit ≠ none := Option.ne_none_iff_exists'.2 ⟨t, ht⟩
    obtain ⟨hpos, hstart, -, hfit, -, hsum⟩ := h.busy t ht
    refine ⟨hpos, UInt64.le_trans hstart hle, hlimit t ht, hfit, hcover hbusy, ?_⟩
    have hle := UInt64.le_iff_toNat_le.1 hle
    rw [spentAt, if_neg hbusy]
    dsimp only
    omega

theorem Within.refill (h : Within e r c) (hrem : c.remainingUs.toNat ≤ e.budgetUs.toNat)
    {c' : CbsState} (hfull : c'.remainingUs = e.budgetUs)
    (hstart : c'.execStartNs = c.execStartNs) (s : BpfState) :
    Within e ⟨s, r.clock, r.limit, 0, r.windows ++ [r.spent], 0⟩ c' := by
  refine ⟨fun w hw => ?_, fun _ => ?_, fun t ht => ?_⟩
  · rcases List.mem_append.1 hw with hw | hw
    · exact h.windows w hw
    · rw [List.mem_singleton.1 hw]
      exact h.enforced.2
  · rw [hfull]
    exact ⟨Nat.zero_le _, (Nat.zero_add _).le⟩
  · obtain ⟨hpos, hclock, hlimit, hfit, -⟩ := h.busy t ht
    have := UInt64.le_iff_toNat_le.1 hclock
    rw [hstart, hfull]
    refine ⟨hpos, hclock, hlimit, ?_, ?_, ?_⟩
    · omega
    · dsimp only
      omega
    · dsimp only
      omega

theorem Within.start (h : Within e r c) (hl : r.limit = none) (hpos : 0 < r.clock) {slice : ℕ}
    (hslice : slice ≤ 1000 * c.remainingUs.toNat) (s : BpfState) :
    Within e ⟨s, r.clock, some (r.clock.toNat + slice), r.spent, r.windows, r.lost⟩
      { c with execStartNs := r.clock } := by
  refine ⟨h.windows, nofun, fun t ht => ?_⟩
  obtain rfl := Option.mem_some_iff.1 ht
  have hsum := h.idle hl
  refine ⟨hpos, UInt64.le_refl _, ?_, ?_, ?_, ?_⟩
  all_goals dsimp only
  all_goals omega

theorem Within.stop {t : ℕ} (h : Within e r c) (hl : r.limit = some t) (s : BpfState) :
    Within e ⟨s, r.clock, none, r.spent, r.windows,
      r.lost + (r.clock.toNat - c.execStartNs.toNat) % 1000⟩ (c.stop r.clock) := by
  obtain ⟨hpos, hstart, hclock, hfit, hcover, hsum⟩ := h.busy t hl
  have hcharge := CbsState.remainingAt_add hstart (hclock.trans hfit)
  have hstart := UInt64.le_iff_toNat_le.1 hstart
  refine ⟨h.windows, fun _ => ?_, nofun⟩
  rw [CbsState.stop, if_pos hpos]
  dsimp only
  omega

theorem next_eq_some (h : (machine pid key e).next r a = some r') :
    r.clock ≤ a.now ∧ a.now.toNat < 2 ^ 63 ∧ (∀ t ∈ r.limit, a.now.toNat ≤ t) ∧ Enabled pid r a ∧
      r' = { bpf := apply r.bpf a
             clock := a.now
             limit := r.limitAfter a
             spent := if refills key r.bpf a then 0 else r.spentAt a.now
             windows :=
               if refills key r.bpf a then r.windows ++ [r.spentAt a.now] else r.windows
             lost := if refills key r.bpf a then 0 else r.lostAfter key a } := by
  obtain ⟨⟨hle, hnow, hlimit, hen⟩, heq⟩ := Option.ite_none_right_eq_some.1 h
  cases heq
  exact ⟨hle, hnow, hlimit, hen, rfl⟩

theorem serves_apply (s : BpfState) (a : Action) : (apply s a).serves pid key = s.serves pid key := by
  cases a with
  | enqueue => exact BpfState.frame_enqueue.serves pid key
  | running => exact BpfState.frame_running.serves pid key
  | stopping => exact BpfState.frame_stopping.serves pid key
  | dispatch => exact BpfState.frame_dispatch.serves pid key

theorem Served.lookup_apply (h : Served pid key e r c) (hen : Enabled pid r a)
    (hnow : a.now.toNat < 2 ^ 63) :
    ∃ c', (apply r.bpf a).cbsMap.lookup key = some c' ∧
      match a with
      | .running _ _ now => c' = c.start now
      | .stopping _ _ _ now => c' = c.stop now
      | _ => c' = c ∨ c' = c.lazyReplenish a.now := by
  cases a with
  | enqueue p now =>
    obtain rfl : p = pid := hen
    refine ⟨c.lazyReplenish now, ?_, Or.inr rfl⟩
    dsimp only [apply]
    rw [BpfState.lookup_cbsMap_enqueue, BpfState.onServer, if_pos h.serves, h.lookup]
    rfl
  | running p cpu now =>
    obtain ⟨rfl, -⟩ : p = pid ∧ _ := hen
    refine ⟨c.start now, ?_, rfl⟩
    dsimp only [apply]
    rw [BpfState.lookup_cbsMap_running, BpfState.onServer, if_pos h.serves, h.lookup]
    rfl
  | stopping p cpu runnable now =>
    obtain ⟨rfl, -⟩ : p = pid ∧ _ := hen
    refine ⟨c.stop now, ?_, rfl⟩
    dsimp only [apply]
    rw [BpfState.lookup_cbsMap_stopping, BpfState.onServer, if_pos h.serves, h.lookup]
    rfl
  | dispatch cpu now =>
    rcases CbsRun.lookup_cbsMap_dispatch h.lookup hnow cpu with hc | hc
    · exact ⟨c, hc, Or.inl rfl⟩
    · exact ⟨_, hc, Or.inr rfl⟩

theorem Served.next (h : Served pid key e r c) (hn : (machine pid key e).next r a = some r') :
    ∃ c', Served pid key e r' c' ∧ (apply r.bpf a).cbsMap.lookup key = some c' := by
  obtain ⟨-, hnow, -, hen, rfl⟩ := next_eq_some hn
  obtain ⟨c', hc', hcases⟩ := h.lookup_apply hen hnow
  have hlazy : ∀ now : UInt64, now.toNat < 2 ^ 63 →
      ((c.lazyReplenish now).remainingUs).toNat ≤ e.budgetUs.toNat := by
    intro now hnow
    rcases CbsState.lazyReplenish_cases hnow with heq | ⟨-, hrem⟩
    · rw [heq]
      exact h.remaining
    · rw [hrem, h.budget]
  have hfields : c'.budgetUs = e.budgetUs ∧ c'.remainingUs.toNat ≤ e.budgetUs.toNat := by
    cases a with
    | running p cpu now =>
      obtain rfl : c' = c.start now := hcases
      exact ⟨CbsState.budgetUs_lazyReplenish.trans h.budget, hlazy now hnow⟩
    | stopping p cpu runnable now =>
      obtain rfl : c' = c.stop now := hcases
      exact ⟨CbsState.budgetUs_stop.trans h.budget,
        CbsState.remainingUs_stop_le.trans h.remaining⟩
    | enqueue | dispatch =>
      rcases hcases with rfl | rfl
      · exact ⟨h.budget, h.remaining⟩
      · exact ⟨CbsState.budgetUs_lazyReplenish.trans h.budget, hlazy _ hnow⟩
  exact ⟨c', ⟨by rw [serves_apply, h.serves], hc', hfields.1, hfields.2⟩, hc'⟩

/-- A callback that is not a stop refills the server if and only if it moves the boundary. -/
theorem refills_iff {c' : CbsState} (hc : r.bpf.cbsMap.lookup key = some c)
    (hc' : (apply r.bpf a).cbsMap.lookup key = some c')
    (ha : ∀ p cpu runnable now, a ≠ .stopping p cpu runnable now) :
    refills key r.bpf a ↔ c'.replenishAtNs ≠ c.replenishAtNs := by
  cases a with
  | stopping => exact absurd rfl (ha _ _ _ _)
  | enqueue | running | dispatch => simp [refills, boundary, hc, hc']

theorem Within.replenish {c' : CbsState} (hw : Within e r c) (hs : Served pid key e r c)
    (hc' : (apply r.bpf a).cbsMap.lookup key = some c') {d : CbsState}
    (hd : d = c ∨ d = c.lazyReplenish a.now) (hboundary : d.replenishAtNs = c'.replenishAtNs)
    (ha : ∀ p cpu runnable now, a ≠ .stopping p cpu runnable now) (hle : r.clock ≤ a.now)
    (hnow : a.now.toNat < 2 ^ 63) (hlimit : ∀ t ∈ r.limit, a.now.toNat ≤ t)
    (hcover : LossesCovered key r a) (s : BpfState) :
    Within e ⟨s, a.now, r.limit, if refills key r.bpf a then 0 else r.spentAt a.now,
      if refills key r.bpf a then r.windows ++ [r.spentAt a.now] else r.windows,
      if refills key r.bpf a then 0 else r.lost⟩ d := by
  have hiff := refills_iff hs.lookup hc' ha
  rw [← hboundary] at hiff
  have htick := hw.tick hle hlimit (fun hbusy => hcover.1 hbusy c hs.lookup) s
  have hcases : d = c ∨ d.replenishAtNs ≠ c.replenishAtNs ∧ d.remainingUs = c.budgetUs ∧
      d.execStartNs = c.execStartNs := by
    rcases hd with rfl | rfl
    · exact Or.inl rfl
    · rcases CbsState.lazyReplenish_cases (c := c) hnow with heq | ⟨hmoved, hfull⟩
      · exact Or.inl heq
      · exact Or.inr ⟨hmoved, hfull, CbsState.execStartNs_lazyReplenish⟩
  rcases hcases with rfl | ⟨hmoved, hfull, hstart⟩
  · have hnot : ¬ refills key r.bpf a := fun h => hiff.1 h rfl
    rw [if_neg hnot, if_neg hnot, if_neg hnot]
    exact htick
  · have hrefill := hiff.2 hmoved
    rw [if_pos hrefill, if_pos hrefill, if_pos hrefill]
    exact htick.refill hs.remaining (hfull.trans hs.budget) hstart s

theorem Served.exists_slice (h : Served pid key e r c) (cpu : UInt32) (now : UInt64) :
    ∃ slice ≤ 1000 * max (c.lazyReplenish now).remainingUs.toNat 1,
      r.limitAfter (.running pid cpu now) = some (now.toNat + slice) := by
  have hserver : r.bpf.serverOf pid = some (key, c) := by
    obtain ⟨m, hm, hmeta⟩ := (Option.any_eq_true _ _).1 h.serves
    simp only [Bool.and_eq_true, decide_eq_true_eq] at hmeta
    simp [BpfState.serverOf, hm, hmeta.1, hmeta.2, h.lookup]
  unfold limitAfter BpfState.running
  simp only [hserver, Option.map_some, CbsState.start]
  refine ⟨_, ?_, rfl⟩
  have hns : ∀ us : UInt32, (us.toUInt64 * 1000).toNat = 1000 * us.toNat := by
    intro us
    have := us.toNat_lt
    rw [UInt64.toNat_mul, UInt32.toNat_toUInt64]
    simp only [UInt64.reduceToNat]
    omega
  have hmin : ∀ us : UInt32, (if us < (c.lazyReplenish now).remainingUs then us
      else (c.lazyReplenish now).remainingUs).toNat ≤ (c.lazyReplenish now).remainingUs.toNat := by
    intro us
    split_ifs with hlt
    · exact (UInt32.lt_iff_toNat_lt.1 hlt).le
    · exact le_rfl
  have hfloor : ∀ us rem : UInt32, us.toNat ≤ rem.toNat →
      (if us = 0 then 1 else us).toNat ≤ max rem.toNat 1 := by
    intro us rem hle
    split_ifs
    · exact Nat.le_max_right _ _
    · exact hle.trans (Nat.le_max_left _ _)
  rw [hns]
  exact Nat.mul_le_mul_left _ (hfloor _ _ (hmin _))

theorem Served.limitAfter_running (h : Served pid key e r c) (cpu : UInt32) {now : UInt64}
    (hpos : 0 < (c.lazyReplenish now).remainingUs) :
    ∃ slice ≤ 1000 * (c.lazyReplenish now).remainingUs.toNat,
      r.limitAfter (.running pid cpu now) = some (now.toNat + slice) := by
  have hslice := h.exists_slice cpu now
  rwa [max_eq_left (UInt32.lt_iff_toNat_lt.1 hpos)] at hslice

/-- **One callback.**  As long as the losses are covered, the accounts stay right. -/
theorem Within.next {c' : CbsState} (hw : Within e r c) (hs : Served pid key e r c)
    (hok : LossesCovered key r a) (hn : (machine pid key e).next r a = some r')
    (hc' : r'.bpf.cbsMap.lookup key = some c') : Within e r' c' := by
  obtain ⟨hle, hnow, hlimit, hen, rfl⟩ := next_eq_some hn
  obtain ⟨d, hd, hcases⟩ := hs.lookup_apply hen hnow
  obtain rfl : d = c' := Option.some_injective _ (hd.symm.trans hc')
  cases a with
  | enqueue p now | dispatch cpu now =>
    exact hw.replenish hs hd hcases rfl nofun hle hnow hlimit hok _
  | running p cpu now =>
    obtain ⟨rfl, hidle⟩ : p = pid ∧ r.limit = none := hen
    obtain rfl : d = c.start now := hcases
    obtain ⟨slice, hslice, hlimit'⟩ := hs.limitAfter_running cpu (hok.2.2 c hs.lookup)
    rw [hlimit']
    exact (hw.replenish hs hd (Or.inr rfl) rfl nofun hle hnow hlimit hok r.bpf).start
      hidle hok.2.1 hslice _
  | stopping p cpu runnable now =>
    obtain ⟨-, hbusy⟩ : p = pid ∧ r.limit ≠ none := hen
    obtain rfl : d = c.stop now := hcases
    obtain ⟨t, ht⟩ := Option.ne_none_iff_exists'.1 hbusy
    have hlost : r.lostAfter key (.stopping p cpu runnable now) =
        r.lost + (now.toNat - c.execStartNs.toNat) % 1000 := by
      rw [lostAfter, hs.lookup]
      rfl
    rw [hlost]
    exact (hw.tick hle hlimit (fun hbusy => hok.1 hbusy c hs.lookup) r.bpf).stop ht _

theorem init_served (h : (machine pid key e).init r) :
    ∃ c, Served pid key e r c ∧ Within e r c := by
  obtain ⟨hserves, hlookup, -, hlimit, hspent, hwindows, hlost⟩ := h
  refine ⟨e.initial r.clock, ⟨hserves, hlookup, rfl, le_rfl⟩, ?_, fun _ => ?_, fun t ht => ?_⟩
  · rw [hwindows]
    exact fun w hw => absurd hw List.not_mem_nil
  · rw [hspent, hlost]
    exact ⟨Nat.zero_le _, (Nat.zero_add _).le⟩
  · cases hlimit.symm.trans ht

theorem exists_served_of_reachable (h : (machine pid key e).Reachable r) :
    ∃ c, Served pid key e r c :=
  h.invariant (fun _ hr => (init_served hr).imp fun _ h => h.1) fun _ _ _ ⟨_, hs⟩ _ hn =>
    (hs.next hn).imp fun _ h => h.1

theorem exists_within_of_reachableIf (h : (machine pid key e).ReachableIf (LossesCovered key) r) :
    ∃ c, Served pid key e r c ∧ Within e r c := by
  refine h.invariant (fun _ hr => init_served hr) ?_
  rintro r a r' ⟨c, hs, hw⟩ hok hn
  obtain ⟨c', hs', -⟩ := hs.next hn
  exact ⟨c', hs', hw.next hs hok hn hs'.lookup⟩

/-- **Budgets are enforced as long as the losses are covered.**  In every run the budget that is left
is at most the full budget.  In a run in which it covers what was not charged since the refill, and
executions start with some budget left, no window between two refills sees more execution time than
the budget. -/
theorem enforced_of_lossesCovered (pid : UInt32) (key : UInt64) (e : CbsConfig) :
    (∀ r, (machine pid key e).Reachable r → ∃ c, r.bpf.cbsMap.lookup key = some c ∧
      c.budgetUs = e.budgetUs ∧ c.remainingUs ≤ c.budgetUs) ∧
    ∀ r, (machine pid key e).ReachableIf (LossesCovered key) r → Enforced e r := by
  refine ⟨fun r hr => ?_, fun r hr => ?_⟩
  · obtain ⟨c, hs⟩ := exists_served_of_reachable hr
    exact ⟨c, hs.lookup, hs.budget, by rw [hs.budget, UInt32.le_iff_toNat_le]; exact hs.remaining⟩
  · obtain ⟨c, -, hw⟩ := exists_within_of_reachableIf hr
    exact hw.enforced

/-! ### Two runs -/

/-- The server of task 7 is registered with the given budget at time 0. -/
def fresh (budgetUs : UInt32) : BudgetRun where
  bpf := { CbsRun.registered.bpf with
    cbsMap := (BpfHash.empty.update 3 ({ CbsRun.entry with budgetUs }.initial 0)).1 }
  clock := 0
  limit := none
  spent := 0
  windows := []
  lost := 0

/-- Two executions of 60.5 µs and 39.4 µs on a budget of 100 µs: 0.9 µs are not charged. -/
theorem enforced_two_executions :
    ∃ r, (machine 7 3 CbsRun.entry).ReachableIf (LossesCovered 3) r ∧ r.spent = 99900 ∧
      r.lost = 900 ∧ Enforced CbsRun.entry r := by
  have heval : ((machine 7 3 CbsRun.entry).execIf (fun r a => decide (LossesCovered 3 r a))
      (fresh 100) [.enqueue 7 100, .running 7 0 1000, .stopping 7 0 true 61500, .running 7 0 80000,
        .stopping 7 0 true 119400]).any (fun r => decide (r.spent = 99900 ∧ r.lost = 900)) = true := by
    decide +kernel
  obtain ⟨r, hr, hall⟩ := (Option.any_eq_true _ _).1 heval
  obtain ⟨hspent, hlost⟩ := of_decide_eq_true hall
  have hinit : (machine 7 3 CbsRun.entry).init (fresh 100) :=
    ⟨by decide +kernel, by decide +kernel, by decide, rfl, rfl, rfl, rfl⟩
  have hreach : (machine 7 3 CbsRun.entry).ReachableIf (LossesCovered 3) r :=
    (Machine.ReachableIf.of_init hinit).leads
      (Machine.leads_of_execIf (fun _ _ => of_decide_eq_true) hr)
  exact ⟨r, hreach, hspent, hlost, (enforced_of_lossesCovered 7 3 CbsRun.entry).2 r hreach⟩

/-- A budget of 1 µs, spent in two executions of 999 ns: neither is charged. -/
theorem not_enforced_short_executions :
    ∃ r, (machine 7 3 { CbsRun.entry with budgetUs := 1 }).Reachable r ∧ r.windows = [] ∧
      r.spent = 1998 ∧ ¬ Enforced { CbsRun.entry with budgetUs := 1 } r := by
  have heval : ((machine 7 3 { CbsRun.entry with budgetUs := 1 }).exec (fresh 1)
      [.enqueue 7 100, .running 7 0 1000, .stopping 7 0 true 1999, .running 7 0 3000,
        .stopping 7 0 true 3999]).any (fun r => decide (r.windows = [] ∧ r.spent = 1998)) = true := by
    decide +kernel
  obtain ⟨r, hr, hspent⟩ := (Option.any_eq_true _ _).1 heval
  obtain ⟨hwindows, hspent⟩ := of_decide_eq_true hspent
  refine ⟨r, Machine.reachable_of_exec ?_ hr, hwindows, hspent, fun h => ?_⟩
  · exact ⟨by decide +kernel, by decide +kernel, by decide, rfl, rfl, rfl, rfl⟩
  · have := h.2
    rw [hspent] at this
    exact absurd this (by decide)

end BudgetRun

end Timpani
