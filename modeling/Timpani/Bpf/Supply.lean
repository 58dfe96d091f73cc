import Timpani.Bpf.Enforcement
import Mathlib.Algebra.Order.Group.Nat
import Mathlib.Algebra.BigOperators.Group.List.Basic

/-!
# The bandwidth of a CBS server

A constant-bandwidth server isolates its task from the others: in the long run the task executes for
no more than the fraction `budget / period` of the time, whatever it does.  Windows between refills
are one side of that (`Enforcement`), the other is that refills do not come too often: each one moves
`replenish_at_ns` by at least a period, and none comes before it.

Executions are charged in whole microseconds, rounded down, and a task whose budget is used up is
still given a slice of a microsecond.  So each execution may take up to a microsecond for free, and
that is all.

* `BudgetRun.Metered` : the accounts of a whole run;
* `BudgetRun.executed_le` : **the bandwidth bound**, for every run from the registration on.
-/

namespace Timpani

/-! ### Boundaries -/

namespace CbsState

variable {c : CbsState} {now : UInt64}

theorem add_periodNs_le_lazyReplenish (hp : 0 < c.periodUs) (hnow : now.toNat < 2 ^ 63)
    (hle : c.replenishAtNs ≤ now) :
    c.replenishAtNs.toNat + c.periodNs ≤ (c.lazyReplenish now).replenishAtNs.toNat := by
  rw [lazyReplenish_of_le hp hle]
  dsimp only
  rw [toNat_nextReplenish hle (noWrapAt_of_lt hnow),
    nextBoundary_of_le (UInt64.le_iff_toNat_le.1 hle), Nat.add_mul, Nat.one_mul]
  omega

theorem replenishAtNs_le_stop (hp : 0 < c.periodUs) (hnow : now.toNat < 2 ^ 63)
    (hpos : 0 < c.replenishAtNs) : c.replenishAtNs.toNat ≤ (c.stop now).replenishAtNs.toNat := by
  have hne : c.replenishAtNs ≠ 0 := (UInt64.ne_of_lt hpos).symm
  unfold stop
  by_cases hstart : 0 < c.execStartNs
  · rw [if_pos hstart]
    dsimp only
    split_ifs with _ hle
    · exact ((UInt64.le_iff_toNat_le.1 hle).trans_lt (nextReplenish_bounds hp hle hnow).1).le
    · exact le_rfl
    · exact le_rfl
  · rw [if_neg hstart]

/-- What a stop charges falls short of the execution by at most a microsecond, if the execution
kept to its slice. -/
theorem remainingAt_charges (hle : c.execStartNs ≤ now)
    (hfit : now.toNat ≤ c.execStartNs.toNat + 1000 * max c.remainingUs.toNat 1) :
    1000 * (c.remainingAt now).toNat + (now.toNat - c.execStartNs.toNat) ≤
      1000 * c.remainingUs.toNat + 1000 := by
  have hrem := c.remainingUs.toNat_lt
  -- the slice is below `2 ^ 32` microseconds, so nothing is cut off
  have helapsed := toNat_elapsed hle (by omega)
  unfold remainingAt
  dsimp only
  split_ifs with h
  · simp only [UInt32.reduceToNat]
    omega
  · have hlt := UInt32.lt_iff_toNat_lt.1 (UInt32.not_le.1 h)
    rw [UInt32.toNat_sub_of_le _ _ (UInt32.le_of_lt (UInt32.not_le.1 h)), helapsed]
    omega

end CbsState

namespace BudgetRun

open CbsRun (Action apply)

variable {pid : UInt32} {key : UInt64} {e : CbsConfig} {r r' : BudgetRun} {c : CbsState}
  {a : Action} {t₀ n : ℕ}

/-! ### The accounts of a run -/

/-- How long the task has executed since its server was registered. -/
def executed (r : BudgetRun) : ℕ := r.windows.sum + r.spent

/-- The accounts of a run that started at `t₀` and in which the task was started `n` times. -/
structure Metered (e : CbsConfig) (t₀ n : ℕ) (r : BudgetRun) (c : CbsState) : Prop where
  period : c.periodUs = e.periodUs
  /-- Every refill has moved the boundary by a period. -/
  boundary : t₀ + (r.windows.length + 1) * c.periodNs ≤ c.replenishAtNs.toNat
  /-- There was at most one refill per period. -/
  perPeriod : t₀ + r.windows.length * c.periodNs ≤ r.clock.toNat
  idle : r.limit = none →
    r.executed + 1000 * c.remainingUs.toNat ≤ 1000 * (e.budgetUs.toNat * (r.windows.length + 1) + n)
  /-- The last execution is not charged yet. -/
  busy : ∀ t ∈ r.limit, 0 < c.execStartNs ∧ c.execStartNs ≤ r.clock ∧ r.clock.toNat ≤ t ∧
    t ≤ c.execStartNs.toNat + 1000 * max c.remainingUs.toNat 1 ∧
    r.executed + 1000 * c.remainingUs.toNat + c.execStartNs.toNat + 1000 ≤
      1000 * (e.budgetUs.toNat * (r.windows.length + 1) + n) + r.clock.toNat

theorem Metered.bound (h : Metered e t₀ n r c) :
    r.executed ≤ 1000 * (e.budgetUs.toNat * (r.windows.length + 1) + n) := by
  cases hl : r.limit with
  | none =>
    have := h.idle hl
    omega
  | some t =>
    obtain ⟨-, -, hclock, ht, hsum⟩ := h.busy t hl
    omega

/-! A callback lets the time pass, may refill the server, and starts or stops an execution. -/

theorem Metered.tick (h : Metered e t₀ n r c) {now : UInt64} (hle : r.clock ≤ now)
    (hlimit : ∀ t ∈ r.limit, now.toNat ≤ t) (s : BpfState) (lost : ℕ) :
    Metered e t₀ n ⟨s, now, r.limit, r.spentAt now, r.windows, lost⟩ c := by
  have hle' := UInt64.le_iff_toNat_le.1 hle
  refine ⟨h.period, h.boundary, h.perPeriod.trans hle', fun hl => ?_, fun t ht => ?_⟩
  · simp only [executed, spentAt, if_pos hl]
    exact h.idle hl
  · obtain ⟨hpos, hstart, -, hfit, hsum⟩ := h.busy t ht
    refine ⟨hpos, UInt64.le_trans hstart hle, hlimit t ht, hfit, ?_⟩
    simp only [executed] at hsum
    simp only [executed, spentAt, if_neg (Option.ne_none_iff_exists'.2 ⟨t, ht⟩)]
    omega

theorem Metered.refill (h : Metered e t₀ n r c) (hrem : c.remainingUs.toNat ≤ e.budgetUs.toNat)
    {c' : CbsState} (hperiod : c'.periodUs = c.periodUs) (hfull : c'.remainingUs = e.budgetUs)
    (hstart : c'.execStartNs = c.execStartNs) (hdue : c.replenishAtNs ≤ r.clock)
    (hmoved : c.replenishAtNs.toNat + c.periodNs ≤ c'.replenishAtNs.toNat) (s : BpfState)
    (lost : ℕ) : Metered e t₀ n ⟨s, r.clock, r.limit, 0, r.windows ++ [r.spent], lost⟩ c' := by
  have hlen : (r.windows ++ [r.spent]).length = r.windows.length + 1 := by simp
  have hsame : c'.periodNs = c.periodNs := by simp only [CbsState.periodNs, hperiod]
  have hexecuted : executed ⟨s, r.clock, r.limit, 0, r.windows ++ [r.spent], lost⟩ =
      r.executed := by
    simp [executed]
  have hdue := UInt64.le_iff_toNat_le.1 hdue
  have hboundary := h.boundary
  refine ⟨hperiod.trans h.period, ?_, ?_, fun hl => ?_, fun t ht => ?_⟩
  · simp only [hlen, hsame, Nat.succ_mul, ← Nat.add_assoc] at hboundary ⊢
    omega
  · simp only [hlen, hsame]
    omega
  · have hidle := h.idle hl
    simp only [hexecuted, hlen, hfull, Nat.mul_succ] at hidle ⊢
    omega
  · obtain ⟨hpos, hclock, hlimit, hfit, hsum⟩ := h.busy t ht
    simp only [hexecuted, hlen, hfull, hstart, Nat.mul_succ] at hsum ⊢
    refine ⟨hpos, hclock, hlimit, ?_, ?_⟩
    · omega
    · omega

theorem Metered.start (h : Metered e t₀ n r c) (hl : r.limit = none) (hpos : 0 < r.clock)
    {slice : ℕ} (hslice : slice ≤ 1000 * max c.remainingUs.toNat 1) (s : BpfState) (lost : ℕ) :
    Metered e t₀ (n + 1) ⟨s, r.clock, some (r.clock.toNat + slice), r.spent, r.windows, lost⟩
      { c with execStartNs := r.clock } := by
  refine ⟨h.period, h.boundary, h.perPeriod, nofun, fun t ht => ?_⟩
  obtain rfl := Option.mem_some_iff.1 ht
  have hidle := h.idle hl
  refine ⟨hpos, UInt64.le_refl _, ?_, ?_, ?_⟩
  all_goals simp only [executed] at hidle ⊢
  all_goals omega

theorem Metered.stop {t : ℕ} (h : Metered e t₀ n r c) (hl : r.limit = some t)
    (hp : 0 < e.periodUs) (hnow : r.clock.toNat < 2 ^ 63) (s : BpfState) (lost : ℕ) :
    Metered e t₀ n ⟨s, r.clock, none, r.spent, r.windows, lost⟩ (c.stop r.clock) := by
  obtain ⟨hpos, hstart, hclock, hfit, hsum⟩ := h.busy t hl
  have hp : 0 < c.periodUs := h.period ▸ hp
  have hcharge := CbsState.remainingAt_charges hstart (hclock.trans hfit)
  have hstart := UInt64.le_iff_toNat_le.1 hstart
  have hperiod : (c.stop r.clock).periodNs = c.periodNs := by
    simp only [CbsState.periodNs, CbsState.periodUs_stop]
  have hreplenish : 0 < c.replenishAtNs := by
    have hperiod := CbsState.periodNs_pos hp
    have hboundary := h.boundary
    rw [UInt64.lt_iff_toNat_lt, UInt64.toNat_zero]
    rw [Nat.succ_mul] at hboundary
    omega
  refine ⟨CbsState.periodUs_stop.trans h.period, ?_, ?_, fun _ => ?_, fun _ hlimit => ?_⟩
  · rw [hperiod]
    exact h.boundary.trans (CbsState.replenishAtNs_le_stop hp hnow hreplenish)
  · rw [hperiod]
    exact h.perPeriod
  · rw [CbsState.stop, if_pos hpos]
    simp only [executed] at hsum ⊢
    omega
  · cases hlimit

/-! ### One callback -/

/-- The callback starts an execution. -/
def starts : Action → Bool
  | .running .. => true
  | _ => false

theorem Metered.replenish {c' : CbsState} (hm : Metered e t₀ n r c) (hs : Served pid key e r c)
    (hp : 0 < e.periodUs) (hc' : (apply r.bpf a).cbsMap.lookup key = some c') {d : CbsState}
    (hd : d = c ∨ d = c.lazyReplenish a.now) (hboundary : d.replenishAtNs = c'.replenishAtNs)
    (ha : ∀ p cpu runnable now, a ≠ .stopping p cpu runnable now) (hle : r.clock ≤ a.now)
    (hnow : a.now.toNat < 2 ^ 63) (hlimit : ∀ t ∈ r.limit, a.now.toNat ≤ t) (s : BpfState)
    (lost : ℕ) :
    Metered e t₀ n ⟨s, a.now, r.limit, if refills key r.bpf a then 0 else r.spentAt a.now,
      if refills key r.bpf a then r.windows ++ [r.spentAt a.now] else r.windows, lost⟩ d := by
  have hiff := refills_iff hs.lookup hc' ha
  rw [← hboundary] at hiff
  have hp : 0 < c.periodUs := hm.period ▸ hp
  have htick := hm.tick hle hlimit s lost
  by_cases hdue : d = c
  · subst hdue
    rw [if_neg (fun h => hiff.1 h rfl), if_neg (fun h => hiff.1 h rfl)]
    exact htick
  · -- the server is replenished, so the boundary has been reached
    obtain rfl := hd.resolve_left hdue
    have hreached : c.replenishAtNs ≤ a.now :=
      UInt64.not_lt.1 fun hlt => hdue (CbsState.lazyReplenish_of_lt hlt)
    have hmoved := CbsState.add_periodNs_le_lazyReplenish hp hnow hreached
    have hfull : (c.lazyReplenish a.now).remainingUs = e.budgetUs := by
      rw [CbsState.lazyReplenish_of_le hp hreached]
      exact hs.budget
    have hrefill : refills key r.bpf a := by
      have hpos := CbsState.periodNs_pos hp
      exact hiff.2 fun heq => by rw [heq] at hmoved; omega
    rw [if_pos hrefill, if_pos hrefill]
    exact htick.refill hs.remaining CbsState.periodUs_lazyReplenish hfull
      CbsState.execStartNs_lazyReplenish hreached hmoved s lost

/-- **One callback** keeps the accounts; the first one comes after time zero. -/
theorem Metered.next {c' : CbsState} (hm : Metered e t₀ n r c) (hs : Served pid key e r c)
    (hp : 0 < e.periodUs) (hpos : 0 < r.clock) (hn : (machine pid key e).next r a = some r')
    (hc' : r'.bpf.cbsMap.lookup key = some c') :
    Metered e t₀ (if starts a then n + 1 else n) r' c' := by
  obtain ⟨hle, hnow, hlimit, hen, rfl⟩ := next_eq_some hn
  obtain ⟨d, hd, hcases⟩ := hs.lookup_apply hen hnow
  obtain rfl : d = c' := Option.some_injective _ (hd.symm.trans hc')
  cases a with
  | enqueue p now | dispatch cpu now =>
    exact hm.replenish hs hp hd hcases rfl nofun hle hnow hlimit _ _
  | running p cpu now =>
    obtain ⟨rfl, hidle⟩ : p = pid ∧ r.limit = none := hen
    obtain rfl : d = c.start now := hcases
    obtain ⟨slice, hslice, hlimit'⟩ := hs.exists_slice cpu now
    rw [hlimit']
    exact (hm.replenish hs hp hd (Or.inr rfl) rfl nofun hle hnow hlimit r.bpf r.lost).start
      hidle (UInt64.lt_of_lt_of_le hpos hle) hslice _ _
  | stopping p cpu runnable now =>
    obtain ⟨-, hbusy⟩ : p = pid ∧ r.limit ≠ none := hen
    obtain rfl : d = c.stop now := hcases
    obtain ⟨t, ht⟩ := Option.ne_none_iff_exists'.1 hbusy
    exact (hm.tick hle hlimit r.bpf r.lost).stop ht hp hnow _ _

theorem metered_of_init (hp : 0 < e.periodUs) (h : (machine pid key e).init r) :
    Metered e r.clock.toNat 0 r (e.initial r.clock) := by
  obtain ⟨-, -, hclock, hlimit, hspent, hwindows, -⟩ := h
  have hperiod : (e.initial r.clock).periodNs < 2 ^ 42 := CbsState.periodNs_lt
  have hboundary : (e.initial r.clock).replenishAtNs.toNat =
      r.clock.toNat + (e.initial r.clock).periodNs := by
    have htoNat := (e.initial r.clock).toNat_periodNs
    simp only [CbsConfig.initial, if_pos hp, UInt64.toNat_add] at htoNat hperiod ⊢
    rw [htoNat]
    exact Nat.mod_eq_of_lt (by omega)
  refine ⟨rfl, ?_, ?_, fun _ => ?_, fun t ht => ?_⟩
  · rw [hwindows, hboundary]
    simp
  · simp [hwindows]
  · simp [executed, hspent, hwindows, CbsConfig.initial]
  · cases hlimit.symm.trans ht

/-! ### The whole run -/

theorem Metered.exec {as : List Action} (hm : Metered e t₀ n r c) (hs : Served pid key e r c)
    (hp : 0 < e.periodUs) (hpos : 0 < r.clock) (hr : (machine pid key e).exec r as = some r') :
    ∃ c', Metered e t₀ (n + as.countP starts) r' c' := by
  induction as generalizing r c n with
  | nil =>
    cases hr
    exact ⟨c, hm⟩
  | cons a as ih =>
    obtain ⟨r₁, h₁, hrest⟩ := Option.bind_eq_some_iff.1 hr
    obtain ⟨c₁, hs₁, -⟩ := hs.next h₁
    have hpos₁ : 0 < r₁.clock := by
      obtain ⟨hle, -, -, -, rfl⟩ := next_eq_some h₁
      exact UInt64.lt_of_lt_of_le hpos hle
    obtain ⟨c', hc'⟩ := ih (hm.next hs hp hpos h₁ hs₁.lookup) hs₁ hpos₁ hrest
    refine ⟨c', ?_⟩
    rw [List.countP_cons]
    split_ifs at hc' ⊢ with hstart
    · rwa [Nat.add_right_comm, Nat.add_assoc] at hc'
    · exact hc'

/-- **The bandwidth of a server.**  In every run from the registration of the server on, the task
executes for at most one budget per period that has begun, and a microsecond per execution. -/
theorem executed_le (pid : UInt32) (key : UInt64) (e : CbsConfig) (hp : 0 < e.periodUs)
    {r₀ : BudgetRun} (hinit : (machine pid key e).init r₀) (hpos : 0 < r₀.clock)
    {as : List Action} (hr : (machine pid key e).exec r₀ as = some r) :
    r.executed ≤ 1000 * (e.budgetUs.toNat *
      ((r.clock.toNat - r₀.clock.toNat) / (1000 * e.periodUs.toNat) + 1) + as.countP starts) := by
  have hserved : Served pid key e r₀ (e.initial r₀.clock) :=
    ⟨hinit.1, hinit.2.1, rfl, le_rfl⟩
  obtain ⟨c, hm⟩ := (metered_of_init hp hinit).exec hserved hp hpos hr
  have hperiod : c.periodNs = 1000 * e.periodUs.toNat := by
    rw [CbsState.periodNs, hm.period, Nat.mul_comm]
  have hwindows : r.windows.length ≤
      (r.clock.toNat - r₀.clock.toNat) / (1000 * e.periodUs.toNat) := by
    have hrefills := hm.perPeriod
    have hpos : 0 < 1000 * e.periodUs.toNat := hperiod ▸
      CbsState.periodNs_pos (c := c) (hm.period ▸ hp)
    rw [hperiod] at hrefills
    rw [Nat.le_div_iff_mul_le hpos]
    omega
  have hle := hm.bound
  rw [Nat.zero_add] at hle
  refine hle.trans (Nat.mul_le_mul_left _ (Nat.add_le_add_right ?_ _))
  exact Nat.mul_le_mul_left _ (Nat.succ_le_succ hwindows)

/-- Task 7 runs for 60 µs and 40 µs, and after a refill once more for 100 µs. -/
theorem executed_le_two_periods :
    ∃ r₀ r as, (machine 7 3 CbsRun.entry).init r₀ ∧ 0 < r₀.clock ∧
      (machine 7 3 CbsRun.entry).exec r₀ as = some r ∧ r.executed = 200000 ∧
      r.executed ≤ 1000 * (CbsRun.entry.budgetUs.toNat *
        ((r.clock.toNat - r₀.clock.toNat) / (1000 * CbsRun.entry.periodUs.toNat) + 1) +
          as.countP starts) := by
  let r₀ : BudgetRun := { fresh 100 with
    bpf := { CbsRun.registered.bpf with
      cbsMap := (BpfHash.empty.update 3 (CbsRun.entry.initial 500)).1 }
    clock := 500 }
  let as : List Action := [.enqueue 7 500, .running 7 0 1000, .stopping 7 0 true 61000,
    .running 7 0 80000, .stopping 7 0 true 120000, .dispatch 0 1100000, .running 7 0 1200000,
    .stopping 7 0 false 1300000]
  have hinit : (machine 7 3 CbsRun.entry).init r₀ :=
    ⟨by decide +kernel, by decide +kernel, by decide, rfl, rfl, rfl, rfl⟩
  have heval : ((machine 7 3 CbsRun.entry).exec r₀ as).any
      (fun r => decide (r.executed = 200000)) = true := by
    decide +kernel
  obtain ⟨r, hr, hexecuted⟩ := (Option.any_eq_true _ _).1 heval
  exact ⟨r₀, r, as, hinit, by decide, hr, of_decide_eq_true hexecuted,
    executed_le 7 3 CbsRun.entry (by decide) hinit (by decide) hr⟩

end BudgetRun

end Timpani
