import Timpani.Node.TableApply
import Timpani.Run.Basic
import Timpani.Timeline.Boundary

/-!
# Replenishment of the CBS servers

The budget of a server is restored lazily, by the first callback at or after `replenish_at_ns`, which
then moves `replenish_at_ns` on by whole periods.  A task that exhausts its budget when it stops
moves it too.

The runs are those of all callbacks, on any tasks and in any order, at non-decreasing times; the
server is the one of a key, as table application initialises it.  Times are below `2 ^ 63` ns, the
range of the kernel's clock.

* `lazyReplenish_order` : **two callbacks replenish in either order** with the same result, that of
  one replenishment at the later time;
* `restored_once` : a callback that moves `replenish_at_ns` restores the budget, unless it is a stop
  that exhausts the budget at or after the boundary; without such stops each boundary that passes is
  crossed by exactly one callback, which restores the budget;
* `replenishment_lost` : a task that runs across its boundary and exhausts the old budget there
  skips a replenishment.
-/

namespace Timpani

/-! ### Arithmetic of the boundaries -/

namespace CbsState

/-- The period in nanoseconds. -/
def periodNs (c : CbsState) : ℕ := c.periodUs.toNat * 1000

variable {c : CbsState} {now : UInt64}

theorem periodNs_lt : c.periodNs < 2 ^ 42 := by
  have := c.periodUs.toNat_lt
  simp only [periodNs]
  omega

theorem periodNs_pos (h : 0 < c.periodUs) : 0 < c.periodNs := by
  have := UInt32.lt_iff_toNat_lt.1 h
  simp only [periodNs]
  simpa using this

theorem toNat_periodNs : (c.periodUs.toUInt64 * 1000).toNat = c.periodNs := by
  have := c.periodNs_lt
  rw [UInt64.toNat_mul, UInt32.toNat_toUInt64]
  change c.periodNs % 2 ^ 64 = c.periodNs
  exact Nat.mod_eq_of_lt (by omega)

/-- The sum of a replenishment at `now`, if there is one, stays in its 64 bits. -/
def NoWrapAt (c : CbsState) (now : UInt64) : Prop :=
  c.replenishAtNs ≤ now → c.replenishAtNs.toNat +
    ((now.toNat - c.replenishAtNs.toNat) / c.periodNs + 1) * c.periodNs < 2 ^ 64

theorem noWrapAt_iff :
    c.NoWrapAt now ↔ nextBoundary c.replenishAtNs.toNat c.periodNs now.toNat < 2 ^ 64 := by
  unfold NoWrapAt
  rw [UInt64.le_iff_toNat_le]
  constructor
  · intro h
    by_cases hlt : now.toNat < c.replenishAtNs.toNat
    · rw [nextBoundary_of_lt hlt]
      exact c.replenishAtNs.toNat_lt
    · rw [nextBoundary_of_le (Nat.not_lt.1 hlt)]
      exact h (Nat.not_lt.1 hlt)
  · intro h hle
    rwa [nextBoundary_of_le hle] at h

theorem noWrapAt_of_lt (hnow : now.toNat < 2 ^ 63) : c.NoWrapAt now := by
  intro hle
  rw [UInt64.le_iff_toNat_le] at hle
  have hp := c.periodNs_lt
  have hnext := nextBoundary_le (P := c.periodNs) hle
  rw [nextBoundary_of_le hle] at hnext
  omega

theorem toNat_nextReplenish (hr : c.replenishAtNs ≤ now) (h : c.NoWrapAt now) :
    (c.nextReplenish now).toNat =
      nextBoundary c.replenishAtNs.toNat c.periodNs now.toNat := by
  have hsum := h hr
  rw [nextBoundary_of_le (UInt64.le_iff_toNat_le.1 hr)]
  have hq : (now.toNat - c.replenishAtNs.toNat) / c.periodNs + 1 < 2 ^ 64 := by
    rcases Nat.eq_zero_or_pos c.periodNs with h0 | hpos
    · simp [h0]
    · exact ((Nat.le_mul_of_pos_right _ hpos).trans (Nat.le_add_left _ _)).trans_lt hsum
  have hsucc : ((now - c.replenishAtNs) / (c.periodUs.toUInt64 * 1000) + 1).toNat =
      (now.toNat - c.replenishAtNs.toNat) / c.periodNs + 1 := by
    rw [UInt64.toNat_add, UInt64.toNat_div, UInt64.toNat_sub_of_le _ _ hr, toNat_periodNs]
    exact Nat.mod_eq_of_lt hq
  unfold nextReplenish
  dsimp only
  rw [UInt64.toNat_add, UInt64.toNat_mul, hsucc, toNat_periodNs, Nat.add_mod_mod]
  exact Nat.mod_eq_of_lt hsum

theorem nextReplenish_bounds (hp : 0 < c.periodUs) (hr : c.replenishAtNs ≤ now)
    (hnow : now.toNat < 2 ^ 63) :
    now.toNat < (c.nextReplenish now).toNat ∧
      (c.nextReplenish now).toNat ≤ now.toNat + c.periodNs := by
  rw [toNat_nextReplenish hr (noWrapAt_of_lt hnow)]
  exact ⟨lt_nextBoundary (periodNs_pos hp), nextBoundary_le (UInt64.le_iff_toNat_le.1 hr)⟩

/-- If the boundary has moved on, the budget is restored. -/
def RestoredBy (c c' : CbsState) : Prop :=
  c.replenishAtNs < c'.replenishAtNs → c'.remainingUs = c'.budgetUs

theorem restoredBy_of_eq {c' : CbsState} (h : c'.replenishAtNs = c.replenishAtNs) :
    RestoredBy c c' :=
  fun hlt => absurd (h ▸ hlt) (UInt64.lt_irrefl _)

/-- A server whose boundary is at most a period ahead. -/
structure Sound (c : CbsState) (budgetUs periodUs : UInt32) (clock : UInt64) : Prop where
  budget : c.budgetUs = budgetUs
  period : c.periodUs = periodUs
  positive : 0 < c.periodUs
  boundary : 0 < c.replenishAtNs
  ahead : c.replenishAtNs.toNat ≤ clock.toNat + c.periodNs

variable {clock : UInt64} {budgetUs periodUs : UInt32}

theorem lazyReplenish_of_lt (h : now < c.replenishAtNs) : c.lazyReplenish now = c :=
  if_pos (Or.inr h)

theorem lazyReplenish_of_le (hp : 0 < c.periodUs) (h : c.replenishAtNs ≤ now) :
    c.lazyReplenish now =
      { c with remainingUs := c.budgetUs, replenishAtNs := c.nextReplenish now } := by
  refine if_neg (not_or.2 ⟨?_, UInt64.not_lt.2 h⟩)
  rintro h0
  rw [h0] at hp
  exact absurd hp (UInt32.lt_irrefl _)

@[simp] theorem budgetUs_lazyReplenish : (c.lazyReplenish now).budgetUs = c.budgetUs := by
  unfold lazyReplenish
  split_ifs <;> rfl

@[simp] theorem periodUs_lazyReplenish : (c.lazyReplenish now).periodUs = c.periodUs := by
  unfold lazyReplenish
  split_ifs <;> rfl

@[simp] theorem periodNs_lazyReplenish : (c.lazyReplenish now).periodNs = c.periodNs := by
  rw [periodNs, periodUs_lazyReplenish, periodNs]

theorem lazyReplenish_eq (hp : 0 < c.periodUs) :
    c.lazyReplenish now = { c with
      remainingUs := if now < c.replenishAtNs then c.remainingUs else c.budgetUs
      replenishAtNs := (c.lazyReplenish now).replenishAtNs } := by
  by_cases h : now < c.replenishAtNs
  · rw [if_pos h, lazyReplenish_of_lt h]
  · rw [if_neg h, lazyReplenish_of_le hp (UInt64.not_lt.1 h)]

theorem toNat_lazyReplenish (hp : 0 < c.periodUs) (h : c.NoWrapAt now) :
    (c.lazyReplenish now).replenishAtNs.toNat =
      nextBoundary c.replenishAtNs.toNat c.periodNs now.toNat := by
  by_cases hlt : now < c.replenishAtNs
  · rw [lazyReplenish_of_lt hlt, nextBoundary_of_lt (UInt64.lt_iff_toNat_lt.1 hlt)]
  · have hle := UInt64.not_lt.1 hlt
    rw [lazyReplenish_of_le hp hle]
    exact toNat_nextReplenish hle h

theorem Sound.mono (h : Sound c budgetUs periodUs clock) (hle : clock ≤ now) :
    Sound c budgetUs periodUs now :=
  { h with ahead := h.ahead.trans (Nat.add_le_add_right (UInt64.le_iff_toNat_le.1 hle) _) }

theorem lt_lazyReplenish (hp : 0 < c.periodUs) (hnow : now.toNat < 2 ^ 63) :
    now < (c.lazyReplenish now).replenishAtNs := by
  by_cases h : now < c.replenishAtNs
  · rwa [lazyReplenish_of_lt h]
  · rw [lazyReplenish_of_le hp (UInt64.not_lt.1 h), UInt64.lt_iff_toNat_lt]
    exact (nextReplenish_bounds hp (UInt64.not_lt.1 h) hnow).1

theorem lazyReplenish_idem (hnow : now.toNat < 2 ^ 63) :
    (c.lazyReplenish now).lazyReplenish now = c.lazyReplenish now := by
  by_cases hp : c.periodUs = 0
  · have hself : c.lazyReplenish now = c := if_pos (Or.inl hp)
    rw [hself, hself]
  · exact lazyReplenish_of_lt (lt_lazyReplenish (UInt32.pos_iff_ne_zero.2 hp) hnow)

/-! ### Replenishments in any order -/

theorem toNat_max (s t : UInt64) : (max s t).toNat = max s.toNat t.toNat := by
  show (if s ≤ t then t else s).toNat = _
  split_ifs with h
  · rw [max_eq_right (UInt64.le_iff_toNat_le.1 h)]
  · rw [max_eq_left (UInt64.le_iff_toNat_le.1 (UInt64.le_of_lt (UInt64.not_le.1 h)))]

theorem max_swap (s t : UInt64) : max s t = max t s := by
  rw [← UInt64.toNat_inj, toNat_max, toNat_max, Nat.max_comm]

variable {s t : UInt64}

theorem NoWrapAt.max (hs : c.NoWrapAt s) (ht : c.NoWrapAt t) : c.NoWrapAt (max s t) := by
  by_cases h : s ≤ t
  · rwa [show Max.max s t = t from if_pos h]
  · rwa [show Max.max s t = s from if_neg h]

theorem NoWrapAt.lazyReplenish (hp : 0 < c.periodUs) (hs : c.NoWrapAt s) (ht : c.NoWrapAt t) :
    (c.lazyReplenish s).NoWrapAt t := by
  rw [noWrapAt_iff, toNat_lazyReplenish hp hs, periodNs_lazyReplenish,
    nextBoundary_nextBoundary (periodNs_pos hp), ← toNat_max]
  exact noWrapAt_iff.1 (hs.max ht)

theorem lazyReplenish_lazyReplenish (hp : 0 < c.periodUs) (hs : c.NoWrapAt s)
    (ht : c.NoWrapAt t) :
    (c.lazyReplenish s).lazyReplenish t = c.lazyReplenish (max s t) := by
  have hp' : 0 < (c.lazyReplenish s).periodUs := by rwa [periodUs_lazyReplenish]
  have hboundary : ((c.lazyReplenish s).lazyReplenish t).replenishAtNs =
      (c.lazyReplenish (max s t)).replenishAtNs := by
    rw [← UInt64.toNat_inj, toNat_lazyReplenish hp' (hs.lazyReplenish hp ht),
      toNat_lazyReplenish hp hs, toNat_lazyReplenish hp (hs.max ht), periodNs_lazyReplenish,
      nextBoundary_nextBoundary (periodNs_pos hp), toNat_max]
  have hmax : max s t < c.replenishAtNs ↔ s < c.replenishAtNs ∧ t < c.replenishAtNs := by
    rw [UInt64.lt_iff_toNat_lt, toNat_max, max_lt_iff, UInt64.lt_iff_toNat_lt,
      UInt64.lt_iff_toNat_lt]
  rw [lazyReplenish_eq hp', hboundary, @lazyReplenish_eq c (max s t) hp]
  by_cases h : s < c.replenishAtNs
  · simp only [lazyReplenish_of_lt h, hmax, h, true_and]
  · -- the budget is full after the first replenishment, so the second one leaves it as it is
    rw [lazyReplenish_of_le hp (UInt64.not_lt.1 h), if_neg (fun hm => h (hmax.1 hm).1), ite_self]

/-- **Lazy replenishment does not depend on the order of the callbacks.** Replenishing at `s` and
at `t` in either order is replenishing once, at the later of the two; the boundary moves by whole
periods to the first one that is ahead. -/
theorem lazyReplenish_order (c : CbsState) (s t : UInt64) (hp : 0 < c.periodUs)
    (hs : c.NoWrapAt s) (ht : c.NoWrapAt t) :
    (c.lazyReplenish s).lazyReplenish t = c.lazyReplenish (max s t) ∧
      (c.lazyReplenish t).lazyReplenish s = c.lazyReplenish (max s t) ∧
      (c.lazyReplenish t).replenishAtNs.toNat ≡ c.replenishAtNs.toNat [MOD c.periodNs] ∧
      t < (c.lazyReplenish t).replenishAtNs ∧
      (t < c.replenishAtNs → (c.lazyReplenish t).replenishAtNs = c.replenishAtNs) ∧
      (c.replenishAtNs ≤ t →
        (c.lazyReplenish t).replenishAtNs.toNat ≤ t.toNat + c.periodNs) := by
  refine ⟨lazyReplenish_lazyReplenish hp hs ht, ?_, ?_, ?_, fun hlt => ?_, fun hle => ?_⟩
  · rw [lazyReplenish_lazyReplenish hp ht hs, max_swap]
  · rw [toNat_lazyReplenish hp ht]
    exact nextBoundary_modEq
  · rw [UInt64.lt_iff_toNat_lt, toNat_lazyReplenish hp ht]
    exact lt_nextBoundary (periodNs_pos hp)
  · rw [lazyReplenish_of_lt hlt]
  · rw [toNat_lazyReplenish hp ht]
    exact nextBoundary_le (UInt64.le_iff_toNat_le.1 hle)

/-- A server with a period of 1 ms whose boundary is at 5 ms. -/
def spent : CbsState where
  taskIdHash := 1
  budgetUs := 300
  periodUs := 1000
  remainingUs := 0
  execStartNs := 0
  replenishAtNs := 5000000
  deadlineUs := 1000

/-- One callback looks at it in the second period after the boundary, one in the seventh. -/
theorem lazyReplenish_order_of_spent :
    (spent.lazyReplenish 6500000).lazyReplenish 11000001 = spent.lazyReplenish 11000001 ∧
      (spent.lazyReplenish 11000001).lazyReplenish 6500000 = spent.lazyReplenish 11000001 ∧
      11000001 < (spent.lazyReplenish 11000001).replenishAtNs := by
  obtain ⟨hst, hts, -, hlt, -⟩ := lazyReplenish_order spent 6500000 11000001 (by decide)
    (noWrapAt_of_lt (by decide)) (noWrapAt_of_lt (by decide))
  exact ⟨hst, hts, hlt⟩

theorem Sound.lazyReplenish (h : Sound c budgetUs periodUs now) (hnow : now.toNat < 2 ^ 63) :
    Sound (c.lazyReplenish now) budgetUs periodUs now ∧
      c.replenishAtNs.toNat ≤ (c.lazyReplenish now).replenishAtNs.toNat ∧
      RestoredBy c (c.lazyReplenish now) := by
  by_cases hlt : now < c.replenishAtNs
  · rw [lazyReplenish_of_lt hlt]
    exact ⟨h, le_rfl, restoredBy_of_eq rfl⟩
  · have hle := UInt64.not_lt.1 hlt
    have hahead := lt_lazyReplenish h.positive hnow
    have hbounds := nextReplenish_bounds h.positive hle hnow
    rw [lazyReplenish_of_le h.positive hle] at hahead ⊢
    refine ⟨⟨h.budget, h.period, h.positive, ?_, hbounds.2⟩, ?_, fun _ => rfl⟩
    · exact UInt64.lt_of_le_of_lt (UInt64.le_iff_toNat_le.2 (Nat.zero_le _)) hahead
    · exact (UInt64.le_iff_toNat_le.1 hle).trans hbounds.1.le

theorem Sound.start (h : Sound c budgetUs periodUs now) (hnow : now.toNat < 2 ^ 63) :
    Sound (c.start now) budgetUs periodUs now ∧
      c.replenishAtNs.toNat ≤ (c.start now).replenishAtNs.toNat ∧ RestoredBy c (c.start now) := by
  obtain ⟨hs, hr⟩ := h.lazyReplenish hnow
  exact ⟨⟨hs.budget, hs.period, hs.positive, hs.boundary, hs.ahead⟩, hr⟩

/-- A stop that does not exhaust the budget, or does so before the boundary, leaves it alone. -/
theorem replenishAtNs_stop_of_not (h : 0 < c.replenishAtNs)
    (hnot : ¬ (c.exhausts now = true ∧ c.replenishAtNs ≤ now)) :
    (c.stop now).replenishAtNs = c.replenishAtNs := by
  unfold stop
  split_ifs with hstart hex h0 hle
  · rw [h0] at h
    exact absurd h (UInt64.lt_irrefl _)
  · exact absurd ⟨by simp [exhausts, hstart, hex.1], hle⟩ hnot
  all_goals rfl

/-- A stop that exhausts the budget at or after the boundary moves it and restores nothing. -/
theorem stop_of_late (hp : 0 < c.periodUs) (h : 0 < c.replenishAtNs)
    (hex : c.exhausts now = true) (hle : c.replenishAtNs ≤ now) :
    (c.stop now).replenishAtNs = c.nextReplenish now ∧ (c.stop now).remainingUs = 0 := by
  simp only [exhausts, Bool.and_eq_true, decide_eq_true_eq] at hex
  have h0 : c.replenishAtNs ≠ 0 := fun h0 => by
    rw [h0] at h
    exact absurd h (UInt64.lt_irrefl _)
  rw [stop, if_pos hex.1]
  dsimp only
  rw [if_pos ⟨hex.2, hp⟩, if_neg h0, if_pos hle]
  exact ⟨rfl, hex.2⟩

@[simp] theorem budgetUs_stop : (c.stop now).budgetUs = c.budgetUs := by
  unfold stop
  split_ifs <;> rfl

@[simp] theorem periodUs_stop : (c.stop now).periodUs = c.periodUs := by
  unfold stop
  split_ifs <;> rfl

theorem Sound.stop (h : Sound c budgetUs periodUs now) (hnow : now.toNat < 2 ^ 63) :
    Sound (c.stop now) budgetUs periodUs now ∧
      c.replenishAtNs.toNat ≤ (c.stop now).replenishAtNs.toNat := by
  have hboundary : c.replenishAtNs.toNat ≤ (c.stop now).replenishAtNs.toNat ∧
      (c.stop now).replenishAtNs.toNat ≤ now.toNat + c.periodNs := by
    by_cases hlate : c.exhausts now = true ∧ c.replenishAtNs ≤ now
    · have hbounds := nextReplenish_bounds h.positive hlate.2 hnow
      rw [(stop_of_late h.positive h.boundary hlate.1 hlate.2).1]
      exact ⟨(UInt64.le_iff_toNat_le.1 hlate.2).trans hbounds.1.le, hbounds.2⟩
    · rw [replenishAtNs_stop_of_not h.boundary hlate]
      exact ⟨le_rfl, h.ahead⟩
  refine ⟨⟨budgetUs_stop.trans h.budget, periodUs_stop.trans h.period, ?_, ?_, ?_⟩, hboundary.1⟩
  · rw [periodUs_stop]
    exact h.positive
  · exact UInt64.lt_iff_toNat_lt.2 ((UInt64.lt_iff_toNat_lt.1 h.boundary).trans_le hboundary.1)
  · rw [periodNs, periodUs_stop]
    exact hboundary.2

/-- **A stop restores what it moves iff it is not a late one.** -/
theorem Sound.restoredBy_stop_iff (h : Sound c budgetUs periodUs now) (hb : 0 < budgetUs)
    (hnow : now.toNat < 2 ^ 63) :
    RestoredBy c (c.stop now) ↔ ¬ (c.exhausts now = true ∧ c.replenishAtNs ≤ now) := by
  constructor
  · rintro hrestored ⟨hex, hle⟩
    obtain ⟨hr, hzero⟩ := stop_of_late h.positive h.boundary hex hle
    have hbounds := nextReplenish_bounds h.positive hle hnow
    have hlt : c.replenishAtNs < (c.stop now).replenishAtNs := by
      rw [hr, UInt64.lt_iff_toNat_lt]
      exact (UInt64.le_iff_toNat_le.1 hle).trans_lt hbounds.1
    have := hrestored hlt
    rw [hzero, budgetUs_stop, h.budget] at this
    rw [← this] at hb
    exact UInt32.lt_irrefl _ hb
  · exact fun hnot => restoredBy_of_eq (replenishAtNs_stop_of_not h.boundary hnot)

end CbsState

/-! ### Runs -/

/-- The BPF state, the time of the last callback, and what the server of the key has been after each
callback. -/
structure CbsRun where
  bpf : BpfState
  clock : UInt64
  history : List CbsState

namespace CbsRun

inductive Action where
  | enqueue (pid : UInt32) (now : UInt64)
  | running (pid cpu : UInt32) (now : UInt64)
  | stopping (pid cpu : UInt32) (runnable : Bool) (now : UInt64)
  | dispatch (cpu : UInt32) (now : UInt64)

/-- The time of a callback. -/
def Action.now : Action → UInt64
  | .enqueue _ now => now
  | .running _ _ now => now
  | .stopping _ _ _ now => now
  | .dispatch _ now => now

def apply (s : BpfState) : Action → BpfState
  | .enqueue pid now => (s.enqueue pid now).1
  | .running pid cpu now => (s.running pid cpu now).1
  | .stopping pid cpu runnable now => s.stopping pid cpu runnable now
  | .dispatch cpu now => (s.dispatch cpu now).1

/-- Callbacks at non-decreasing times, after the server of the key was registered for an entry. -/
def machine (key : UInt64) (e : CbsConfig) : Machine CbsRun Action where
  init s := s.bpf.cbsMap.lookup key = some (e.initial s.clock) ∧ s.clock.toNat < 2 ^ 63 ∧
    s.history = [e.initial s.clock]
  next s a :=
    if s.clock ≤ a.now ∧ a.now.toNat < 2 ^ 63 then
      some { bpf := apply s.bpf a
             clock := a.now
             history := s.history ++ ((apply s.bpf a).cbsMap.lookup key).toList }
    else none

/-- A task of the server stops. -/
def Stops (key : UInt64) (s : BpfState) : Action → Prop
  | .stopping pid _ _ _ => s.serves pid key = true
  | _ => False

/-- A task of the server stops and exhausts the budget at or after the boundary. -/
def LateStop (key : UInt64) (r : CbsRun) (a : Action) : Prop :=
  Stops key r.bpf a ∧ ∃ c, r.bpf.cbsMap.lookup key = some c ∧
    c.exhausts a.now = true ∧ c.replenishAtNs ≤ a.now

/-- A task of the server wakes up or starts running. -/
def Uses (key : UInt64) (s : BpfState) : Action → Prop
  | .enqueue pid _ => s.serves pid key = true
  | .running pid _ _ => s.serves pid key = true
  | _ => False

/-- Step `i` of a history moves the boundary across the instant `b`. -/
def Crosses (history : List CbsState) (b i : ℕ) : Prop :=
  ∃ c c', history[i]? = some c ∧ history[i + 1]? = some c' ∧
    c.replenishAtNs.toNat ≤ b ∧ b < c'.replenishAtNs.toNat

variable {key : UInt64} {e : CbsConfig} {s : BpfState} {c : CbsState} {now : UInt64}

theorem lookup_cbsMap_dispatch (hc : s.cbsMap.lookup key = some c)
    (hnow : now.toNat < 2 ^ 63) (cpu : UInt32) :
    (s.dispatch cpu now).1.cbsMap.lookup key = some c ∨
      (s.dispatch cpu now).1.cbsMap.lookup key = some (c.lazyReplenish now) := by
  refine BpfState.dispatch_induction (P := fun s => s.cbsMap.lookup key = some c ∨
    s.cbsMap.lookup key = some (c.lazyReplenish now)) (Or.inl hc) ?_ (fun _ _ h => h)
  intro acc pid h
  rw [BpfState.lookup_cbsMap_promoteOne, BpfState.onServer]
  split_ifs
  · rcases h with h | h
    · exact Or.inr (by rw [h, Option.map_some])
    · exact Or.inr (by rw [h, Option.map_some, CbsState.lazyReplenish_idem hnow])
  · exact h

theorem apply_cases (hc : s.cbsMap.lookup key = some c) (a : Action)
    (hnow : a.now.toNat < 2 ^ 63) :
    ∃ c', (apply s a).cbsMap.lookup key = some c' ∧
      (Stops key s a ∧ c' = c.stop a.now ∨
        ¬ Stops key s a ∧ (c' = c ∨ c' = c.lazyReplenish a.now ∨ c' = c.start a.now)) := by
  cases a with
  | enqueue pid now =>
    dsimp only [apply]
    rw [BpfState.lookup_cbsMap_enqueue, BpfState.onServer, hc]
    split_ifs
    · exact ⟨_, rfl, Or.inr ⟨id, Or.inr (Or.inl rfl)⟩⟩
    · exact ⟨c, rfl, Or.inr ⟨id, Or.inl rfl⟩⟩
  | running pid cpu now =>
    dsimp only [apply]
    rw [BpfState.lookup_cbsMap_running, BpfState.onServer, hc]
    split_ifs
    · exact ⟨_, rfl, Or.inr ⟨id, Or.inr (Or.inr rfl)⟩⟩
    · exact ⟨c, rfl, Or.inr ⟨id, Or.inl rfl⟩⟩
  | stopping pid cpu runnable now =>
    dsimp only [apply]
    rw [BpfState.lookup_cbsMap_stopping, BpfState.onServer, hc]
    split_ifs with hserves
    · exact ⟨_, rfl, Or.inl ⟨hserves, rfl⟩⟩
    · exact ⟨c, rfl, Or.inr ⟨hserves, Or.inl rfl⟩⟩
  | dispatch cpu now =>
    rcases lookup_cbsMap_dispatch hc hnow cpu with h | h
    · exact ⟨c, h, Or.inr ⟨id, Or.inl rfl⟩⟩
    · exact ⟨_, h, Or.inr ⟨id, Or.inr (Or.inl rfl)⟩⟩

variable {r r' : CbsRun} {a : Action}

theorem next_eq_some (h : (machine key e).next r a = some r') :
    r.clock ≤ a.now ∧ a.now.toNat < 2 ^ 63 ∧ r'.bpf = apply r.bpf a ∧ r'.clock = a.now ∧
      r'.history = r.history ++ ((apply r.bpf a).cbsMap.lookup key).toList := by
  obtain ⟨⟨hle, hnow⟩, heq⟩ := Option.ite_none_right_eq_some.1 h
  cases heq
  exact ⟨hle, hnow, rfl, rfl, rfl⟩

/-- The server exists, its boundary is ahead or was passed at most now, and it is the last of the
history. -/
structure Inv (key : UInt64) (e : CbsConfig) (r : CbsRun) (c : CbsState) : Prop where
  lookup : r.bpf.cbsMap.lookup key = some c
  sound : c.Sound e.budgetUs e.periodUs r.clock
  last : r.history.getLast? = some c

/-- **What one callback does to the server.**  The boundary never moves back, and a callback that is
not a late stop restores the budget if it moves the boundary on. -/
theorem Inv.next (h : Inv key e r c) (hb : 0 < e.budgetUs)
    (hn : (machine key e).next r a = some r') :
    ∃ c', Inv key e r' c' ∧ r'.history = r.history ++ [c'] ∧
      c.replenishAtNs.toNat ≤ c'.replenishAtNs.toNat ∧
      (c.RestoredBy c' ↔ ¬ LateStop key r a) := by
  obtain ⟨hle, hnow, hbpf, hclock, hhistory⟩ := next_eq_some hn
  have hsound := h.sound.mono hle
  obtain ⟨c', hc', hcases⟩ := apply_cases h.lookup a hnow
  rw [hc'] at hhistory
  have heffect : c'.Sound e.budgetUs e.periodUs a.now ∧
      c.replenishAtNs.toNat ≤ c'.replenishAtNs.toNat ∧ (c.RestoredBy c' ↔ ¬ LateStop key r a) := by
    rcases hcases with ⟨hstops, rfl⟩ | ⟨hnot, hcases⟩
    · obtain ⟨hs, hm⟩ := hsound.stop hnow
      refine ⟨hs, hm, ?_⟩
      rw [hsound.restoredBy_stop_iff hb hnow, LateStop, h.lookup]
      simp [hstops]
    · have hiff : c.RestoredBy c' → (c.RestoredBy c' ↔ ¬ LateStop key r a) := fun hr =>
        ⟨fun _ hl => hnot hl.1, fun _ => hr⟩
      rcases hcases with rfl | rfl | rfl
      · exact ⟨hsound, le_rfl, hiff (CbsState.restoredBy_of_eq rfl)⟩
      · obtain ⟨hs, hm, hr⟩ := hsound.lazyReplenish hnow
        exact ⟨hs, hm, hiff hr⟩
      · obtain ⟨hs, hm, hr⟩ := hsound.start hnow
        exact ⟨hs, hm, hiff hr⟩
  obtain ⟨hs, hmono, hrestored⟩ := heffect
  refine ⟨c', ⟨by rw [hbpf, hc'], by rwa [hclock], ?_⟩, hhistory, hmono, hrestored⟩
  rw [hhistory]
  exact List.getLast?_concat

theorem inv_of_init (hp : 0 < e.periodUs) (h : (machine key e).init r) :
    Inv key e r (e.initial r.clock) := by
  obtain ⟨hlookup, hclock, hhistory⟩ := h
  have hreplenish : (e.initial r.clock).replenishAtNs.toNat =
      r.clock.toNat + (e.initial r.clock).periodNs := by
    have := (e.initial r.clock).periodNs_lt
    dsimp only [CbsConfig.initial]
    rw [if_pos hp, UInt64.toNat_add]
    change (_ + ((e.initial r.clock).periodUs.toUInt64 * 1000).toNat) % 2 ^ 64 = _
    rw [CbsState.toNat_periodNs]
    exact Nat.mod_eq_of_lt (by omega)
  refine ⟨hlookup, ⟨rfl, rfl, hp, ?_, hreplenish.le⟩, by rw [hhistory]; rfl⟩
  rw [UInt64.lt_iff_toNat_lt, hreplenish]
  exact Nat.add_pos_right _ (CbsState.periodNs_pos hp)

theorem exists_inv_of_reachable (hb : 0 < e.budgetUs) (hp : 0 < e.periodUs)
    (h : (machine key e).Reachable r) : ∃ c, Inv key e r c := by
  refine Machine.ReachableIf.invariant (I := fun r => ∃ c, Inv key e r c) h ?_ ?_
  · exact fun r hinit => ⟨_, inv_of_init hp hinit⟩
  · rintro r a r' ⟨c, hi⟩ - hn
    obtain ⟨c', hi', -⟩ := hi.next hb hn
    exact ⟨c', hi'⟩

/-- The boundary does not move back, and the budget is restored if it moves on. -/
def Restores (e : CbsConfig) (c c' : CbsState) : Prop :=
  c.replenishAtNs.toNat ≤ c'.replenishAtNs.toNat ∧
    (c.replenishAtNs < c'.replenishAtNs → c'.remainingUs = e.budgetUs)

/-- Without late stops every step of the history restores the budget if it moves the boundary. -/
theorem isChain_history (hb : 0 < e.budgetUs) (hp : 0 < e.periodUs)
    (h : (machine key e).ReachableIf (fun r a => ¬ LateStop key r a) r) :
    r.history.IsChain (Restores e) := by
  refine (h.invariant (I := fun r => (∃ c, Inv key e r c) ∧ r.history.IsChain (Restores e))
    ?_ ?_).2
  · rintro r hinit
    refine ⟨⟨_, inv_of_init hp hinit⟩, ?_⟩
    rw [hinit.2.2]
    exact .singleton _
  · rintro r a r' ⟨⟨c, hi⟩, hchain⟩ hnot hn
    obtain ⟨c', hi', hhistory, hmono, hrestored⟩ := hi.next hb hn
    refine ⟨⟨c', hi'⟩, ?_⟩
    rw [hhistory]
    refine hchain.append (.singleton _) ?_
    intro x hx y hy
    obtain rfl : c = x := by simpa [hi.last] using hx
    obtain rfl : c' = y := by simpa using hy
    exact ⟨hmono, hi'.sound.budget ▸ hrestored.2 hnot⟩

theorem Inv.lt_of_uses (h : Inv key e r c) (huses : Uses key r.bpf a)
    (hn : (machine key e).next r a = some r') :
    ∃ c', r'.bpf.cbsMap.lookup key = some c' ∧ r'.clock < c'.replenishAtNs := by
  obtain ⟨-, hnow, hbpf, hclock, -⟩ := next_eq_some hn
  rw [hbpf, hclock]
  have hahead := CbsState.lt_lazyReplenish h.sound.positive hnow
  cases a with
  | enqueue pid now =>
    refine ⟨c.lazyReplenish now, ?_, hahead⟩
    have hserves : r.bpf.serves pid key = true := huses
    dsimp only [apply]
    rw [BpfState.lookup_cbsMap_enqueue, BpfState.onServer, if_pos hserves, h.lookup]
    rfl
  | running pid cpu now =>
    refine ⟨c.start now, ?_, hahead⟩
    have hserves : r.bpf.serves pid key = true := huses
    dsimp only [apply]
    rw [BpfState.lookup_cbsMap_running, BpfState.onServer, if_pos hserves, h.lookup]
    rfl
  | _ => exact huses.elim

/-- **A callback that moves `replenish_at_ns` restores the budget iff it is not a late stop.**  In a
run without late stops every boundary that the server has moved past was crossed by exactly one
callback, which restored the budget; and whenever a task of the server wakes up or starts running,
the server has moved past every boundary that the time has passed. -/
theorem restored_once (key : UInt64) (e : CbsConfig) (hb : 0 < e.budgetUs) (hp : 0 < e.periodUs) :
    (∀ r a r', (machine key e).Reachable r → (machine key e).next r a = some r' →
      ∃ c c', r.bpf.cbsMap.lookup key = some c ∧ r'.bpf.cbsMap.lookup key = some c' ∧
        0 < c.replenishAtNs ∧ c.replenishAtNs ≤ c'.replenishAtNs ∧
        ((c.replenishAtNs < c'.replenishAtNs → c'.remainingUs = e.budgetUs) ↔
          ¬ LateStop key r a) ∧
        (Uses key r.bpf a → r'.clock < c'.replenishAtNs)) ∧
    ∀ r, (machine key e).ReachableIf (fun r a => ¬ LateStop key r a) r →
      ∃ first last, r.history.head? = some first ∧ r.history.getLast? = some last ∧
        r.bpf.cbsMap.lookup key = some last ∧
        ∀ b, first.replenishAtNs.toNat ≤ b → b < last.replenishAtNs.toNat →
          (∃! i, Crosses r.history b i) ∧
          ∀ i, Crosses r.history b i → r.history[i + 1]?.map (·.remainingUs) = some e.budgetUs := by
  refine ⟨fun r a r' hr hn => ?_, fun r hr => ?_⟩
  · obtain ⟨c, hi⟩ := exists_inv_of_reachable hb hp hr
    obtain ⟨c', hi', -, hmono, hrestored⟩ := hi.next hb hn
    refine ⟨c, c', hi.lookup, hi'.lookup, hi.sound.boundary, UInt64.le_iff_toNat_le.2 hmono,
      hi'.sound.budget ▸ hrestored, fun huses => ?_⟩
    obtain ⟨d, hd, hlt⟩ := hi.lt_of_uses huses hn
    cases hi'.lookup.symm.trans hd
    exact hlt
  · obtain ⟨last, hi⟩ := exists_inv_of_reachable hb hp hr.reachable
    have hchain := isChain_history hb hp hr
    obtain ⟨first, hfirst⟩ : ∃ first, r.history.head? = some first := by
      cases hhistory : r.history with
      | nil => simpa [hhistory] using hi.last
      | cons first rest => exact ⟨first, rfl⟩
    refine ⟨first, last, hfirst, hi.last, hi.lookup, fun b hle hlt => ⟨?_, ?_⟩⟩
    · exact existsUnique_crossing (hchain.imp fun _ _ h => h.1) hfirst hi.last hle hlt
    · rintro i ⟨c, c', hc, hc', hcb, hbc⟩
      have hstep : Restores e c c' := by
        obtain ⟨hi, rfl⟩ := List.getElem?_eq_some_iff.1 hc
        obtain ⟨hi', rfl⟩ := List.getElem?_eq_some_iff.1 hc'
        exact List.isChain_iff_getElem.1 hchain i hi'
      rw [hc', Option.map_some, hstep.2 (UInt64.lt_iff_toNat_lt.2 (hcb.trans_lt hbc))]

/-! ### Two runs -/

/-- A server with a budget of 100 µs every 1000 µs. -/
def entry : CbsConfig where
  workloadId := text "w"
  taskId := text "t"
  budgetUs := 100
  periodUs := 1000
  deadlineUs := 1000
  workloadIdHash := 2
  taskIdHash := 1
  currentLimit := 100

/-- The server is registered at time 0 and task 7 is its task. -/
def registered : CbsRun where
  bpf :=
    { isolatedCpuMask := 0
      ttTableMap := .empty
      cbsMap := (BpfHash.empty.update 3 (entry.initial 0)).1
      currentSlotMap := .replicate 128 0
      ttActiveUntilMap := .replicate 128 0
      nextTtStartMap := .replicate 128 0
      ttRunnableCountMap := .replicate 128 0
      taskMetaMap := (BpfHash.empty.update 7 (Registration.toMeta ⟨2, 1, 0, 0, .cbs, 2⟩)).1
      dsqCbs := []
      dsqThrottled := []
      faultRingbuf := [] }
  clock := 0
  history := [entry.initial 0]

theorem init_registered : (machine 3 entry).init registered :=
  ⟨by decide +kernel, by decide, rfl⟩

/-- The task runs for 60 µs in the first and again in the third period: its second start crosses the
boundaries at 1 ms and at 2 ms, and restores the budget. -/
theorem restored_after_idle_period :
    ∃ r, (machine 3 entry).ReachableIf (fun r a => ¬ LateStop 3 r a) r ∧
      (∃! i, Crosses r.history 1000000 i) ∧ (∃! i, Crosses r.history 2000000 i) ∧
      ∀ i, Crosses r.history 1000000 i →
        r.history[i + 1]?.map (·.remainingUs) = some 100 := by
  have heval : ((machine 3 entry).exec registered [.enqueue 7 100, .running 7 0 100000]).any
      (fun r₁ => decide ((r₁.bpf.cbsMap.lookup 3).map (·.replenishAtNs) = some 1000000) &&
        ((machine 3 entry).next r₁ (.stopping 7 0 false 160000)).any fun r₂ =>
          ((machine 3 entry).next r₂ (.running 7 0 2500000)).any fun r₃ => decide
            (r₃.history.head?.map (·.replenishAtNs) = some 1000000 ∧
              r₃.history.getLast?.map (·.replenishAtNs) = some 3000000)) = true := by
    decide +kernel
  obtain ⟨r₁, h₁, hall⟩ := (Option.any_eq_true _ _).1 heval
  obtain ⟨hboundary, hstop⟩ := Bool.and_eq_true_iff.1 hall
  obtain ⟨r₂, h₂, hrun⟩ := (Option.any_eq_true _ _).1 hstop
  obtain ⟨r₃, h₃, hends⟩ := (Option.any_eq_true _ _).1 hrun
  have hreach : (machine 3 entry).ReachableIf (fun r a => ¬ LateStop 3 r a) r₃ := by
    refine .next (a := .running 7 0 2500000) (.next (a := .stopping 7 0 false 160000)
      ((Machine.ReachableIf.of_init init_registered).leads (Machine.leads_of_exec ?_ h₁)) ?_ h₂)
      (fun hlate => hlate.1) h₃
    · simp only [List.mem_cons, List.not_mem_nil, or_false]
      rintro a (rfl | rfl) r hlate <;> exact hlate.1
    · -- the first stop is before the boundary
      rintro ⟨-, c, hc, -, hle⟩
      rw [hc] at hboundary
      have : c.replenishAtNs = 1000000 := Option.some_inj.1 (of_decide_eq_true hboundary)
      rw [this] at hle
      exact absurd hle (by decide)
  obtain ⟨first, last, hfirst, hlast, -, honce⟩ :=
    (restored_once 3 entry (by decide) (by decide)).2 r₃ hreach
  rw [hfirst, hlast] at hends
  obtain ⟨hf, hl⟩ := of_decide_eq_true hends
  have hf : first.replenishAtNs = 1000000 := Option.some_inj.1 hf
  have hl : last.replenishAtNs = 3000000 := Option.some_inj.1 hl
  rw [hf, hl] at honce
  exact ⟨r₃, hreach, (honce 1000000 (by decide) (by decide)).1,
    (honce 2000000 (by decide) (by decide)).1, (honce 1000000 (by decide) (by decide)).2⟩

/-- The task starts 40 µs before its boundary and stops 65 µs after it: the stop moves the boundary
on and leaves no budget. -/
theorem replenishment_lost :
    ∃ r c r' c', (machine 3 entry).Reachable r ∧ r.bpf.cbsMap.lookup 3 = some c ∧
      (machine 3 entry).next r (.stopping 7 0 true 1065000) = some r' ∧
      r'.bpf.cbsMap.lookup 3 = some c' ∧ c.replenishAtNs = 1000000 ∧
      c'.replenishAtNs = 2000000 ∧ c'.remainingUs = 0 := by
  have heval : ((machine 3 entry).exec registered [.enqueue 7 100, .running 7 0 960000]).any
      (fun r => (r.bpf.cbsMap.lookup 3).any fun c => c.replenishAtNs = 1000000 &&
        ((machine 3 entry).next r (.stopping 7 0 true 1065000)).any fun r' =>
          (r'.bpf.cbsMap.lookup 3).any fun c' => decide
            (c'.replenishAtNs = 2000000 ∧ c'.remainingUs = 0)) = true := by
    decide +kernel
  obtain ⟨r, hr, hserver⟩ := (Option.any_eq_true _ _).1 heval
  obtain ⟨c, hc, hnext⟩ := (Option.any_eq_true _ _).1 hserver
  obtain ⟨hboundary, hnext⟩ := Bool.and_eq_true_iff.1 hnext
  obtain ⟨r', hr', hserver'⟩ := (Option.any_eq_true _ _).1 hnext
  obtain ⟨c', hc', hlost⟩ := (Option.any_eq_true _ _).1 hserver'
  exact ⟨r, c, r', c', Machine.reachable_of_exec init_registered hr, hc, hr', hc',
    of_decide_eq_true hboundary, of_decide_eq_true hlost⟩

end CbsRun

end Timpani
