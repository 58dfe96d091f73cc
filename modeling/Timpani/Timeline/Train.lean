import Mathlib.Data.Nat.Notation
import Mathlib.Algebra.Order.Ring.Nat
import Mathlib.Tactic.Ring

/-!
# Trains of intervals

A *train* is an interval repeated with a period that contains it, over a timeline `[0, H)`.  On a
timeline occupied by trains whose periods divide `T`, every frame `[m * T, (m + 1) * T)` looks the
same, so first fit gives the same answer in every frame.

* `Train.blocks_add_mul_iff` : what is blocked does not depend on the frame;
* `FirstFit.eq_add_mul` : **first fit is periodic**.
-/

namespace Timpani

/-- A stretch of length `d` from `x` on meets the interval of length `l` from `a` on. -/
def Meets (x d a l : ℕ) : Prop := x < a + l ∧ a < x + d

/-- `c` is the first position from `start` on that is not blocked. -/
structure FirstFit (blocked : ℕ → Prop) (start c : ℕ) : Prop where
  start_le : start ≤ c
  free : ¬ blocked c
  first : ∀ x, start ≤ x → x < c → blocked x

/-- An interval that is repeated with a period. -/
structure Train where
  offset : ℕ
  period : ℕ
  length : ℕ
  period_pos : 0 < period
  fits : offset + length ≤ period

namespace Train

variable {H T d m x : ℕ}

/-- A stretch of length `d` from `x` on meets one of the intervals on the timeline `[0, H)`. -/
def Blocks (t : Train) (H x d : ℕ) : Prop :=
  ∃ k < H / t.period, Meets x d (t.offset + k * t.period) t.length

/-- **Frames look alike**: a train whose period divides `T` blocks the same positions of every
frame. -/
theorem blocks_add_mul_iff (t : Train) (hdvd : t.period ∣ T) (hTH : T ∣ H) (hm : m < H / T)
    (hfit : x + d ≤ T) : t.Blocks H (x + m * T) d ↔ t.Blocks H x d := by
  obtain ⟨q, rfl⟩ := hdvd
  obtain ⟨n, rfl⟩ := hTH
  have hpos := t.period_pos
  have hcount : t.period * q * n / t.period = q * n := by
    rw [mul_assoc, Nat.mul_div_cancel_left _ hpos]
  have hle : t.offset + t.length ≤ t.period := t.fits
  have hmn : (m + 1) * q ≤ q * n := by
    have hn : t.period * q * n / (t.period * q) ≤ n := Nat.div_le_of_le_mul (le_refl _)
    rw [mul_comm q n]
    exact Nat.mul_le_mul_right q (hm.trans_le hn)
  unfold Blocks
  rw [hcount]
  constructor
  · rintro ⟨k, hk, hlt, hgt⟩
    -- the interval starts in frame `m` or behind it
    have hge : m * q ≤ k := by
      by_contra hlt'
      have hmul : (k + 1) * t.period ≤ m * q * t.period := Nat.mul_le_mul_right _ (not_le.1 hlt')
      have heq : m * (t.period * q) = m * q * t.period := by ring
      rw [Nat.succ_mul] at hmul
      omega
    have hshift : k * t.period = (k - m * q) * t.period + m * (t.period * q) := by
      have hk : k = k - m * q + m * q := (Nat.sub_add_cancel hge).symm
      calc k * t.period = (k - m * q + m * q) * t.period := by rw [← hk]
        _ = (k - m * q) * t.period + m * (t.period * q) := by ring
    exact ⟨k - m * q, by omega, by omega, by omega⟩
  · rintro ⟨k, hk, hlt, hgt⟩
    -- the interval starts in frame `0`
    have hkq : k < q := by
      by_contra hge
      have hmul : q * t.period ≤ k * t.period := Nat.mul_le_mul_right _ (not_lt.1 hge)
      rw [mul_comm q] at hmul
      omega
    have hshift : (k + m * q) * t.period = k * t.period + m * (t.period * q) := by ring
    refine ⟨k + m * q, ?_, by omega, by omega⟩
    rw [Nat.succ_mul] at hmn
    omega

end Train

/-- Some train blocks the position. -/
def Blocked (ts : List Train) (H d x : ℕ) : Prop := ∃ t ∈ ts, t.Blocks H x d

section FirstFit

variable {ts : List Train} {H T d m x c o : ℕ}

theorem blocked_add_mul_iff (hdvd : ∀ t ∈ ts, t.period ∣ T) (hTH : T ∣ H) (hm : m < H / T)
    (hfit : x + d ≤ T) : Blocked ts H d (x + m * T) ↔ Blocked ts H d x := by
  unfold Blocked
  constructor
  · rintro ⟨t, ht, hblock⟩
    exact ⟨t, ht, (t.blocks_add_mul_iff (hdvd t ht) hTH hm hfit).1 hblock⟩
  · rintro ⟨t, ht, hblock⟩
    exact ⟨t, ht, (t.blocks_add_mul_iff (hdvd t ht) hTH hm hfit).2 hblock⟩

/-- **First fit is periodic**: where it finds room in frame `m` it has found it in frame `0`. -/
theorem FirstFit.eq_add_mul (hdvd : ∀ t ∈ ts, t.period ∣ T) (hTH : T ∣ H) (hm : m < H / T)
    (h₀ : FirstFit (Blocked ts H d) 0 o) (hfit₀ : o + d ≤ T)
    (h : FirstFit (Blocked ts H d) (m * T) c) (hfit : c + d ≤ (m + 1) * T) : c = o + m * T := by
  obtain ⟨o', rfl⟩ : ∃ o', c = o' + m * T := ⟨c - m * T, by have := h.start_le; omega⟩
  rw [Nat.succ_mul] at hfit
  -- the position found in one frame is free in the other one
  have hfree : ¬ Blocked ts H d o' :=
    (blocked_add_mul_iff hdvd hTH hm (by omega)).not.1 h.free
  have hfree₀ : ¬ Blocked ts H d (o + m * T) :=
    (blocked_add_mul_iff hdvd hTH hm hfit₀).not.2 h₀.free
  have hle : o ≤ o' := by
    by_contra hlt
    exact hfree (h₀.first o' (Nat.zero_le _) (not_le.1 hlt))
  have hge : o' + m * T ≤ o + m * T := by
    by_contra hlt
    exact hfree₀ (h.first (o + m * T) (Nat.le_add_left _ _) (not_le.1 hlt))
  omega

end FirstFit

end Timpani
