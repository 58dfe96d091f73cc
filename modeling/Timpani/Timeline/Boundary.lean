import Mathlib.Data.Nat.ModEq
import Mathlib.Order.Bounds.Basic

/-!
# The next boundary of a period

The boundaries of a period `P` are `r`, `r + P`, `r + 2 * P`, and so on.  Whoever finds the boundary
`r` in the past moves it on by whole periods, to the first one that is still ahead.

* `isLeast_nextBoundary` : **the new boundary is the least one ahead**, which determines it;
* `nextBoundary_nextBoundary` : moving on at two times, in any order, is moving on at the later one.
-/

namespace Timpani

/-- The boundary as it stands after a look at it at the time `t`. -/
def nextBoundary (r P t : ℕ) : ℕ :=
  if t < r then r else r + ((t - r) / P + 1) * P

variable {r P s t : ℕ}

theorem nextBoundary_of_lt (h : t < r) : nextBoundary r P t = r := if_pos h

theorem nextBoundary_of_le (h : r ≤ t) :
    nextBoundary r P t = r + ((t - r) / P + 1) * P :=
  if_neg (Nat.not_lt.2 h)

theorem exists_nextBoundary_eq : ∃ k, nextBoundary r P t = r + k * P := by
  by_cases h : t < r
  · exact ⟨0, by rw [nextBoundary_of_lt h, Nat.zero_mul, Nat.add_zero]⟩
  · exact ⟨_, nextBoundary_of_le (Nat.not_lt.1 h)⟩

theorem nextBoundary_modEq : nextBoundary r P t ≡ r [MOD P] := by
  obtain ⟨k, hk⟩ := exists_nextBoundary_eq (r := r) (P := P) (t := t)
  rw [hk, Nat.ModEq, Nat.add_mul_mod_self_right]

theorem lt_nextBoundary (hP : 0 < P) : t < nextBoundary r P t := by
  by_cases h : t < r
  · rwa [nextBoundary_of_lt h]
  · rw [nextBoundary_of_le (Nat.not_lt.1 h), Nat.add_mul, Nat.one_mul]
    have hlt := Nat.lt_div_mul_add (a := t - r) hP
    omega

theorem nextBoundary_le (h : r ≤ t) : nextBoundary r P t ≤ t + P := by
  rw [nextBoundary_of_le h, Nat.add_mul, Nat.one_mul]
  have hle := Nat.div_mul_le_self (t - r) P
  omega

theorem isLeast_nextBoundary (hP : 0 < P) :
    IsLeast {x | t < x ∧ ∃ k, x = r + k * P} (nextBoundary r P t) := by
  refine ⟨⟨lt_nextBoundary hP, exists_nextBoundary_eq⟩, ?_⟩
  rintro x ⟨hx, k, rfl⟩
  by_cases h : t < r
  · rw [nextBoundary_of_lt h]
    exact Nat.le_add_right _ _
  · rw [nextBoundary_of_le (Nat.not_lt.1 h)]
    have hk : (t - r) / P < k := by
      rw [Nat.div_lt_iff_lt_mul hP]
      omega
    exact Nat.add_le_add_left (Nat.mul_le_mul_right P hk) r

/-- **Two looks are one look at the later time.** -/
theorem nextBoundary_nextBoundary (hP : 0 < P) :
    nextBoundary (nextBoundary r P s) P t = nextBoundary r P (max s t) := by
  obtain ⟨⟨hs, m, hm⟩, hleast⟩ := isLeast_nextBoundary (r := r) (t := s) hP
  obtain ⟨⟨ht, k, hk⟩, hleast'⟩ :=
    isLeast_nextBoundary (r := nextBoundary r P s) (t := t) hP
  refine IsLeast.unique (s := {x | max s t < x ∧ ∃ k, x = r + k * P}) ⟨⟨?_, m + k, ?_⟩, ?_⟩
    (isLeast_nextBoundary hP)
  · refine max_lt (lt_of_lt_of_le hs ?_) ht
    rw [hk]
    exact Nat.le_add_right _ _
  · rw [hk, hm, Nat.add_mul, Nat.add_assoc]
  · -- a boundary ahead of both times is one of the boundaries counted from the first new one
    rintro x ⟨hx, j, rfl⟩
    have hfirst : nextBoundary r P s ≤ r + j * P := hleast ⟨(le_max_left s t).trans_lt hx, j, rfl⟩
    have hmj : m ≤ j := by
      rw [hm] at hfirst
      exact Nat.le_of_mul_le_mul_right (Nat.le_of_add_le_add_left hfirst) hP
    refine hleast' ⟨(le_max_right s t).trans_lt hx, j - m, ?_⟩
    rw [hm, Nat.add_assoc, ← Nat.add_mul, Nat.add_sub_cancel' hmj]

end Timpani
