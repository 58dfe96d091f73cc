import Mathlib.Data.Nat.Notation
import Mathlib.Logic.ExistsUnique
import Mathlib.Tactic.Ring

/-!
# Replaying a timeline

A job of period `T` with one occurrence in each of the first `q` periods of a timeline, and the
timeline repeated for ever every `R` periods.  When does every period contain exactly one
occurrence?

An occurrence of length `w` in the window `[n * T, n * T + D]` with `D ≤ T` lies in no other window,
unless it is a single point and windows touch (`w = 0` and `D = T`).  So, apart from that case, the
replay is right iff the timeline repeats after exactly the `q` periods it was made for
(`Grid.existsUnique_iff`).  Whatever the occurrences are and whenever the timeline repeats, finitely
many windows decide the question (`Grid.existsUnique_of_lt`).
-/

namespace Timpani

/-- The occurrences `j` (those with `mem j`) of a job of period `T`, deadline `D` and length `w`:
`slot j` is the period `j` is for, and `start j` is when it starts. -/
structure Grid {ι : Type} (T D w q : ℕ) (mem : ι → Prop) (slot start : ι → ℕ) : Prop where
  period_pos : 0 < T
  deadline_le : D ≤ T
  slot_lt : ∀ j, mem j → slot j < q
  exists_slot : ∀ k < q, ∃ j, mem j ∧ slot j = k
  slot_inj : ∀ i j, mem i → mem j → slot i = slot j → i = j
  start_ge : ∀ j, mem j → slot j * T ≤ start j
  end_le : ∀ j, mem j → start j + w ≤ slot j * T + D

namespace Grid

variable {ι : Type} {T D w q R H n : ℕ} {mem : ι → Prop} {slot start : ι → ℕ}

variable (T D w H mem start) in
/-- The `i.2`-th replay of occurrence `i.1` starts and ends in the window `[n * T, n * T + D]`, where
the timeline is repeated every `H`. -/
def InWindow (n : ℕ) (i : ι × ℕ) : Prop :=
  mem i.1 ∧ n * T ≤ start i.1 + i.2 * H ∧ start i.1 + i.2 * H + w ≤ n * T + D

theorem inWindow_self (h : Grid T D w q mem slot start) {j : ι} (hj : mem j) (m : ℕ) :
    InWindow T D w (R * T) mem start (slot j + m * R) (j, m) := by
  have hlo := h.start_ge j hj
  have hhi := h.end_le j hj
  have hmul : (slot j + m * R) * T = slot j * T + m * (R * T) := by ring
  refine ⟨hj, ?_, ?_⟩ <;> rw [hmul] <;> dsimp only <;> omega

theorem eq_of_inWindow (h : Grid T D w q mem slot start) (hw : ¬ (w = 0 ∧ D = T)) {i : ι × ℕ}
    (hi : InWindow T D w (R * T) mem start n i) : n = slot i.1 + i.2 * R := by
  obtain ⟨hj, hge, hle⟩ := hi
  have hlo := h.start_ge _ hj
  have hhi := h.end_le _ hj
  have hD := h.deadline_le
  have hmul : (slot i.1 + i.2 * R) * T = slot i.1 * T + i.2 * (R * T) := by ring
  rcases lt_trichotomy n (slot i.1 + i.2 * R) with hlt | heq | hgt
  · have : (n + 1) * T ≤ (slot i.1 + i.2 * R) * T := Nat.mul_le_mul_right T hlt
    rw [hmul, Nat.succ_mul] at this
    omega
  · exact heq
  · have : (slot i.1 + i.2 * R + 1) * T ≤ n * T := Nat.mul_le_mul_right T hgt
    rw [Nat.succ_mul, hmul] at this
    omega

theorem existsUnique_of_eq (h : Grid T D w q mem slot start) (hw : ¬ (w = 0 ∧ D = T))
    (hq : 0 < q) (n : ℕ) : ∃! i, InWindow T D w (q * T) mem start n i := by
  obtain ⟨j, hj, hk⟩ := h.exists_slot (n % q) (Nat.mod_lt n hq)
  have hn : n = slot j + n / q * q := by rw [hk, Nat.mod_add_div']
  have hwin := h.inWindow_self (R := q) hj (n / q)
  rw [← hn] at hwin
  refine ⟨(j, n / q), hwin, ?_⟩
  rintro ⟨j', m'⟩ hi
  have hn' : n = slot j' + m' * q := h.eq_of_inWindow hw hi
  have hlt := h.slot_lt j' hi.1
  have hslot : slot j' = n % q := by
    rw [hn', Nat.add_mul_mod_self_right, Nat.mod_eq_of_lt hlt]
  have hm : m' = n / q := by
    rw [hn', Nat.add_mul_div_right _ _ hq, Nat.div_eq_of_lt hlt, Nat.zero_add]
  rw [hm, h.slot_inj j' j hi.1 hj (hslot.trans hk.symm)]

/-- A timeline that is repeated later than its length misses the first period after its end. -/
theorem not_inWindow_of_lt (h : Grid T D w q mem slot start) (hw : ¬ (w = 0 ∧ D = T))
    (hlt : q < R) (i : ι × ℕ) : ¬ InWindow T D w (R * T) mem start q i := by
  intro hi
  have hn := h.eq_of_inWindow hw hi
  have hk := h.slot_lt _ hi.1
  cases hm : i.2 with
  | zero => rw [hm] at hn; omega
  | succ m =>
    rw [hm, Nat.succ_mul] at hn
    omega

section Points

/-! ### Occurrences that are points -/

variable (h : Grid T T 0 q mem slot start) (hfirst : ∀ j, mem j → slot j = 0 → start j = 0)
  (hlast : ∀ j, mem j → start j < (slot j + 1) * T)

include h hfirst in
theorem not_existsUnique_points (hq : 0 < q) :
    ¬ ∃! i, InWindow T T 0 (q * T) mem start (q - 1) i := by
  rintro ⟨i, -, huniq⟩
  obtain ⟨j, hj, hk⟩ := h.exists_slot (q - 1) (by omega)
  obtain ⟨j₀, hj₀, hk₀⟩ := h.exists_slot 0 hq
  have h₁ : InWindow T T 0 (q * T) mem start (q - 1) (j, 0) := by
    have := h.inWindow_self (R := q) hj 0
    rwa [hk, Nat.zero_mul, Nat.add_zero] at this
  have h₂ : InWindow T T 0 (q * T) mem start (q - 1) (j₀, 1) := by
    have hT : q * T = (q - 1) * T + T := by
      rw [← Nat.succ_mul, Nat.succ_eq_add_one, Nat.sub_add_cancel hq]
    refine ⟨hj₀, ?_, ?_⟩ <;> dsimp only <;> rw [hfirst j₀ hj₀ hk₀, Nat.one_mul, hT] <;> omega
  have := (huniq _ h₁).trans (huniq _ h₂).symm
  simp at this

include h hlast in
theorem not_inWindow_points (hR : q + 2 ≤ R) (i : ι × ℕ) :
    ¬ InWindow T T 0 (R * T) mem start q i := by
  rintro ⟨hj, hge, hle⟩
  have hk := h.slot_lt _ hj
  have hT := h.period_pos
  cases hm : i.2 with
  | zero =>
    have hmul : (slot i.1 + 1) * T ≤ q * T := Nat.mul_le_mul_right T hk
    have := hlast _ hj
    rw [hm] at hge
    omega
  | succ m =>
    have hmul : (q + 2) * T ≤ R * T := Nat.mul_le_mul_right T hR
    rw [hm, Nat.succ_mul] at hle
    have : (q + 2) * T = q * T + 2 * T := by ring
    omega

include h hfirst in
theorem existsUnique_points (hq : q = 1) (n : ℕ) :
    ∃! i, InWindow T T 0 (2 * T) mem start n i := by
  have hT := h.period_pos
  obtain ⟨j, hj, hk⟩ := h.exists_slot 0 (by omega)
  have hzero : ∀ j', mem j' → start j' = 0 ∧ j' = j := by
    intro j' hj'
    have h0 : slot j' = 0 := by have := h.slot_lt j' hj'; omega
    exact ⟨hfirst j' hj' h0, h.slot_inj j' j hj' hj (h0.trans hk.symm)⟩
  have hwin : ∀ m, n * T ≤ m * (2 * T) ∧ m * (2 * T) ≤ n * T + T ↔ n ≤ 2 * m ∧ 2 * m ≤ n + 1 := by
    intro m
    have h₁ : m * (2 * T) = 2 * m * T := by ring
    have h₂ : n * T + T = (n + 1) * T := by ring
    rw [h₁, h₂, Nat.mul_le_mul_right_iff hT, Nat.mul_le_mul_right_iff hT]
  refine ⟨(j, (n + 1) / 2), ⟨hj, ?_⟩, ?_⟩
  · dsimp only
    rw [(hzero j hj).1, Nat.zero_add]
    exact (hwin _).2 (by omega)
  · rintro ⟨j', m⟩ ⟨hj', hm⟩
    dsimp only at hj' hm
    rw [(hzero j' hj').1, Nat.zero_add] at hm
    have := (hwin m).1 hm
    rw [(hzero j' hj').2, show m = (n + 1) / 2 by omega]

end Points

/-- **When a replay is right.**  For `R` a multiple of `q`: every window contains exactly one
occurrence iff the timeline is repeated after its own length.  If occurrences are points and
windows touch, it is instead the case of one point repeated every second period. -/
theorem existsUnique_iff (h : Grid T D w q mem slot start) (hq : 0 < q) (hR : 0 < R) (hdvd : q ∣ R)
    (hfirst : w = 0 → D = T → ∀ j, mem j → slot j = 0 → start j = 0)
    (hlast : w = 0 → D = T → ∀ j, mem j → start j < (slot j + 1) * T) :
    (∀ n, ∃! i, InWindow T D w (R * T) mem start n i) ↔
      if w = 0 ∧ D = T then q = 1 ∧ R = 2 else q = R := by
  have hle := Nat.le_of_dvd hR hdvd
  split_ifs with hw
  · obtain ⟨rfl, rfl⟩ := hw
    constructor
    · intro hall
      by_cases heq : q = R
      · subst heq
        exact absurd (hall _) (h.not_existsUnique_points (hfirst rfl rfl) hq)
      · have hlt : R < q + 2 := by
          by_contra hge
          obtain ⟨i, hi, -⟩ := hall q
          exact h.not_inWindow_points (hlast rfl rfl) (by omega) i hi
        obtain rfl : R = q + 1 := by omega
        have : q ∣ 1 := (Nat.dvd_add_right (dvd_refl q)).1 hdvd
        rw [Nat.dvd_one] at this
        omega
    · rintro ⟨hq1, rfl⟩ n
      exact h.existsUnique_points (hfirst rfl rfl) hq1 n
  · constructor
    · intro hall
      by_contra hne
      obtain ⟨i, hi, -⟩ := hall q
      exact h.not_inWindow_of_lt hw (by omega) i hi
    · rintro rfl n
      exact h.existsUnique_of_eq hw hq n

theorem inWindow_add (hstart : ∀ j, mem j → start j ≤ n * T) (hH : 0 < H) (i : ι × ℕ) :
    InWindow T D w H mem start (n + H) i ↔
      T ≤ i.2 ∧ InWindow T D w H mem start n (i.1, i.2 - T) := by
  have hmul : (n + H) * T = n * T + T * H := by ring
  unfold InWindow
  rw [hmul]
  dsimp only
  constructor
  · rintro ⟨hj, hge, hle⟩
    have hT : T ≤ i.2 := by
      have := hstart i.1 hj
      exact Nat.le_of_mul_le_mul_right (by omega : T * H ≤ i.2 * H) hH
    obtain ⟨m, hm⟩ := Nat.exists_eq_add_of_le hT
    rw [hm, Nat.add_mul] at hge hle
    rw [hm, Nat.add_sub_cancel_left]
    exact ⟨Nat.le_add_right T m, hj, by omega, by omega⟩
  · rintro ⟨hT, hj, hge, hle⟩
    obtain ⟨m, hm⟩ := Nat.exists_eq_add_of_le hT
    rw [hm, Nat.add_sub_cancel_left] at hge hle
    rw [hm, Nat.add_mul]
    exact ⟨hj, by omega, by omega⟩

/-- **A replay that goes right long enough** goes right for ever: until every occurrence has started,
and for `H` periods more. -/
theorem existsUnique_of_lt {bound : ℕ} (hstart : ∀ j, mem j → start j ≤ bound * T) (hH : 0 < H)
    (h : ∀ n < bound + H, ∃! i, InWindow T D w H mem start n i) (n : ℕ) :
    ∃! i, InWindow T D w H mem start n i := by
  induction n using Nat.strong_induction_on with
  | _ n ih =>
    by_cases hn : n < bound + H
    · exact h n hn
    obtain ⟨k, rfl⟩ : ∃ k, n = k + H := ⟨n - H, by omega⟩
    have hshift := fun i => inWindow_add (D := D) (w := w) (i := i)
      (fun j hj => (hstart j hj).trans (Nat.mul_le_mul_right T (by omega : bound ≤ k))) hH
    obtain ⟨⟨j, m⟩, hi, huniq⟩ := ih k (by omega)
    refine ⟨(j, m + T), (hshift _).2 ⟨Nat.le_add_left T m, by rwa [Nat.add_sub_cancel]⟩, ?_⟩
    rintro ⟨j', m'⟩ hi'
    obtain ⟨hT, hi'⟩ := (hshift _).1 hi'
    obtain ⟨rfl, heq⟩ := Prod.mk.inj (huniq _ hi')
    dsimp only at heq hT
    rw [← heq, Nat.sub_add_cancel hT]

end Grid

end Timpani
