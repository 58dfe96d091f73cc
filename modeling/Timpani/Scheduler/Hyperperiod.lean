import Timpani.Cpp.Sort
import Timpani.Scheduler.Types
import Mathlib.Algebra.GCDMonoid.Multiset
import Mathlib.Algebra.GCDMonoid.Nat
import Mathlib.Data.List.Pairwise

/-!
# Hyperperiods

The 64-bit arithmetic behind the hyperperiod of a schedule (`GlobalScheduler::gcd`, `lcm`,
`calculate_hyperperiod`, `validate_harmonic`), and its meaning over the unbounded integers:

* `calculateHyperperiod_toNat` : as long as the least common multiple of the periods fits into
  64 bits, the computed value is that least common multiple;
* `dvd_or_dvd_of_validateHarmonic` : accepted periods form a divisibility chain;
* `calculateHyperperiod_of_validateHarmonic` : the least common multiple of such a chain is one of
  its members, so it never leaves the range of the periods and is computed exactly;
* `validateHarmonic_hyperperiod` : the accepted lists are the divisibility chains of any order, and
  their hyperperiod is the maximum.
-/

namespace Timpani

namespace GlobalScheduler

/-- Euclid's loop. -/
def gcd (a b : UInt64) : UInt64 :=
  if b = 0 then a else gcd b (a % b)
termination_by b.toNat
decreasing_by
  rename_i hb
  have hb' : b.toNat ≠ 0 := fun h => hb (UInt64.toNat_inj.1 h)
  rw [UInt64.toNat_mod]
  exact Nat.mod_lt _ (Nat.pos_of_ne_zero hb')

def lcm (a b : UInt64) : UInt64 :=
  if a = 0 || b = 0 then 0 else a / gcd a b * b

/-- The hyperperiod of a list of periods; a value beyond one hour is only logged. -/
def calculateHyperperiod : List UInt64 → UInt64
  | [] => 0
  | p :: ps => ps.foldl lcm p

/-- No product that `lcm` computes in the loop of `calculateHyperperiod` leaves 64 bits. -/
def NoWrap : List UInt64 → Prop
  | [] => True
  | p :: ps => go p ps
where
  go : UInt64 → List UInt64 → Prop
    | _, [] => True
    | result, p :: ps => (result / gcd result p).toNat * p.toNat < 2 ^ 64 ∧ go (lcm result p) ps

/-- Every two periods are multiples of one another.  The `std::set` removes duplicates and
iterates in increasing order. -/
def validateHarmonic (periods : List UInt64) : Bool :=
  if periods.length ≤ 1 then true
  else decide ((stdSet periods).Pairwise fun a b => b % a = 0)

/-! ### Meaning over the natural numbers -/

theorem gcd_toNat (a b : UInt64) : (gcd a b).toNat = Nat.gcd a.toNat b.toNat := by
  fun_induction gcd a b with
  | case1 a => simp
  | case2 a b hb ih =>
    rw [ih, UInt64.toNat_mod, Nat.gcd_comm b.toNat, ← Nat.gcd_rec, Nat.gcd_comm]

theorem div_gcd_mul (a b : UInt64) :
    (a / gcd a b).toNat * b.toNat = Nat.lcm a.toNat b.toNat := by
  rw [UInt64.toNat_div, gcd_toNat, Nat.lcm_eq_mul_div,
    Nat.div_mul_right_comm (Nat.gcd_dvd_left _ _)]

theorem lcm_toNat {a b : UInt64} (ha : a ≠ 0) (hb : b ≠ 0)
    (h : Nat.lcm a.toNat b.toNat < 2 ^ 64) : (lcm a b).toNat = Nat.lcm a.toNat b.toNat := by
  rw [lcm, if_neg (by simp [ha, hb]), UInt64.toNat_mul, div_gcd_mul, Nat.mod_eq_of_lt h]

/-- Folding `lcm` over nonzero periods computes the least common multiple when it fits, and nothing
wraps on the way. -/
theorem foldl_lcm_toNat {ps : List UInt64} {a : UInt64} (ha : a ≠ 0) (hps : ∀ p ∈ ps, p ≠ 0)
    (h : Nat.lcm a.toNat (Multiset.lcm (ps.map UInt64.toNat : List ℕ)) < 2 ^ 64) :
    (ps.foldl lcm a).toNat = Nat.lcm a.toNat (Multiset.lcm (ps.map UInt64.toNat : List ℕ)) ∧
      NoWrap.go a ps := by
  induction ps generalizing a with
  | nil => simp [NoWrap.go]
  | cons p ps ih =>
    have hp : p ≠ 0 := hps p List.mem_cons_self
    simp only [List.map_cons, ← Multiset.cons_coe, Multiset.lcm_cons, lcm_eq_nat_lcm] at h ⊢
    rw [← Nat.lcm_assoc] at h ⊢
    have hpos : 0 < Nat.lcm (Nat.lcm a.toNat p.toNat)
        (Multiset.lcm (ps.map UInt64.toNat : List ℕ)) := by
      refine Nat.lcm_pos (Nat.lcm_pos ?_ ?_) (Nat.pos_of_ne_zero ?_)
      · exact Nat.pos_of_ne_zero fun h0 => ha (UInt64.toNat_inj.1 h0)
      · exact Nat.pos_of_ne_zero fun h0 => hp (UInt64.toNat_inj.1 h0)
      · rw [Ne, Multiset.lcm_eq_zero_iff]
        simp only [Multiset.mem_coe, List.mem_map, not_exists, not_and]
        exact fun q hq h0 => hps q (List.mem_cons_of_mem _ hq) (UInt64.toNat_inj.1 h0)
    have hlt : Nat.lcm a.toNat p.toNat < 2 ^ 64 :=
      lt_of_le_of_lt (Nat.le_of_dvd hpos (Nat.dvd_lcm_left _ _)) h
    have hstep := lcm_toNat ha hp hlt
    have hne : lcm a p ≠ 0 := by
      intro h0
      rw [h0] at hstep
      have := Nat.pos_of_dvd_of_pos (Nat.dvd_lcm_left _ _) hpos
      rw [← hstep] at this
      exact absurd this (by simp)
    obtain ⟨hfold, hwrap⟩ :=
      ih hne (fun q hq => hps q (List.mem_cons_of_mem _ hq)) (by rwa [hstep])
    exact ⟨by rw [List.foldl_cons, hfold, hstep], by rwa [div_gcd_mul], hwrap⟩

/-- **The computed hyperperiod is the least common multiple** when that fits into 64 bits. -/
theorem calculateHyperperiod_toNat {ps : List UInt64} (hne : ps ≠ []) (hps : ∀ p ∈ ps, p ≠ 0)
    (h : Multiset.lcm (ps.map UInt64.toNat : List ℕ) < 2 ^ 64) :
    (calculateHyperperiod ps).toNat = Multiset.lcm (ps.map UInt64.toNat : List ℕ) := by
  cases ps with
  | nil => exact absurd rfl hne
  | cons p ps =>
    simp only [List.map_cons, ← Multiset.cons_coe, Multiset.lcm_cons, lcm_eq_nat_lcm] at h ⊢
    exact (foldl_lcm_toNat (hps p List.mem_cons_self)
      (fun q hq => hps q (List.mem_cons_of_mem _ hq)) h).1

theorem noWrap_of_lcm_lt {ps : List UInt64} (hps : ∀ p ∈ ps, p ≠ 0)
    (h : Multiset.lcm (ps.map UInt64.toNat : List ℕ) < 2 ^ 64) : NoWrap ps := by
  cases ps with
  | nil => trivial
  | cons p ps =>
    simp only [List.map_cons, ← Multiset.cons_coe, Multiset.lcm_cons, lcm_eq_nat_lcm] at h
    exact (foldl_lcm_toNat (hps p List.mem_cons_self)
      (fun q hq => hps q (List.mem_cons_of_mem _ hq)) h).2

/-! ### Divisibility chains -/

theorem dvd_of_mod_eq_zero {a b : UInt64} (h : b % a = 0) : a.toNat ∣ b.toNat := by
  have := congrArg UInt64.toNat h
  rw [UInt64.toNat_mod] at this
  exact Nat.dvd_of_mod_eq_zero this

theorem dvd_or_dvd_of_validateHarmonic {periods : List UInt64}
    (h : validateHarmonic periods = true) {a b : UInt64} (ha : a ∈ periods) (hb : b ∈ periods) :
    a.toNat ∣ b.toNat ∨ b.toNat ∣ a.toNat := by
  unfold validateHarmonic at h
  split at h
  · rename_i hlen
    obtain ⟨x, rfl⟩ : ∃ x, periods = [x] := by
      rw [← List.length_eq_one_iff]
      have := List.length_pos_of_mem ha
      omega
    rw [List.mem_singleton.1 ha, List.mem_singleton.1 hb]
    exact Or.inl dvd_rfl
  · have hpw := of_decide_eq_true h
    have key := hpw.imp (S := fun a b => a.toNat ∣ b.toNat ∨ b.toNat ∣ a.toNat)
      fun h => Or.inl (dvd_of_mod_eq_zero h)
    have : Std.Symm fun a b : UInt64 => a.toNat ∣ b.toNat ∨ b.toNat ∣ a.toNat :=
      ⟨fun _ _ h => h.symm⟩
    have hrefl : ∀ x ∈ stdSet periods,
        x.toNat ∣ x.toNat ∨ x.toNat ∣ x.toNat := fun _ _ => Or.inl dvd_rfl
    exact key.forall_of_forall hrefl (mem_stdSet.2 ha) (mem_stdSet.2 hb)

theorem mod_eq_zero_of_lt {a b : UInt64} (ha : a ≠ 0) (hlt : a < b)
    (h : a.toNat ∣ b.toNat ∨ b.toNat ∣ a.toNat) : b % a = 0 := by
  have hdvd : a.toNat ∣ b.toNat := by
    refine h.resolve_right fun hba => ?_
    have hpos : 0 < a.toNat := Nat.pos_of_ne_zero fun h0 => ha (UInt64.toNat_inj.1 h0)
    exact absurd (Nat.le_of_dvd hpos hba) (Nat.not_le.2 (UInt64.lt_iff_toNat_lt.1 hlt))
  rw [← UInt64.toNat_inj, UInt64.toNat_mod]
  exact Nat.mod_eq_zero_of_dvd hdvd

theorem validateHarmonic_eq_true_iff {periods : List UInt64} (hps : ∀ p ∈ periods, p ≠ 0) :
    validateHarmonic periods = true ↔
      ∀ a ∈ periods, ∀ b ∈ periods, a.toNat ∣ b.toNat ∨ b.toNat ∣ a.toNat := by
  refine ⟨fun h a ha b hb => dvd_or_dvd_of_validateHarmonic h ha hb, fun h => ?_⟩
  unfold validateHarmonic
  split
  · rfl
  · -- in the set the smaller period comes first, so it is the divisor
    refine decide_eq_true ?_
    refine (pairwise_stdSet periods).imp_of_mem fun {a b} ha hb hlt => ?_
    rw [mem_stdSet] at ha hb
    exact mod_eq_zero_of_lt (hps a ha) (compareOfLessAndEq_eq_lt.1 hlt) (h a ha b hb)

theorem lcm_mem_of_chain {l : List ℕ} (hne : l ≠ []) (h : ∀ a ∈ l, ∀ b ∈ l, a ∣ b ∨ b ∣ a) :
    Multiset.lcm (l : Multiset ℕ) ∈ l := by
  induction l with
  | nil => exact absurd rfl hne
  | cons a l ih =>
    rw [← Multiset.cons_coe, Multiset.lcm_cons, lcm_eq_nat_lcm]
    by_cases hl : l = []
    · simp [hl]
    · have hm := ih hl fun x hx y hy =>
        h x (List.mem_cons_of_mem _ hx) y (List.mem_cons_of_mem _ hy)
      rcases h a List.mem_cons_self _ (List.mem_cons_of_mem _ hm) with hd | hd
      · rw [Nat.lcm_eq_right hd]
        exact List.mem_cons_of_mem _ hm
      · rw [Nat.lcm_eq_left hd]
        exact List.mem_cons_self

/-- **Accepted periods have an exact hyperperiod**, and it is the largest of them. -/
theorem calculateHyperperiod_of_validateHarmonic {ps : List UInt64} (hne : ps ≠ [])
    (hps : ∀ p ∈ ps, p ≠ 0) (h : validateHarmonic ps = true) :
    (calculateHyperperiod ps).toNat = Multiset.lcm (ps.map UInt64.toNat : List ℕ) ∧
      calculateHyperperiod ps ∈ ps := by
  have hmem : Multiset.lcm (ps.map UInt64.toNat : List ℕ) ∈ ps.map UInt64.toNat := by
    refine lcm_mem_of_chain (by simpa using hne) ?_
    simp only [List.forall_mem_map]
    exact fun a ha b hb => dvd_or_dvd_of_validateHarmonic h ha hb
  obtain ⟨p, hp, hlcm⟩ := List.mem_map.1 hmem
  have heq := calculateHyperperiod_toNat hne hps (hlcm ▸ p.toNat_lt)
  refine ⟨heq, ?_⟩
  rw [← hlcm, UInt64.toNat_inj] at heq
  exact heq ▸ hp

/-- **The harmonic check and the hyperperiod fit together.** The check accepts exactly the
divisibility chains, whatever the order and the number of occurrences of their members; for these
the hyperperiod is the largest period, and no product on the way to it wraps. -/
theorem validateHarmonic_hyperperiod (ps : List UInt64) (hps : ∀ p ∈ ps, 0 < p) :
    (validateHarmonic ps = true ↔
        ∀ a ∈ ps, ∀ b ∈ ps, a.toNat ∣ b.toNat ∨ b.toNat ∣ a.toNat) ∧
      (∀ qs : List UInt64, (∀ p, p ∈ qs ↔ p ∈ ps) →
        validateHarmonic qs = validateHarmonic ps) ∧
      (validateHarmonic ps = true → ps ≠ [] →
        calculateHyperperiod ps ∈ ps ∧ (∀ p ∈ ps, p ≤ calculateHyperperiod ps) ∧ NoWrap ps) := by
  have hne : ∀ p ∈ ps, p ≠ 0 := fun p hp => UInt64.pos_iff_ne_zero.1 (hps p hp)
  refine ⟨validateHarmonic_eq_true_iff hne, fun qs hqs => ?_, fun hacc hnonempty => ?_⟩
  · have hne' : ∀ q ∈ qs, q ≠ 0 := fun q hq => hne q ((hqs q).1 hq)
    rw [Bool.eq_iff_iff, validateHarmonic_eq_true_iff hne', validateHarmonic_eq_true_iff hne]
    simp only [hqs]
  · obtain ⟨hlcm, hmem⟩ := calculateHyperperiod_of_validateHarmonic hnonempty hne hacc
    have hpos := UInt64.lt_iff_toNat_lt.1 (hps _ hmem)
    refine ⟨hmem, fun p hp => UInt64.le_iff_toNat_le.2 (Nat.le_of_dvd hpos ?_), ?_⟩
    · rw [hlcm]
      exact Multiset.dvd_lcm (Multiset.mem_coe.2 (List.mem_map_of_mem hp))
    · exact noWrap_of_lcm_lt hne (hlcm ▸ UInt64.toNat_lt _)

theorem validateHarmonic_hyperperiod_of_four :
    validateHarmonic [20000, 5000, 10000, 5000] = true ∧
      calculateHyperperiod [20000, 5000, 10000, 5000] ∈ [20000, 5000, 10000, 5000] ∧
      NoWrap [20000, 5000, 10000, 5000] := by
  have h := validateHarmonic_hyperperiod [20000, 5000, 10000, 5000] (by simp)
  have hacc := h.1.2 (by simp)
  obtain ⟨hmem, -, hwrap⟩ := h.2.2 hacc (by simp)
  exact ⟨hacc, hmem, hwrap⟩

end GlobalScheduler

end Timpani
