import Timpani.Cpp.Float
import Mathlib

/-!
# Doubles

`Float` is the binary64 format of IEEE 754.  Only a NaN is not comparable, and a quotient of
unsigned numbers is a NaN for `0.0 / 0.0` alone, which the sources exclude by a test of the divisor.
Sums of such quotients are rounded, but never below one of them.

* `compare_eq_key` : everything but a NaN is ordered by sign, exponent and mantissa;
* `unpack_pack` : the numbers of the format are encoded as they are;
* `exists_round` : a number is rounded to one of the format, and not below any of them that it is
  not below itself;
* `nonneg_add` : a sum of numbers that are not negative is not below the last of them;
* `LawfulFloating Float`, `MonotoneFloating Float` : `double` orders utilisations as `std::sort`
  asks, and adding them up does not lead below one of them.
-/

namespace Timpani

namespace Double

open Float.Model UnpackedFloat

/-! ### Comparison -/

/-- Sign, exponent and mantissa, in the order of the numbers they stand for. -/
def key : UnpackedFloat → ℤ ×ₗ ℤ ×ₗ ℤ
  | .infinity .positive => toLex (2, toLex (0, 0))
  | .infinity .negative => toLex (-2, toLex (0, 0))
  | .finite .positive m e _ => toLex (1, toLex (e, m))
  | .finite .negative m e _ => toLex (-1, toLex (-e, -m))
  | _ => toLex (0, toLex (0, 0))

theorem compare_natCast (m m' : ℕ) : compare (m : ℤ) m' = compare m m' := by
  rw [← cmp_eq_compare, ← cmp_eq_compare]
  exact Nat.strictMono_cast.cmp_map_eq m m'

theorem compare_neg (a b : ℤ) : compare (-a) (-b) = compare b a := by
  rcases lt_trichotomy a b with h | rfl | h
  · rw [compare_gt_iff_gt.2 h, compare_gt_iff_gt.2 (Int.neg_lt_neg h)]
  · rw [compare_eq_iff_eq.2 rfl, compare_eq_iff_eq.2 rfl]
  · rw [compare_lt_iff_lt.2 h, compare_lt_iff_lt.2 (Int.neg_lt_neg h)]

/-- **Without NaN the comparison is that of a linear order.** -/
theorem compare_eq_key {a b : UnpackedFloat} (ha : a ≠ .notANumber) (hb : b ≠ .notANumber) :
    a.compare b = some (compare (key a) (key b)) := by
  rcases a with (_ | _) | _ | (_ | _) | ⟨_ | _, m, e, hm⟩ <;>
    rcases b with (_ | _) | _ | (_ | _) | ⟨_ | _, m', e', hm'⟩ <;>
    first
    | exact absurd rfl ha
    | exact absurd rfl hb
    | rfl
    | simp only [UnpackedFloat.compare, key, Prod.Lex.compare_def, compareLex, compareOn,
        ofLex_toLex, compare_natCast, compare_neg]
  · -- between negative numbers the order of the magnitudes is reversed
    rw [Ordering.swap_then, ← Std.OrientedCmp.eq_swap, ← Std.OrientedCmp.eq_swap]
    rfl
  · rfl

theorem lt_iff {x y : Float} (hx : x.toModel.unpack ≠ .notANumber)
    (hy : y.toModel.unpack ≠ .notANumber) :
    x < y ↔ key x.toModel.unpack < key y.toModel.unpack := by
  have hlt : x < y ↔ (x.toModel.unpack.compare y.toModel.unpack == some .lt) = true :=
    decide_eq_true_iff
  rw [hlt, compare_eq_key hx hy, ← compare_lt_iff_lt]
  simp

theorem le_iff_isLE {x y : Float} :
    x ≤ y ↔ (x.toModel.unpack.compare y.toModel.unpack).any Ordering.isLE = true :=
  decide_eq_true_iff

theorem le_iff {x y : Float} (hx : x.toModel.unpack ≠ .notANumber)
    (hy : y.toModel.unpack ≠ .notANumber) :
    x ≤ y ↔ key x.toModel.unpack ≤ key y.toModel.unpack := by
  rw [le_iff_isLE, compare_eq_key hx hy, ← compare_le_iff_le]
  cases compare (key x.toModel.unpack) (key y.toModel.unpack) <;> simp

theorem ne_notANumber_of_le {x y : Float} (h : x ≤ y) : y.toModel.unpack ≠ .notANumber := by
  intro hnan
  rw [le_iff_isLE, hnan] at h
  generalize x.toModel.unpack = a at h
  rcases a with (_ | _) | _ | (_ | _) | ⟨_ | _, m, e, hm⟩ <;> cases h

/-! ### Encoding -/

/-- The numbers of the format, by mantissa and exponent. -/
structure Canonical (m : ℕ) (e : ℤ) : Prop where
  lt : m < 2 ^ 53
  le : -1074 ≤ e
  eq : m < 2 ^ 52 → e = -1074

variable {m : ℕ} {e : ℤ} {s : Sign}

theorem toNat_one_append (m : BitVec 52) : (1#1 ++ m).toNat = 2 ^ 52 + m.toNat := by
  rw [BitVec.toNat_append, ← Nat.shiftLeft_add_eq_or_of_lt m.isLt]
  rfl

theorem canonical_unpack {f : Float.Model} {h : 0 < m} (hf : f.unpack = .finite s m e h) :
    Canonical m e ∧ e ≤ 971 := by
  change UnpackedFloat.unpack .binary64 f.toBits.toBitVec = _ at hf
  unfold UnpackedFloat.unpack at hf
  dsimp only at hf
  have hbias : ((Format.binary64.exponentBias : ℕ) : ℤ) + ((52 : ℕ) : ℤ) = 1075 := by decide
  have hexp : (@unpackExponent .binary64 f.toBits.toBitVec).toNat < 2 ^ 11 := BitVec.isLt _
  have hmantissa : (@unpackMantissa .binary64 f.toBits.toBitVec).toNat < 2 ^ 52 :=
    BitVec.isLt _
  split_ifs at hf with hinf _ hsub
  · -- subnormal numbers
    cases hf
    rw [hbias, hsub]
    exact ⟨⟨by omega, by decide, fun _ => by decide⟩, by decide⟩
  · cases hf
    rw [hbias, toNat_one_append]
    have hpos : (@unpackExponent .binary64 f.toBits.toBitVec).toNat ≠ 0 := fun h0 =>
      hsub (BitVec.eq_of_toNat_eq h0)
    have hmax : (@unpackExponent .binary64 f.toBits.toBitVec).toNat ≠ 2047 := fun h0 =>
      hinf (BitVec.eq_of_toNat_eq h0)
    exact ⟨⟨by omega, by omega, by omega⟩, by omega⟩

theorem unpack_packedInfinity (s : Sign) :
    UnpackedFloat.unpack .binary64 (packedInfinity .binary64 s) = .infinity s := by
  unfold UnpackedFloat.unpack packedInfinity
  simp only [unpackExponent_packComponents, unpackMantissa_packComponents,
    unpackSign_packComponents, Sign.ofBitVec_toBitVec]
  simp

theorem unpack_pack (hc : Canonical m e) (h : 0 < m) :
    (Float.Model.pack (.finite s m e h)).unpack =
      if e ≤ 971 then .finite s m e h else .infinity s := by
  change UnpackedFloat.unpack .binary64 (UnpackedFloat.pack .binary64 _) = _
  have hbias :
      (e + (Format.binary64.exponentBias : ℤ) + (52 : ℕ)).toNat = (e + 1075).toNat := by
    change (e + (1023 : ℕ) + (52 : ℕ)).toNat = _
    omega
  obtain ⟨hlt, hle, heq⟩ := hc
  unfold UnpackedFloat.pack
  dsimp only
  rw [hbias]
  by_cases hbig : e ≤ 971
  · have hexp : (BitVec.ofNat 11 (e + 1075).toNat).toNat = (e + 1075).toNat := by
      simp
      omega
    rw [if_pos hbig, if_neg (by change ¬ 2048 ≤ _; omega)]
    by_cases hnormal : 2 ^ 52 ≤ m
    · have hlog : m.log2 = 52 := (Nat.log2_eq_iff h.ne').2 ⟨hnormal, hlt⟩
      rw [hlog, if_pos (by decide)]
      unfold UnpackedFloat.unpack
      simp only [unpackExponent_packComponents, unpackMantissa_packComponents,
        unpackSign_packComponents, Sign.ofBitVec_toBitVec]
      rw [if_neg fun heq => ?_, if_neg fun heq => ?_]
      · have hm : (1#1 ++ BitVec.ofNat 52 m).toNat = m := by
          rw [toNat_one_append, BitVec.toNat_ofNat]
          omega
        have he : ((BitVec.ofNat 11 (e + 1075).toNat).toNat : ℤ) -
            ((Format.binary64.exponentBias : ℤ) + (52 : ℕ)) = e := by
          rw [hexp]
          change _ - ((1023 : ℕ) + (52 : ℕ) : ℤ) = e
          omega
        congr 1
      all_goals
        have := congrArg BitVec.toNat heq
        rw [hexp] at this
        simp at this
        omega
    · have hlog : m.log2 + 1 ≠ Format.binary64.mantissaBits := fun h53 =>
        hnormal ((Nat.log2_eq_iff h.ne').1 (Nat.succ.inj h53)).1
      obtain rfl := heq (Nat.lt_of_not_le hnormal)
      rw [if_neg hlog]
      unfold UnpackedFloat.unpack
      simp only [unpackExponent_packComponents, unpackMantissa_packComponents,
        unpackSign_packComponents, Sign.ofBitVec_toBitVec]
      have hm : (BitVec.ofNat 52 m).toNat = m := by
        rw [BitVec.toNat_ofNat]
        omega
      rw [if_neg (by decide), if_pos trivial, dif_neg fun h0 => ?_]
      · congr 1
      · have := congrArg BitVec.toNat h0
        rw [hm] at this
        exact h.ne' this
  · rw [if_neg hbig, if_pos (by change 2048 ≤ _; omega), unpack_packedInfinity]

/-! ### Rounding -/

theorem targetExponent_eq (m : ℕ) (e : ℤ) :
    Format.binary64.targetExponent (totalExponent m e) = max (m.log2 + e - 52) (-1074) := by
  change max ((m.log2 : ℤ) + 1 + e - (53 : ℕ)) (3 - 2 ^ 10 - (53 : ℕ)) = _
  omega

theorem mantissa_shiftRight (em : ExtendedMantissa) (n : ℕ) :
    (em >>> n).mantissa = em.mantissa / 2 ^ n := by
  induction n with
  | zero => exact (Nat.div_one _).symm
  | succ n ih =>
    change (em >>> n).mantissa / 2 = _
    rw [ih, Nat.div_div_eq_div_mul, Nat.pow_succ]

theorem roundedMantissa_bounds (em : ExtendedMantissa) :
    em.mantissa ≤ em.roundedMantissa ∧ em.roundedMantissa ≤ em.mantissa + 1 := by
  obtain ⟨m, _ | _, _ | _⟩ := em
  · exact ⟨Nat.le_refl m, Nat.le_succ m⟩
  · exact ⟨Nat.le_refl m, Nat.le_succ m⟩
  · change m ≤ m + m % 2 ∧ m + m % 2 ≤ m + 1
    omega
  · exact ⟨Nat.le_succ m, Nat.le_refl _⟩

theorem Canonical.shiftToTargetExponent_eq (hc : Canonical m e) (h : 0 < m) :
    shiftToTargetExponent .binary64 m e .exact = (⟨m, false, false⟩, e) := by
  have hlog : m.log2 < 53 := (Nat.log2_lt h.ne').2 hc.lt
  have hshift : (max (m.log2 + e - 52) (-1074) - e).toNat = 0 := by
    have := hc.le
    omega
  rw [shiftToTargetExponent, targetExponent_eq, shiftToExponent, hshift]
  exact Prod.ext rfl (add_zero e)

theorem roundWithAccuracy_eq {M r : ℕ} {E e' : ℤ} {em em' : ExtendedMantissa}
    (hfirst : shiftToTargetExponent .binary64 M E .exact = (em, e')) (hr : em.roundedMantissa = r)
    (hsecond : shiftToTargetExponent .binary64 r e' .exact = (em', e)) (h : 0 < em'.mantissa) :
    roundWithAccuracy .binary64 s M E .exact = .finite s em'.mantissa e h := by
  unfold roundWithAccuracy
  simp only [hfirst, hr, hsecond]
  exact dif_neg h.ne'

theorem Canonical.roundWithAccuracy_eq (hc : Canonical m e) (h : 0 < m) :
    roundWithAccuracy .binary64 s m e .exact = .finite s m e h :=
  have hshift := hc.shiftToTargetExponent_eq h
  Double.roundWithAccuracy_eq hshift rfl hshift h

/-- `m * 2 ^ e` is a number of the format, and not below any other that `M * 2 ^ E` is not below. -/
structure Rounds (M : ℕ) (E : ℤ) (m : ℕ) (e : ℤ) : Prop where
  canonical : Canonical m e
  exponent_le : e ≤ max (M.log2 + E - 52) (-1074) + 1
  mono : ∀ n k : ℕ, Canonical n (E + k) → n * 2 ^ k ≤ M → E + k < e ∨ E + k = e ∧ n ≤ m

section

variable {M : ℕ} {E : ℤ}

theorem roundWithAccuracy_of_large (hlog : 52 < M.log2) (hE : -1074 ≤ E) :
    ∃ m e h, roundWithAccuracy .binary64 s M E .exact = .finite s m e h ∧ Canonical m e ∧
      (e = E + (M.log2 - 52 : ℕ) ∧ M / 2 ^ (M.log2 - 52) ≤ m ∨
        e = E + (M.log2 - 52 : ℕ) + 1) := by
  have hM : M ≠ 0 := by rintro rfl; simp at hlog
  have htarget : max (M.log2 + E - 52) (-1074) = E + (M.log2 - 52 : ℕ) := by omega
  have hshift : (E + (M.log2 - 52 : ℕ) - E).toNat = M.log2 - 52 := by omega
  have hfirst : shiftToTargetExponent .binary64 M E .exact =
      ((⟨M, false, false⟩ : ExtendedMantissa) >>> (M.log2 - 52), E + (M.log2 - 52 : ℕ)) := by
    rw [shiftToTargetExponent, targetExponent_eq, htarget, shiftToExponent, hshift]
    rfl
  have hpow : 2 ^ 52 * 2 ^ (M.log2 - 52) = 2 ^ M.log2 := by
    rw [← Nat.pow_add]
    congr 1
    omega
  have hlow : 2 ^ 52 ≤ M / 2 ^ (M.log2 - 52) := by
    rw [Nat.le_div_iff_mul_le (Nat.two_pow_pos _), hpow]
    exact Nat.log2_self_le hM
  have hhigh : M / 2 ^ (M.log2 - 52) < 2 ^ 53 := by
    rw [Nat.div_lt_iff_lt_mul (Nat.two_pow_pos _), Nat.pow_succ, Nat.mul_right_comm, hpow,
      ← Nat.pow_succ]
    exact Nat.lt_log2_self
  obtain ⟨hr, hr'⟩ :=
    roundedMantissa_bounds ((⟨M, false, false⟩ : ExtendedMantissa) >>> (M.log2 - 52))
  rw [mantissa_shiftRight] at hr hr'
  dsimp only at hr hr'
  generalize hround :
    ((⟨M, false, false⟩ : ExtendedMantissa) >>> (M.log2 - 52)).roundedMantissa = r at hr hr'
  by_cases hover : r = 2 ^ 53
  · -- the mantissa has one bit too many now
    have hsecond : shiftToTargetExponent .binary64 (2 ^ 53) (E + (M.log2 - 52 : ℕ)) .exact =
        ((⟨2 ^ 53, false, false⟩ : ExtendedMantissa) >>> 1, E + (M.log2 - 52 : ℕ) + 1) := by
      have hshift : (max (((2 ^ 53 : ℕ).log2 : ℤ) + (E + (M.log2 - 52 : ℕ)) - 52) (-1074) -
          (E + (M.log2 - 52 : ℕ))).toNat = 1 := by
        rw [Nat.log2_two_pow]
        omega
      rw [shiftToTargetExponent, targetExponent_eq, shiftToExponent, hshift]
      rfl
    exact ⟨_, _, (by decide : 0 < 2 ^ 52),
      roundWithAccuracy_eq hfirst (hround.trans hover) hsecond (by decide),
      ⟨by decide, by omega, fun h => absurd h (by decide)⟩, Or.inr rfl⟩
  · have hc : Canonical r (E + (M.log2 - 52 : ℕ)) := ⟨by omega, by omega, by omega⟩
    have hpos : 0 < r := by omega
    exact ⟨r, _, hpos, roundWithAccuracy_eq hfirst hround (hc.shiftToTargetExponent_eq hpos) hpos,
      hc, Or.inl ⟨rfl, hr⟩⟩

theorem exists_round_of_large (hlog : 52 < M.log2) (hE : -1074 ≤ E) :
    ∃ m e h, UnpackedFloat.round .binary64 s M E = .finite s m e h ∧ Rounds M E m e := by
  have htarget : max (M.log2 + E - 52) (-1074) = E + (M.log2 - 52 : ℕ) := by omega
  have hshift : (E - (E + (M.log2 - 52 : ℕ))).toNat = 0 := by omega
  have hround :
      UnpackedFloat.round .binary64 s M E = roundWithAccuracy .binary64 s M E .exact := by
    rw [UnpackedFloat.round, targetExponent_eq, htarget, decreaseExponent, hshift]
    simp
  obtain ⟨m, e, h, heq, hc, hcases⟩ := roundWithAccuracy_of_large (s := s) hlog hE
  refine ⟨m, e, h, hround.trans heq, hc, by omega, fun n k hn hle => ?_⟩
  have hk : k ≤ M.log2 - 52 := by
    by_contra hlt
    have hn52 : 2 ^ 52 ≤ n := by
      by_contra hsmall
      have := hn.eq (Nat.lt_of_not_le hsmall)
      omega
    have hbig : 2 ^ (M.log2 + 1) ≤ M := calc
      2 ^ (M.log2 + 1) ≤ 2 ^ (52 + k) := Nat.pow_le_pow_right (by decide) (by omega)
      _ = 2 ^ 52 * 2 ^ k := Nat.pow_add ..
      _ ≤ n * 2 ^ k := Nat.mul_le_mul_right _ hn52
      _ ≤ M := hle
    exact absurd hbig (Nat.not_le.2 Nat.lt_log2_self)
  rcases hcases with ⟨he, hm⟩ | he
  · rcases Nat.lt_or_eq_of_le hk with hlt | heq
    · left
      omega
    · right
      refine ⟨by omega, le_trans ?_ hm⟩
      rw [← heq, Nat.le_div_iff_mul_le (Nat.two_pow_pos _)]
      exact hle
  · left
    omega

theorem exists_round_of_small (hM : 0 < M) (hlog : M.log2 ≤ 52) (hE : -1074 ≤ E) :
    ∃ m e h, UnpackedFloat.round .binary64 s M E = .finite s m e h ∧ Rounds M E m e := by
  obtain ⟨j, hj, htarget, hleast⟩ : ∃ j : ℕ, M.log2 + j ≤ 52 ∧
      max (M.log2 + E - 52) (-1074) = E - j ∧ (M.log2 + j = 52 ∨ E - j = -1074) :=
    ⟨(E - max (M.log2 + E - 52) (-1074)).toNat, by omega, by omega, by omega⟩
  have hround : UnpackedFloat.round .binary64 s M E =
      roundWithAccuracy .binary64 s (M <<< j) (E - j) .exact := by
    have hshift : (E - (E - j)).toNat = j := by omega
    rw [UnpackedFloat.round, targetExponent_eq, htarget, decreaseExponent, hshift]
  have hpos : 0 < M <<< j := by
    rw [Nat.shiftLeft_eq]
    exact Nat.mul_pos hM (Nat.two_pow_pos _)
  have hlt : M <<< j < 2 ^ (M.log2 + 1 + j) := by
    rw [Nat.shiftLeft_eq, Nat.pow_add]
    exact Nat.mul_lt_mul_of_pos_right Nat.lt_log2_self (Nat.two_pow_pos _)
  have hc : Canonical (M <<< j) (E - j) := by
    refine ⟨hlt.trans_le (Nat.pow_le_pow_right (by decide) (by omega)), by omega,
      fun hsmall => hleast.resolve_left fun h52 => absurd hsmall (Nat.not_lt.2 ?_)⟩
    rw [Nat.shiftLeft_eq, ← h52, Nat.pow_add]
    exact Nat.mul_le_mul_right _ (Nat.log2_self_le hM.ne')
  refine ⟨M <<< j, E - j, hpos, hround.trans (hc.roundWithAccuracy_eq hpos), hc, by omega,
    fun n k hn hle => ?_⟩
  have hzero : k = 0 ∧ j = 0 := by
    have hmin := hc.le
    rcases Nat.lt_or_ge n (2 ^ 52) with hsmall | hbig
    · have := hn.eq hsmall
      omega
    · have hM53 : M < 2 ^ 53 := (Nat.log2_lt hM.ne').1 (by omega)
      have hk : k = 0 := by
        by_contra hk
        have : 2 ^ 53 ≤ M := calc
          2 ^ 53 ≤ 2 ^ (52 + k) := Nat.pow_le_pow_right (by decide) (by omega)
          _ = 2 ^ 52 * 2 ^ k := Nat.pow_add ..
          _ ≤ n * 2 ^ k := Nat.mul_le_mul_right _ hbig
          _ ≤ M := hle
        omega
      subst hk
      have hlog' : 52 ≤ M.log2 := (Nat.le_log2 hM.ne').2 (by omega)
      omega
  obtain ⟨rfl, rfl⟩ := hzero
  exact Or.inr ⟨by simp, by simpa using hle⟩

theorem exists_round (hM : 0 < M) (hE : -1074 ≤ E) :
    ∃ m e h, UnpackedFloat.round .binary64 s M E = .finite s m e h ∧ Rounds M E m e :=
  (Nat.lt_or_ge 52 M.log2).elim (exists_round_of_large · hE) (exists_round_of_small hM · hE)

end

/-! ### Numbers that are not negative -/

/-- The number is zero, finite or infinite, with a positive sign. -/
def Nonneg (f : UnpackedFloat) : Prop :=
  f = .zero .positive ∨ f = .infinity .positive ∨ ∃ m e h, f = .finite .positive m e h

theorem Nonneg.ne_notANumber {f : UnpackedFloat} (h : Nonneg f) : f ≠ .notANumber := by
  rcases h with rfl | rfl | ⟨m, e, h, rfl⟩ <;> exact nofun

theorem nonneg_unpack_pack {f : UnpackedFloat} (hf : Nonneg f) :
    Nonneg (Float.Model.pack f).unpack := by
  have hcases : ∀ e m, e ≠ -1#11 ∨ m = 0#52 →
      Nonneg (UnpackedFloat.unpack .binary64 (packComponents .binary64 .positive e m)) := by
    intro e m h
    unfold UnpackedFloat.unpack
    simp only [unpackExponent_packComponents, unpackMantissa_packComponents,
      unpackSign_packComponents, Sign.ofBitVec_toBitVec]
    split_ifs with hinf hzero hsub
    · exact Or.inr (Or.inl rfl)
    · exact absurd h (by simp [hinf, hzero])
    · exact Or.inl rfl
    · exact Or.inr (Or.inr ⟨_, _, _, rfl⟩)
    · exact Or.inr (Or.inr ⟨_, _, _, rfl⟩)
  change Nonneg (UnpackedFloat.unpack .binary64 (UnpackedFloat.pack .binary64 f))
  rcases hf with rfl | rfl | ⟨m, e, hm, rfl⟩
  · exact hcases _ _ (Or.inr rfl)
  · exact hcases _ _ (Or.inr rfl)
  · unfold UnpackedFloat.pack
    dsimp only
    split_ifs with hbig
    · exact hcases _ _ (Or.inr rfl)
    · refine hcases _ _ (Or.inl fun heq => ?_)
      have := congrArg BitVec.toNat heq
      simp at this hbig
      omega
    · exact hcases _ _ (Or.inl (by decide))

theorem zero_add_unpacked {f : UnpackedFloat} (hf : Nonneg f) :
    UnpackedFloat.add .binary64 (.zero .positive) f = f := by
  rcases hf with rfl | rfl | ⟨m, e, h, rfl⟩ <;> rfl

theorem pack_unpack_eq (f : Float.Model) : Float.Model.pack f.unpack = f := by
  have hbits : (Float.Model.pack f.unpack).toBits = f.toBits :=
    UInt64.toBitVec_inj.1 (pack_unpack_of_valid f.valid)
  cases f
  exact (Float.Model.mk.injEq ..).mpr hbits

/-! ### Sums -/

variable {x y : Float}

theorem unpack_add (x y : Float) : (x + y).toModel.unpack =
    (Float.Model.pack (UnpackedFloat.add .binary64 x.toModel.unpack y.toModel.unpack)).unpack := rfl

theorem add_finite {m₁ m₂ : ℕ} {e₁ e₂ : ℤ} (h₁ : 0 < m₁) (h₂ : 0 < m₂)
    (hc₁ : Canonical m₁ e₁) (hc₂ : Canonical m₂ e₂) :
    ∃ m e h, UnpackedFloat.add .binary64 (.finite .positive m₁ e₁ h₁)
      (.finite .positive m₂ e₂ h₂) = .finite .positive m e h ∧ Canonical m e ∧
      (e₂ < e ∨ e₂ = e ∧ m₂ ≤ m) := by
  obtain ⟨k, hk⟩ : ∃ k : ℕ, e₂ = min e₁ e₂ + k := ⟨(e₂ - min e₁ e₂).toNat, by omega⟩
  have hE : -1074 ≤ min e₁ e₂ := le_min hc₁.le hc₂.le
  have hM : m₂ * 2 ^ k ≤ m₁ <<< (e₁ - min e₁ e₂).toNat + m₂ <<< (e₂ - min e₁ e₂).toNat := by
    have hshift : (e₂ - min e₁ e₂).toNat = k := by omega
    rw [hshift, Nat.shiftLeft_eq m₂]
    exact Nat.le_add_left _ _
  have hpos : 0 < m₁ <<< (e₁ - min e₁ e₂).toNat + m₂ <<< (e₂ - min e₁ e₂).toNat :=
    lt_of_lt_of_le (Nat.mul_pos h₂ (Nat.two_pow_pos k)) hM
  obtain ⟨m, e, h, heq, hrounds⟩ := exists_round (s := .positive) hpos hE
  refine ⟨m, e, h, ?_, hrounds.canonical, ?_⟩
  · have hcmp : compare ((m₁ <<< (e₁ - min e₁ e₂).toNat : ℕ) +
        (m₂ <<< (e₂ - min e₁ e₂).toNat : ℕ) : ℤ) 0 = .gt := compare_gt_iff_gt.2 (by omega)
    simp only [UnpackedFloat.add, decreaseExponent, Sign.apply, UnpackedFloat.normalize, hcmp]
    exact heq
  · have := hrounds.mono m₂ k (hk ▸ hc₂) hM
    rwa [← hk] at this

theorem key_nonneg {f : UnpackedFloat} (hf : Nonneg f) : toLex (0, toLex (0, 0)) ≤ key f := by
  rcases hf with rfl | rfl | ⟨m, e, h, rfl⟩
  · exact le_refl _
  · decide
  · simp [key, Prod.Lex.toLex_le_toLex]

theorem key_le_infinity {f : UnpackedFloat} : key f ≤ key (.infinity .positive) := by
  rcases f with (_ | _) | _ | (_ | _) | ⟨_ | _, m, e, h⟩ <;> simp [key, Prod.Lex.toLex_le_toLex]

/-- **A sum is not below its last term**, if no term is negative. -/
theorem nonneg_add (hx : Nonneg x.toModel.unpack) (hy : Nonneg y.toModel.unpack) :
    Nonneg (x + y).toModel.unpack ∧ key y.toModel.unpack ≤ key (x + y).toModel.unpack := by
  have hinf : (Float.Model.pack (.infinity .positive)).unpack = .infinity .positive :=
    unpack_packedInfinity .positive
  rw [unpack_add]
  rcases hx with hx | hx | ⟨m₁, e₁, h₁, hx⟩
  · rw [hx, zero_add_unpacked hy, pack_unpack_eq]
    exact ⟨hy, le_rfl⟩
  · have hsum : UnpackedFloat.add .binary64 x.toModel.unpack y.toModel.unpack =
        .infinity .positive := by
      rw [hx]
      rcases hy with hy | hy | ⟨m₂, e₂, h₂, hy⟩ <;> rw [hy] <;> rfl
    rw [hsum, hinf]
    exact ⟨Or.inr (Or.inl rfl), key_le_infinity⟩
  · rcases hy with hy | hy | ⟨m₂, e₂, h₂, hy⟩
    · have hsum : UnpackedFloat.add .binary64 x.toModel.unpack y.toModel.unpack =
          x.toModel.unpack := by
        rw [hx, hy]
        rfl
      have hx : Nonneg x.toModel.unpack := Or.inr (Or.inr ⟨m₁, e₁, h₁, hx⟩)
      rw [hsum, pack_unpack_eq, hy]
      exact ⟨hx, key_nonneg hx⟩
    · have hsum : UnpackedFloat.add .binary64 x.toModel.unpack y.toModel.unpack =
          .infinity .positive := by
        rw [hx, hy]
        rfl
      rw [hsum, hinf]
      exact ⟨Or.inr (Or.inl rfl), key_le_infinity⟩
    · obtain ⟨m, e, h, hsum, hc, hle⟩ := add_finite h₁ h₂ (canonical_unpack hx).1
        (canonical_unpack hy).1
      rw [hx, hy, hsum, unpack_pack hc h]
      split_ifs
      · refine ⟨Or.inr (Or.inr ⟨m, e, h, rfl⟩), Prod.Lex.toLex_le_toLex.2 (Or.inr ⟨rfl, ?_⟩)⟩
        exact Prod.Lex.toLex_le_toLex.2
          (hle.imp_right fun ⟨he, hm⟩ => ⟨he, Int.ofNat_le.2 hm⟩)
      · exact ⟨Or.inr (Or.inl rfl), key_le_infinity⟩

/-! ### Quotients -/

/-- **A positive unsigned number is converted to a finite double.** -/
theorem exists_unpack_ofUInt64 {n : UInt64} (h0 : 0 < n.toNat) :
    ∃ m e h, (Float.Model.ofUInt64 n).unpack = .finite .positive m e h := by
  obtain ⟨m, e, h, heq, hc, hle, -⟩ :=
    exists_round (s := .positive) h0 (by decide : (-1074 : ℤ) ≤ 0)
  have hlog : n.toNat.log2 < 64 := (Nat.log2_lt h0.ne').2 n.toNat_lt
  have hconv : UnpackedFloat.ofUInt64 .binary64 n = .finite .positive m e h := by
    have hcmp : compare (n.toNat : ℤ) 0 = .gt := compare_gt_iff_gt.2 (by omega)
    rw [UnpackedFloat.ofUInt64, UnpackedFloat.ofNat, UnpackedFloat.ofInt,
      UnpackedFloat.normalize, hcmp]
    exact heq
  refine ⟨m, e, h, ?_⟩
  rw [Float.Model.ofUInt64, hconv, unpack_pack hc h, if_pos (by omega)]

theorem nonneg_div {a b : UnpackedFloat} (ha : Nonneg a)
    (hb : ∃ m e h, b = .finite .positive m e h) : Nonneg (UnpackedFloat.div .binary64 a b) := by
  obtain ⟨m, e, h, rfl⟩ := hb
  rcases ha with rfl | rfl | ⟨m', e', h', rfl⟩
  · exact Or.inl rfl
  · exact Or.inr (Or.inl rfl)
  · simp only [UnpackedFloat.div, roundWithAccuracy]
    split_ifs
    · exact Or.inl rfl
    · exact Or.inr (Or.inr ⟨_, _, _, rfl⟩)

theorem unpack_zero : (Floating.ofDecimal 0 0 : Float).toModel.unpack = .zero .positive := by
  rfl

theorem nonneg_ratio (n d : UInt64) :
    Nonneg (Floating.ratio n.toNat d.toNat : Float).toModel.unpack := by
  unfold Floating.ratio
  split_ifs with hd
  · refine nonneg_unpack_pack (nonneg_div ?_ (exists_unpack_ofUInt64 (by simpa using hd)))
    rcases Nat.eq_zero_or_pos n.toNat with h0 | h0
    · rw [h0]
      exact Or.inl rfl
    · exact Or.inr (Or.inr (exists_unpack_ofUInt64 (by simpa using h0)))
  · exact Or.inl unpack_zero

theorem nonneg_ratioSum (ps : List (UInt64 × UInt64)) :
    Nonneg (Floating.ratioSum ps : Float).toModel.unpack := by
  refine List.foldlRecOn (motive := fun u : Float => Nonneg u.toModel.unpack) ps _
    (Or.inl unpack_zero) ?_
  exact fun u hu p _ => (nonneg_add hu (nonneg_ratio p.1 p.2)).1

end Double

open Double

instance : LawfulFloating Float where
  ratio_strictWeak := by
    have hnan : ∀ a : UInt32 × UInt32,
        (Floating.ratio a.1.toNat a.2.toNat : Float).toModel.unpack ≠ .notANumber := fun a => by
      have h := nonneg_ratio a.1.toUInt64 a.2.toUInt64
      rw [UInt32.toNat_toUInt64, UInt32.toNat_toUInt64] at h
      exact h.ne_notANumber
    have hlt : ∀ a b : UInt32 × UInt32,
        Floating.lt (Floating.ratio a.1.toNat a.2.toNat : Float)
            (Floating.ratio b.1.toNat b.2.toNat) =
          decide (key (Floating.ratio a.1.toNat a.2.toNat : Float).toModel.unpack <
            key (Floating.ratio b.1.toNat b.2.toNat : Float).toModel.unpack) := fun a b =>
      decide_eq_decide.2 (lt_iff (hnan a) (hnan b))
    simp only [hlt]
    exact (StrictWeak.of_lt (κ := ℤ ×ₗ ℤ ×ₗ ℤ)).swap.comap fun a : UInt32 × UInt32 =>
      key (Floating.ratio a.1.toNat a.2.toNat : Float).toModel.unpack

instance : MonotoneFloating Float where
  le_of_ratioSum_add_le ps p bound h := by
    have hp := nonneg_ratio p.1 p.2
    obtain ⟨hsum, hkey⟩ := nonneg_add (nonneg_ratioSum ps) hp
    have hzero : (Floating.add (Floating.ofDecimal 0 0) (Floating.ratio p.1.toNat p.2.toNat) :
        Float).toModel.unpack = (Floating.ratio p.1.toNat p.2.toNat : Float).toModel.unpack := by
      refine (unpack_add _ _).trans ?_
      rw [unpack_zero, zero_add_unpacked hp, pack_unpack_eq]
    have hle : Floating.ratioSum ps + Floating.ratio p.1.toNat p.2.toNat ≤ bound :=
      of_decide_eq_true h
    have hbound := ne_notANumber_of_le hle
    refine decide_eq_true ((le_iff (hzero ▸ hp.ne_notANumber) hbound).2 ?_)
    rw [hzero]
    exact hkey.trans ((le_iff hsum.ne_notANumber hbound).1 hle)

example : Floating.le (Floating.ratioSum [(1, 5), (2, 5), (3, 10)] : Float)
    (Floating.ofDecimal 90 2) = false := by decide +kernel

end Timpani
