import Timpani.Cpp.Sort
import Timpani.Cpp.Text
import Mathlib.Algebra.Order.Field.Rat
import Mathlib.Tactic.Linarith
import Mathlib.Tactic.Positivity

/-!
# Floating point

The sources compute utilisations with `double`.  `Floating U` lists the operations they use, and
the model is generic in `U`: what is proved for every `U` holds for `double` whatever its rounding
does.  Two instances are given: `Float`, the type of the source, and `ℚ`, the exact reading of the
same formulas.

Two laws are assumed where they are needed: `LawfulFloating` states that `U` orders quotients of
unsigned numbers as `std::sort` asks, and `MonotoneFloating` that adding up quotients of unsigned
numbers does not lead below one of them.
-/

namespace Timpani

/-- The operations the sources use on `double`. -/
class Floating (U : Type) where
  /-- Conversion of an unsigned number. -/
  ofNat : ℕ → U
  /-- The decimal literal `m * 10 ^ (-e)`. -/
  ofDecimal : ℤ → ℕ → U
  add : U → U → U
  sub : U → U → U
  div : U → U → U
  lt : U → U → Bool
  le : U → U → Bool
  /-- `std::to_string`: six digits after the point. -/
  toText : U → Text

namespace Floating

variable {U : Type} [Floating U]

/-- `n / d` as the sources guard it: `0.0` for a zero divisor. -/
def ratio (n d : ℕ) : U := if 0 < d then div (ofNat n) (ofNat d) else ofDecimal 0 0

/-- The sum of quotients, added up from the left. -/
def ratioSum (ps : List (UInt64 × UInt64)) : U :=
  ps.foldl (fun u p => add u (ratio p.1.toNat p.2.toNat)) (ofDecimal 0 0)

end Floating

/-- Quotients of unsigned numbers can be sorted in decreasing order. -/
class LawfulFloating (U : Type) [Floating U] : Prop where
  ratio_strictWeak : StrictWeak fun a b : UInt32 × UInt32 =>
    Floating.lt (Floating.ratio b.1.toNat b.2.toNat : U) (Floating.ratio a.1.toNat a.2.toNat)

/-- A sum that stays within a bound has a last term that does so by itself. -/
class MonotoneFloating (U : Type) [Floating U] : Prop where
  le_of_ratioSum_add_le : ∀ (ps : List (UInt64 × UInt64)) (p : UInt64 × UInt64) (bound : U),
    Floating.le (Floating.add (Floating.ratioSum ps) (Floating.ratio p.1.toNat p.2.toNat)) bound =
        true →
      Floating.le (Floating.add (Floating.ofDecimal 0 0) (Floating.ratio p.1.toNat p.2.toNat))
        bound = true

instance : Floating Float where
  ofNat n := n.toUInt64.toFloat
  ofDecimal m e :=
    if 0 ≤ m then Float.ofScientific m.toNat true e else -Float.ofScientific (-m).toNat true e
  add a b := a + b
  sub a b := a - b
  div a b := a / b
  lt a b := decide (a < b)
  le a b := decide (a ≤ b)
  toText x := text (toString x)

instance : Floating ℚ where
  ofNat n := n
  ofDecimal m e := m / 10 ^ e
  add a b := a + b
  sub a b := a - b
  div a b := a / b
  lt a b := decide (a < b)
  le a b := decide (a ≤ b)
  toText x :=
    let micros := (|x| * 1000000 + 1 / 2).floor.toNat
    let frac := natText (micros % 1000000)
    (if x < 0 then text "-" else []) ++ natText (micros / 1000000) ++ text "." ++
      List.replicate (6 - frac.length) (48 : UInt8) ++ frac

namespace Floating

theorem ratio_eq_div (n d : ℕ) : (ratio n d : ℚ) = n / d := by
  unfold ratio
  split_ifs with h
  · rfl
  · simp [Nat.eq_zero_of_not_pos h, ofDecimal]

theorem ratio_nonneg (n d : ℕ) : (0 : ℚ) ≤ ratio n d := by
  rw [ratio_eq_div]
  positivity

theorem ofDecimal_zero : (ofDecimal 0 0 : ℚ) = 0 := by norm_num [ofDecimal]

theorem ratioSum_nonneg (ps : List (UInt64 × UInt64)) : (0 : ℚ) ≤ ratioSum ps := by
  refine List.foldlRecOn (motive := fun u : ℚ => 0 ≤ u) ps _ ofDecimal_zero.ge ?_
  exact fun u hu p _ => add_nonneg hu (ratio_nonneg _ _)

end Floating

instance : LawfulFloating ℚ where
  ratio_strictWeak :=
    (StrictWeak.of_lt (κ := ℚ)).swap.comap fun a : UInt32 × UInt32 =>
      Floating.ratio a.1.toNat a.2.toNat

instance : MonotoneFloating ℚ where
  le_of_ratioSum_add_le ps p bound h := by
    have hsum := Floating.ratioSum_nonneg ps
    have h : Floating.ratioSum ps + Floating.ratio p.1.toNat p.2.toNat ≤ bound :=
      of_decide_eq_true h
    refine decide_eq_true ?_
    change Floating.ofDecimal 0 0 + Floating.ratio p.1.toNat p.2.toNat ≤ bound
    rw [Floating.ofDecimal_zero]
    linarith

example : Floating.toText (-1 / 16 : ℚ) = text "-0.062500" := by decide +kernel

end Timpani
