import Timpani.Cpp.Text
import Mathlib.Data.List.TakeWhile

/-!
# C strings in fixed buffers

`strncpy` into a `char` array and `strncmp` of two such arrays.  Both stop at a NUL byte, so a text
with a NUL inside is cut there.  A buffer is a function from positions to bytes.

* `strncmp_strncpy` : two texts that were copied compare equal iff what was copied is equal;
* `strncmp_iff` : the comparison byte by byte.
-/

namespace Timpani

/-- What C code sees of a text: the bytes before the first NUL. -/
def cString (s : Text) : Text := s.takeWhile (· ≠ 0)

/-- What `strncpy(dst, s, n)` copies; the rest of `dst` is filled with NUL. -/
def cTake (n : ℕ) (s : Text) : Text := (cString s).take n

/-- The bytes of `dst` after `strncpy(dst, s, n)` and a terminating NUL. -/
def strncpy (n : ℕ) (s : Text) (k : ℕ) : UInt8 := (cTake n s).getD k 0

/-- `strncmp(a, b, n) == 0` -/
def strncmp : ℕ → (ℕ → UInt8) → (ℕ → UInt8) → Bool
  | 0, _, _ => true
  | n + 1, a, b => a 0 == b 0 && (a 0 == 0 || strncmp n (fun k => a (k + 1)) fun k => b (k + 1))

theorem zero_notMem_cTake (n : ℕ) (s : Text) : 0 ∉ cTake n s := by
  intro h
  have hmem := List.mem_of_mem_take h
  simpa using List.mem_takeWhile_imp hmem

theorem length_cTake_le (n : ℕ) (s : Text) : (cTake n s).length ≤ n :=
  List.length_take_le n _

theorem strncmp_getD_iff {n : ℕ} {s t : Text} (hs : 0 ∉ s) (ht : 0 ∉ t) (hsn : s.length ≤ n)
    (htn : t.length ≤ n) : strncmp n (s.getD · 0) (t.getD · 0) = true ↔ s = t := by
  induction n generalizing s t with
  | zero =>
    rw [List.length_eq_zero_iff.1 (Nat.le_zero.1 hsn),
      List.length_eq_zero_iff.1 (Nat.le_zero.1 htn)]
    exact iff_of_true rfl rfl
  | succ n ih =>
    cases s with
    | nil =>
      cases t with
      | nil => simp [strncmp]
      | cons b t =>
        have hb : (0 : UInt8) ≠ b := fun h => ht (h ▸ List.mem_cons_self)
        simp [strncmp, hb]
    | cons a s =>
      have ha : a ≠ 0 := fun h => hs (h ▸ List.mem_cons_self)
      cases t with
      | nil => simp [strncmp, ha]
      | cons b t =>
        have ih := ih (fun h => hs (List.mem_cons_of_mem _ h))
          (fun h => ht (List.mem_cons_of_mem _ h)) (Nat.le_of_succ_le_succ hsn) (Nat.le_of_succ_le_succ htn)
        simp only [strncmp, List.getD_cons_zero, List.getD_cons_succ, Bool.and_eq_true, beq_iff_eq,
          Bool.or_eq_true, ha, false_or, ih, List.cons.injEq]

/-- **Copied texts** compare equal iff the copied parts are equal. -/
theorem strncmp_strncpy (n : ℕ) (s t : Text) :
    strncmp n (strncpy n s) (strncpy n t) = true ↔ cTake n s = cTake n t :=
  strncmp_getD_iff (zero_notMem_cTake n s) (zero_notMem_cTake n t) (length_cTake_le n s)
    (length_cTake_le n t)

/-- **Byte by byte**: two bytes are compared as long as no NUL came before. -/
theorem strncmp_iff {n : ℕ} {a b : ℕ → UInt8} :
    strncmp n a b = true ↔ ∀ k < n, (∀ j < k, a j ≠ 0) → a k = b k := by
  induction n generalizing a b with
  | zero => simp [strncmp]
  | succ n ih =>
    rw [strncmp, Bool.and_eq_true, Bool.or_eq_true, beq_iff_eq, beq_iff_eq, ih]
    constructor
    · rintro ⟨h0, hrest⟩ k hk hnz
      cases k with
      | zero => exact h0
      | succ k =>
        rcases hrest with hzero | hrest
        · exact absurd hzero (hnz 0 (Nat.succ_pos k))
        · exact hrest k (Nat.lt_of_succ_lt_succ hk) fun j hj => hnz (j + 1) (Nat.succ_lt_succ hj)
    · intro h
      refine ⟨h 0 (Nat.succ_pos n) fun j hj => absurd hj (Nat.not_lt_zero j), ?_⟩
      by_cases h0 : a 0 = 0
      · exact Or.inl h0
      · refine Or.inr fun k hk hnz => h (k + 1) (Nat.succ_lt_succ hk) fun j hj => ?_
        cases j with
        | zero => exact h0
        | succ j => exact hnz j (Nat.lt_of_succ_lt_succ hj)

end Timpani
