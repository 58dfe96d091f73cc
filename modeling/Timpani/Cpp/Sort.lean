import Mathlib.Data.List.Sort
import Std.Data.ExtTreeSet

/-!
# `std::sort` and `std::set`

`std::sort` is not stable: the standard fixes the result only up to the order of equivalent
elements.  `StdSort` is an arbitrary function with exactly the documented guarantees, so a theorem
about every `StdSort` holds for every implementation of the library.  `insertionStdSort` is one of
them (it is what common implementations run on short ranges).

`stdSet l` lists a `std::set` filled from the range `l`, or the keys of a `std::map`, in the order
of iteration.
-/

namespace Timpani

/-- The comparators `std::sort` accepts. -/
structure StrictWeak {α : Type} (lt : α → α → Bool) : Prop where
  irrefl : ∀ a, lt a a = false
  trans : ∀ {a b c}, lt a b = true → lt b c = true → lt a c = true
  incomp : ∀ {a b c}, lt a b = false → lt b c = false → lt a c = false

theorem StrictWeak.comap {α β : Type} {lt : β → β → Bool} (h : StrictWeak lt) (f : α → β) :
    StrictWeak fun a b => lt (f a) (f b) where
  irrefl a := h.irrefl (f a)
  trans := h.trans
  incomp := h.incomp

theorem StrictWeak.swap {α : Type} {lt : α → α → Bool} (h : StrictWeak lt) :
    StrictWeak fun a b => lt b a where
  irrefl := h.irrefl
  trans hab hbc := h.trans hbc hab
  incomp hab hbc := h.incomp hbc hab

theorem StrictWeak.of_lt {κ : Type} [LinearOrder κ] : StrictWeak fun a b : κ => decide (a < b) where
  irrefl a := by simp
  trans h h' := by
    simp only [decide_eq_true_eq] at h h' ⊢
    exact h.trans h'
  incomp h h' := by
    simp only [decide_eq_false_iff_not, not_lt] at h h' ⊢
    exact h'.trans h

theorem StrictWeak.of_uint32_lt : StrictWeak fun a b : UInt32 => decide (a < b) := by
  simp only [UInt32.lt_iff_toNat_lt]
  exact StrictWeak.of_lt.comap UInt32.toNat

theorem StrictWeak.of_uint64_lt : StrictWeak fun a b : UInt64 => decide (a < b) := by
  simp only [UInt64.lt_iff_toNat_lt]
  exact StrictWeak.of_lt.comap UInt64.toNat

/-- An implementation of `std::sort`. -/
structure StdSort where
  /-- The sorted range. -/
  sort : {α : Type} → (α → α → Bool) → List α → List α
  /-- Sorting permutes the range. -/
  perm : ∀ {α : Type} {lt : α → α → Bool}, StrictWeak lt → ∀ l : List α, (sort lt l).Perm l
  /-- No element is less than one before it. -/
  sorted : ∀ {α : Type} {lt : α → α → Bool}, StrictWeak lt →
    ∀ l : List α, (sort lt l).Pairwise fun a b => lt b a = false

/-- The sort sees the elements through the comparator only. -/
def StdSort.Natural (s : StdSort) : Prop :=
  ∀ {α β : Type} (f : α → β) (lt : β → β → Bool) (l : List α),
    s.sort lt (l.map f) = (s.sort (fun a b => lt (f a) (f b)) l).map f

/-- Stable insertion sort. -/
def insertionStdSort : StdSort where
  sort lt l := l.insertionSort fun a b => lt b a = false
  perm _ l := List.perm_insertionSort _ l
  sorted {α lt} hlt l := by
    have : Std.Total fun a b : α => lt b a = false := by
      refine ⟨fun a b => ?_⟩
      cases hab : lt b a with
      | false => exact Or.inl rfl
      | true =>
        cases hba : lt a b with
        | false => exact Or.inr rfl
        | true => exact absurd (hlt.trans hab hba) (by simp [hlt.irrefl])
    have : IsTrans α fun a b : α => lt b a = false := ⟨fun _ _ _ hab hbc => hlt.incomp hbc hab⟩
    exact List.pairwise_insertionSort _ l

theorem natural_insertionStdSort : insertionStdSort.Natural := by
  intro α β f lt l
  exact (List.map_insertionSort _ _ f l fun _ _ _ _ => Iff.rfl).symm

example : insertionStdSort.sort (fun a b : ℕ => decide (a < b)) [3, 1, 2] = [1, 2, 3] := by decide

/-! ### Ordered containers -/

section StdSet

variable {α : Type} [Ord α] [Std.TransOrd α] [Std.LawfulEqOrd α]

/-- The elements of a `std::set` filled from `l`, in iteration order. -/
def stdSet (l : List α) : List α := (Std.ExtTreeSet.ofList l).toList

@[simp] theorem mem_stdSet [DecidableEq α] {l : List α} {a : α} : a ∈ stdSet l ↔ a ∈ l := by
  simp [stdSet]

omit [Std.LawfulEqOrd α] in
theorem pairwise_stdSet (l : List α) : (stdSet l).Pairwise fun a b => compare a b = .lt :=
  Std.ExtTreeSet.ordered_toList (t := Std.ExtTreeSet.ofList l compare)

theorem nodup_stdSet (l : List α) : (stdSet l).Nodup := by
  refine (Std.ExtTreeSet.distinct_toList (t := Std.ExtTreeSet.ofList l compare)).imp ?_
  rintro a _ h rfl
  exact h Std.ReflCmp.compare_self

theorem length_stdSet_le [DecidableEq α] (l : List α) : (stdSet l).length ≤ l.length :=
  (List.subperm_of_subset (nodup_stdSet l) fun _ h => mem_stdSet.1 h).length_le

end StdSet

end Timpani
