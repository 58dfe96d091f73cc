import Mathlib.Algebra.Order.BigOperators.Group.List
import Mathlib.Algebra.Order.Group.Defs
import Mathlib.Data.Multiset.AddSub
import Mathlib.Data.Multiset.ZeroCons
import Mathlib.Order.Lattice
import Mathlib.Algebra.Order.Group.Unbundled.Basic

/-!
# Worst fit

Worst fit puts every item into a bin with the largest residual capacity.  Which of several such bins
it takes does not matter for the capacities, so a run is described by the multiset of capacities
alone.

* `WorstFits s us` : the items `us` can be packed, in this order, into bins with capacities `s`;
* `WorstFits.mono` : larger bins take the same items;
* `WorstFits.sublist` : what can be packed can be packed after leaving items out.
-/

namespace Timpani

variable {α : Type} [AddCommGroup α] [LinearOrder α]

/-- Worst fit packs the items into bins with the given capacities. -/
inductive WorstFits : Multiset α → List α → Prop
  | nil (s : Multiset α) : WorstFits s []
  /-- The item goes to a bin of capacity `m`, the largest one. -/
  | cons {m u : α} {s : Multiset α} {us : List α} (hmax : ∀ x ∈ s, x ≤ m) (hfit : u ≤ m)
      (hrest : WorstFits ((m - u) ::ₘ s) us) : WorstFits (m ::ₘ s) (u :: us)

namespace WorstFits

omit [AddCommGroup α] in
theorem exists_max {s : Multiset α} (h : s ≠ 0) : ∃ m t, s = m ::ₘ t ∧ ∀ x ∈ t, x ≤ m := by
  induction s using Multiset.induction with
  | empty => exact absurd rfl h
  | cons a s ih =>
    by_cases hs : s = 0
    · exact ⟨a, 0, by rw [hs], by simp⟩
    obtain ⟨m, t, rfl, hm⟩ := ih hs
    rcases le_total a m with ham | hma
    · refine ⟨m, a ::ₘ t, Multiset.cons_swap _ _ _, fun x hx => ?_⟩
      rcases Multiset.mem_cons.1 hx with rfl | hx
      · exact ham
      · exact hm x hx
    · refine ⟨a, m ::ₘ t, rfl, fun x hx => ?_⟩
      rcases Multiset.mem_cons.1 hx with rfl | hx
      · exact hma
      · exact (hm x hx).trans hma

omit [AddCommGroup α] in
theorem rel_of_rel_cons {m m' : α} {s s' : Multiset α} (h : Multiset.Rel (· ≤ ·) (m ::ₘ s) (m' ::ₘ s'))
    (hmax : ∀ x ∈ s, x ≤ m) (hmax' : ∀ x ∈ s', x ≤ m') : m ≤ m' ∧ Multiset.Rel (· ≤ ·) s s' := by
  obtain ⟨b, t', hmb, hrel, heq⟩ := Multiset.rel_cons_left.1 h
  rcases Multiset.cons_eq_cons.1 heq with ⟨rfl, rfl⟩ | ⟨-, c, rfl, rfl⟩
  · exact ⟨hmb, hrel⟩
  · -- `m` is matched with `b` and some `a` with `m'`; exchange the partners
    refine ⟨hmb.trans (hmax' b (Multiset.mem_cons_self _ _)), ?_⟩
    obtain ⟨a, t, ham', hrest, rfl⟩ := Multiset.rel_cons_right.1 hrel
    exact .cons ((hmax a (Multiset.mem_cons_self _ _)).trans hmb) hrest

variable [IsOrderedAddMonoid α]

/-- **Larger bins take the same items.** -/
theorem mono {s s' : Multiset α} {us : List α} (h : WorstFits s us)
    (hle : Multiset.Rel (· ≤ ·) s s') : WorstFits s' us := by
  induction h generalizing s' with
  | nil => exact .nil s'
  | @cons m u s us hmax hfit _ ih =>
    have hne : s' ≠ 0 := by
      rintro rfl
      exact Multiset.cons_ne_zero (Multiset.rel_zero_right.1 hle)
    obtain ⟨m', t', rfl, hmax'⟩ := exists_max hne
    obtain ⟨hmm', hrest⟩ := rel_of_rel_cons hle hmax hmax'
    exact .cons hmax' (hfit.trans hmm') (ih (.cons (sub_le_sub_right hmm' u) hrest))

/-- **Leaving items out** never makes the rest unpackable. -/
theorem sublist {s : Multiset α} {us us' : List α} (h : WorstFits s us)
    (hnonneg : ∀ u ∈ us, 0 ≤ u) (hsub : us'.Sublist us) : WorstFits s us' := by
  induction h generalizing us' with
  | nil s =>
    rw [List.sublist_nil.1 hsub]
    exact .nil s
  | @cons m u s us hmax hfit _ ih =>
    have ih := fun {us'} => @ih us' fun u hu => hnonneg u (List.mem_cons_of_mem _ hu)
    cases hsub with
    | cons _ hsub =>
      have hu : m - u ≤ m := sub_le_self m (hnonneg u List.mem_cons_self)
      exact (ih hsub).mono (.cons hu (Multiset.rel_refl_of_refl_on fun _ _ => le_rfl))
    | cons_cons _ hsub => exact .cons hmax hfit (ih hsub)

end WorstFits

theorem eq_of_sublist_of_sum_le [IsOrderedAddMonoid α] {us us' : List α} (hsub : us'.Sublist us)
    (hpos : ∀ u ∈ us, 0 < u) (hsum : us.sum ≤ us'.sum) : us' = us := by
  induction hsub with
  | slnil => rfl
  | @cons us' us u hsub =>
    have hrest : us'.sum ≤ us.sum :=
      hsub.sum_le_sum fun v hv => (hpos v (List.mem_cons_of_mem _ hv)).le
    rw [List.sum_cons] at hsum
    exact absurd (hsum.trans hrest) (not_le.2 (lt_add_of_pos_left _ (hpos u List.mem_cons_self)))
  | @cons_cons us' us u hsub ih =>
    rw [List.sum_cons, List.sum_cons] at hsum
    rw [ih (fun v hv => hpos v (List.mem_cons_of_mem _ hv)) (le_of_add_le_add_left hsum)]

/-! ### Bins with names -/

omit [AddCommGroup α] [LinearOrder α] in
theorem map_update_eq {κ : Type} [DecidableEq κ] {keys : List κ} (hnd : keys.Nodup) {k : κ}
    (hk : k ∈ keys) (r : κ → α) :
    ∃ s : Multiset α, (keys.map r : Multiset α) = r k ::ₘ s ∧
      ∀ v, (keys.map (Function.update r k v) : Multiset α) = v ::ₘ s := by
  obtain ⟨l₁, l₂, rfl⟩ := List.append_of_mem hk
  have hnot : ∀ c ∈ l₁ ++ l₂, c ≠ k := by
    rintro c hc rfl
    exact (List.nodup_middle.1 hnd |> List.nodup_cons.1).1 hc
  refine ⟨((l₁ ++ l₂).map r : List α), ?_, fun v => ?_⟩
  · rw [Multiset.cons_coe, Multiset.coe_eq_coe]
    exact List.perm_middle.map r
  · rw [Multiset.cons_coe, Multiset.coe_eq_coe]
    refine (List.perm_middle.map _).trans (.of_eq ?_)
    rw [List.map_cons, Function.update_self]
    exact congrArg _ (List.map_congr_left fun c hc => Function.update_of_ne (hnot c hc) _ _)

end Timpani
