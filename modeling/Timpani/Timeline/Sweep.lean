import Mathlib.Order.Interval.Set.Defs
import Mathlib.Order.MinMax

/-!
# The complement of a list of stretches

A sweep over stretches `[a, b)`, in the order of their starts, keeps a cursor at the largest end so
far and notes a gap whenever the next stretch starts behind it.  The stretches may overlap, touch or
be empty.

* `lt_of_mem_gapsFrom`, `pairwise_gapsFrom` : the gaps are non-empty, disjoint and increasing, and
  two of them touch only where an empty stretch lies between them;
* `exists_mem_gapsFrom_iff` : the gaps cover what the stretches leave free, and nothing else.
-/

namespace Timpani

variable {α : Type*} [LinearOrder α]

/-- The gaps from `cursor` to `stop`. -/
def gapsFrom (stop : α) : α → List (α × α) → List (α × α)
  | cursor, [] => if cursor < stop then [(cursor, stop)] else []
  | cursor, p :: l =>
    (if cursor < p.1 then [(cursor, p.1)] else []) ++ gapsFrom stop (max cursor p.2) l

variable {stop cursor x : α} {p g : α × α} {l : List (α × α)}

theorem mem_gapsFrom_nil : g ∈ gapsFrom stop cursor [] ↔ cursor < stop ∧ g = (cursor, stop) := by
  rw [gapsFrom]
  split_ifs with h <;> simp [h]

theorem mem_gapsFrom_cons : g ∈ gapsFrom stop cursor (p :: l) ↔
    (cursor < p.1 ∧ g = (cursor, p.1)) ∨ g ∈ gapsFrom stop (max cursor p.2) l := by
  rw [gapsFrom, List.mem_append]
  split_ifs with h <;> simp [h]

theorem le_of_mem_gapsFrom (h : g ∈ gapsFrom stop cursor l) : cursor ≤ g.1 := by
  induction l generalizing cursor with
  | nil =>
    obtain ⟨-, rfl⟩ := mem_gapsFrom_nil.1 h
    exact le_rfl
  | cons p l ih =>
    obtain ⟨-, rfl⟩ | h := mem_gapsFrom_cons.1 h
    · exact le_rfl
    · exact (le_max_left _ _).trans (ih h)

theorem lt_of_mem_gapsFrom (h : g ∈ gapsFrom stop cursor l) : g.1 < g.2 := by
  induction l generalizing cursor with
  | nil =>
    obtain ⟨hlt, rfl⟩ := mem_gapsFrom_nil.1 h
    exact hlt
  | cons p l ih =>
    obtain ⟨hlt, rfl⟩ | h := mem_gapsFrom_cons.1 h
    · exact hlt
    · exact ih h

/-- The gaps are increasing and disjoint; where two of them touch there is an empty stretch. -/
theorem pairwise_gapsFrom (hl : ∀ p ∈ l, p.1 ≤ p.2) :
    (gapsFrom stop cursor l).Pairwise fun g g' =>
      g.2 ≤ g'.1 ∧ (g.2 = g'.1 → ∃ p ∈ l, p.1 = g.2 ∧ p.2 = g.2) := by
  induction l generalizing cursor with
  | nil =>
    rw [gapsFrom]
    split_ifs
    · exact List.pairwise_singleton _ _
    · exact .nil
  | cons p l ih =>
    rw [List.forall_mem_cons] at hl
    have hrest : (gapsFrom stop (max cursor p.2) l).Pairwise fun g g' =>
        g.2 ≤ g'.1 ∧ (g.2 = g'.1 → ∃ q ∈ p :: l, q.1 = g.2 ∧ q.2 = g.2) := by
      refine (ih hl.2).imp fun ⟨hle, htouch⟩ => ⟨hle, fun heq => ?_⟩
      obtain ⟨q, hq, hat⟩ := htouch heq
      exact ⟨q, List.mem_cons_of_mem _ hq, hat⟩
    rw [gapsFrom]
    split_ifs
    · -- a later gap starts behind the end of `p`, so at its start only if `p` is empty
      refine .cons (fun g hg => ?_) hrest
      have hend : p.2 ≤ g.1 := (le_max_right _ _).trans (le_of_mem_gapsFrom hg)
      refine ⟨hl.1.trans hend, fun heq => ⟨p, List.mem_cons_self, rfl, ?_⟩⟩
      exact le_antisymm (hend.trans heq.ge) hl.1
    · exact hrest

/-- **The gaps cover what the stretches leave free.** A point lies in a gap iff it lies between the
cursor and the stop and in no stretch. -/
theorem exists_mem_gapsFrom_iff (hsorted : l.Pairwise fun p q => p.1 ≤ q.1)
    (hl : ∀ p ∈ l, p.1 ≤ p.2 ∧ p.2 ≤ stop) :
    (∃ g ∈ gapsFrom stop cursor l, x ∈ Set.Ico g.1 g.2) ↔
      x ∈ Set.Ico cursor stop ∧ ∀ p ∈ l, x ∉ Set.Ico p.1 p.2 := by
  induction l generalizing cursor with
  | nil =>
    simp only [mem_gapsFrom_nil, List.not_mem_nil, false_imp_iff, implies_true, and_true]
    constructor
    · rintro ⟨g, ⟨-, rfl⟩, hx⟩
      exact hx
    · intro hx
      exact ⟨_, ⟨hx.1.trans_lt hx.2, rfl⟩, hx⟩
  | cons p l ih =>
    rw [List.pairwise_cons] at hsorted
    rw [List.forall_mem_cons] at hl ⊢
    have hrest : (∃ g ∈ gapsFrom stop (max cursor p.2) l, x ∈ Set.Ico g.1 g.2) ↔
        x ∈ Set.Ico (max cursor p.2) stop ∧ ∀ q ∈ l, x ∉ Set.Ico q.1 q.2 := ih hsorted.2 hl.2
    constructor
    · rintro ⟨g, hg, hx⟩
      obtain ⟨hlt, rfl⟩ | hg := mem_gapsFrom_cons.1 hg
      · -- before the start of `p`, and so before that of every later stretch
        refine ⟨⟨hx.1, hx.2.trans_le (hl.1.1.trans hl.1.2)⟩, fun hp => hx.2.not_ge hp.1, ?_⟩
        exact fun q hq hin => (hx.2.trans_le (hsorted.1 q hq)).not_ge hin.1
      · obtain ⟨⟨hmax, hstop⟩, hfree⟩ := hrest.1 ⟨g, hg, hx⟩
        rw [max_le_iff] at hmax
        exact ⟨⟨hmax.1, hstop⟩, fun hp => hp.2.not_ge hmax.2, hfree⟩
    · rintro ⟨hx, hp, hfree⟩
      by_cases hlt : x < p.1
      · exact ⟨_, mem_gapsFrom_cons.2 (Or.inl ⟨hx.1.trans_lt hlt, rfl⟩), hx.1, hlt⟩
      · have hend : p.2 ≤ x := by
          by_contra hin
          exact hp ⟨not_lt.1 hlt, not_le.1 hin⟩
        obtain ⟨g, hg, hxg⟩ := hrest.2 ⟨⟨max_le hx.1 hend, hx.2⟩, hfree⟩
        exact ⟨g, mem_gapsFrom_cons.2 (Or.inr hg), hxg⟩

end Timpani
