import Mathlib.Algebra.BigOperators.Group.List.Basic

/-!
# Greedy packing

Items are put into bins, one after the other; each goes to some bin that is allowed for it and has
room.  Which one does not matter here: no bin is ever overfull.

What the items of a bin come to is accumulated in the order in which they arrive, by an operation
that need not be a sum of numbers: it may round.  With exact weights it is their sum, the `load`.

* `accumulated` : what the items of a bin come to;
* `Greedy` : the placements that can come about in this way;
* `Greedy.room_accumulated` : no bin is overfull;
* `load_eq_accumulated` : exact weights.
-/

namespace Timpani

variable {ι β α : Type} [DecidableEq β]

/-- What the items of a bin come to, in the order in which they were put there. -/
def accumulated (add : α → ι → α) (zero : α) (ps : List (ι × β)) (bin : β) : α :=
  ((ps.filter fun p => p.2 = bin).map Prod.fst).foldl add zero

section Accumulated

variable {add : α → ι → α} {zero : α} {ps : List (ι × β)} {i : ι} {bin bin' : β}

@[simp] theorem accumulated_nil : accumulated add zero ([] : List (ι × β)) bin = zero := rfl

theorem accumulated_append_singleton : accumulated add zero (ps ++ [(i, bin)]) bin' =
    if bin = bin' then add (accumulated add zero ps bin') i else accumulated add zero ps bin' := by
  unfold accumulated
  split_ifs with h <;> simp [h]

theorem accumulated_filter {q : β → Bool} (hbin : q bin = true) :
    accumulated add zero (ps.filter fun p => q p.2) bin = accumulated add zero ps bin := by
  unfold accumulated
  rw [List.filter_filter]
  congr 2
  refine List.filter_congr fun p _ => ?_
  by_cases hp : p.2 = bin
  · simp [hp, hbin]
  · simp [hp]

theorem accumulated_eq_zero (h : ∀ p ∈ ps, p.2 ≠ bin) : accumulated add zero ps bin = zero := by
  have hnil : ps.filter (fun p => p.2 = bin) = [] := by
    refine List.filter_eq_nil_iff.2 fun p hp => ?_
    simpa using h p hp
  rw [accumulated, hnil]
  rfl

end Accumulated

/-- Items placed one after the other, each in a bin that is allowed for it and has room. -/
inductive Greedy (add : α → ι → α) (zero : α) (allowed : ι → β → Prop) (room : α → Prop) :
    List (ι × β) → Prop
  | nil : Greedy add zero allowed room []
  | snoc {ps : List (ι × β)} {i : ι} {bin : β} (h : Greedy add zero allowed room ps)
      (hallowed : allowed i bin) (hroom : room (add (accumulated add zero ps bin) i)) :
      Greedy add zero allowed room (ps ++ [(i, bin)])

namespace Greedy

variable {add : α → ι → α} {zero : α} {allowed : ι → β → Prop} {room : α → Prop}
  {ps : List (ι × β)}

theorem allowed_of_mem (h : Greedy add zero allowed room ps) : ∀ p ∈ ps, allowed p.1 p.2 := by
  induction h with
  | nil => exact fun p hp => absurd hp List.not_mem_nil
  | snoc h hallowed hroom ih =>
    intro p hp
    rcases List.mem_append.1 hp with hp | hp
    · exact ih p hp
    · rw [List.mem_singleton.1 hp]
      exact hallowed

/-- **No bin is overfull.** -/
theorem room_accumulated (h : Greedy add zero allowed room ps) (hzero : room zero) (bin : β) :
    room (accumulated add zero ps bin) := by
  induction h with
  | nil => exact hzero
  | @snoc ps i bin₁ h hallowed hroom ih =>
    rw [accumulated_append_singleton]
    split_ifs with heq
    · exact heq ▸ hroom
    · exact ih

end Greedy

/-! ### Exact weights -/

section Load

variable [AddCommMonoid α]

/-- The total weight of the items in a bin. -/
def load (weight : ι → α) (ps : List (ι × β)) (bin : β) : α :=
  ((ps.filter fun p => p.2 = bin).map fun p => weight p.1).sum

theorem load_eq_accumulated (weight : ι → α) (ps : List (ι × β)) (bin : β) :
    load weight ps bin = accumulated (fun a i => a + weight i) 0 ps bin := by
  rw [load, accumulated, List.sum_eq_foldl, List.foldl_map, List.foldl_map]

end Load

end Timpani
