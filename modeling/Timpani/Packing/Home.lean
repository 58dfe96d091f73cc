import Timpani.Packing.Greedy

/-!
# Packing with home bins

Items may have a home bin and go there if there is room.  The others go to a *spill* bin as long as
no such bin is in use.  Whether any item ends up in a spill bin can be told beforehand: it does not
iff every item has a home and the items of a home fit into it one after the other.

* `HomeFirst` : the placements that can come about in this way;
* `HomeFirst.not_spill_iff` : when no spill bin is used.
-/

namespace Timpani

variable {ι β α : Type} [DecidableEq β]

/-- The items whose home is a bin. -/
def homeItems (home : ι → Option β) (items : List ι) (bin : β) : List ι :=
  items.filter fun i => home i = some bin

/-- Items placed one after the other: at home if there is room, or else in a spill bin unless one is
in use already. -/
inductive HomeFirst (add : α → ι → α) (zero : α) (home : ι → Option β) (spill : β → Prop)
    (room : α → Prop) : List (ι × β) → Prop
  | nil : HomeFirst add zero home spill room []
  | snoc {ps : List (ι × β)} {i : ι} {bin : β} (h : HomeFirst add zero home spill room ps)
      (hhome : ∀ b, home i = some b → room (add (accumulated add zero ps b) i) → bin = b)
      (hspill : home i ≠ some bin → (∀ p ∈ ps, ¬ spill p.2) → spill bin)
      (hroom : room (add (accumulated add zero ps bin) i)) :
      HomeFirst add zero home spill room (ps ++ [(i, bin)])

/-- There is room for the items one after the other. -/
def FitsInTurn (add : α → ι → α) (zero : α) (room : α → Prop) (items : List ι) : Prop :=
  ∀ l, l <+: items → l ≠ [] → room (l.foldl add zero)

variable {add : α → ι → α} {zero : α} {home : ι → Option β} {spill : β → Prop} {room : α → Prop}
  {ps : List (ι × β)}

theorem FitsInTurn.of_isPrefix {items items' : List ι} (h : FitsInTurn add zero room items')
    (hle : items <+: items') : FitsInTurn add zero room items :=
  fun l hl => h l (hl.trans hle)

theorem FitsInTurn.snoc {items : List ι} {i : ι} (h : FitsInTurn add zero room items)
    (hroom : room (add (items.foldl add zero) i)) : FitsInTurn add zero room (items ++ [i]) := by
  intro l hl hne
  rcases List.prefix_concat_iff.1 hl with rfl | hl
  · rw [List.foldl_append]
    exact hroom
  · exact h l hl hne

theorem homeItems_snoc (i : ι) (bin b : β) :
    homeItems home ((ps ++ [(i, bin)]).map Prod.fst) b =
      homeItems home (ps.map Prod.fst) b ++ if home i = some b then [i] else [] := by
  unfold homeItems
  rw [List.map_append, List.filter_append]
  split_ifs with hb <;> simp [hb]

theorem accumulated_eq_homeItems (h : ∀ p ∈ ps, home p.1 = some p.2) (bin : β) :
    accumulated add zero ps bin = (homeItems home (ps.map Prod.fst) bin).foldl add zero := by
  unfold accumulated homeItems
  rw [List.filter_map]
  congr 2
  refine List.filter_congr fun p hp => ?_
  simp [h p hp]

namespace HomeFirst

theorem at_home_of_not_spill (h : HomeFirst add zero home spill room ps)
    (hnot : ∀ p ∈ ps, ¬ spill p.2) : ∀ p ∈ ps, home p.1 = some p.2 := by
  induction h with
  | nil => exact fun p hp => absurd hp List.not_mem_nil
  | @snoc ps i bin h hhome hspill hroom ih =>
    obtain ⟨hold, hnew⟩ := List.forall_mem_append.1 hnot
    refine List.forall_mem_append.2 ⟨ih hold, List.forall_mem_singleton.2 ?_⟩
    by_contra hne
    exact List.forall_mem_singleton.1 hnew (hspill hne hold)

theorem fitsInTurn_of_at_home (h : HomeFirst add zero home spill room ps)
    (hat : ∀ p ∈ ps, home p.1 = some p.2) (bin : β) :
    FitsInTurn add zero room (homeItems home (ps.map Prod.fst) bin) := by
  induction h with
  | nil => exact fun l hl hne => absurd (List.prefix_nil.1 hl) hne
  | @snoc ps i bin₁ h hhome hspill hroom ih =>
    obtain ⟨hold, hnew⟩ := List.forall_mem_append.1 hat
    rw [homeItems_snoc]
    split_ifs with hb
    · obtain rfl : bin₁ = bin :=
        Option.some.inj ((List.forall_mem_singleton.1 hnew).symm.trans hb)
      exact (ih hold).snoc (accumulated_eq_homeItems hold bin₁ ▸ hroom)
    · rw [List.append_nil]
      exact ih hold

theorem at_home_of_fits (h : HomeFirst add zero home spill room ps)
    (hsome : ∀ p ∈ ps, (home p.1).isSome)
    (hfits : ∀ bin, FitsInTurn add zero room (homeItems home (ps.map Prod.fst) bin)) :
    ∀ p ∈ ps, home p.1 = some p.2 := by
  induction h with
  | nil => exact fun p hp => absurd hp List.not_mem_nil
  | @snoc ps i bin h hhome hspill hroom ih =>
    obtain ⟨hsomes, hsome⟩ := List.forall_mem_append.1 hsome
    have hold : ∀ p ∈ ps, home p.1 = some p.2 := by
      refine ih hsomes fun b => (hfits b).of_isPrefix ?_
      rw [homeItems_snoc]
      exact List.prefix_append _ _
    refine List.forall_mem_append.2 ⟨hold, List.forall_mem_singleton.2 ?_⟩
    obtain ⟨b, hb⟩ := Option.isSome_iff_exists.1 (hsome _ (List.mem_singleton_self _))
    have hfit := hfits b _ List.prefix_rfl
    rw [homeItems_snoc, if_pos hb, List.foldl_append, ← accumulated_eq_homeItems hold] at hfit
    rw [hhome b hb (hfit (by simp))]
    exact hb

/-- **No spill bin is used** iff every item has a home and the items of a home fit into it one after
the other. -/
theorem not_spill_iff (h : HomeFirst add zero home spill room ps)
    (hhomes : ∀ p ∈ ps, ∀ b, home p.1 = some b → ¬ spill b) :
    (∀ p ∈ ps, ¬ spill p.2) ↔ (∀ p ∈ ps, (home p.1).isSome) ∧
      ∀ bin, FitsInTurn add zero room (homeItems home (ps.map Prod.fst) bin) := by
  constructor
  · intro hnot
    have hhome := h.at_home_of_not_spill hnot
    exact ⟨fun p hp => by rw [hhome p hp]; rfl, h.fitsInTurn_of_at_home hhome⟩
  · rintro ⟨hsome, hfits⟩ p hp
    exact hhomes p hp p.2 (h.at_home_of_fits hsome hfits p hp)

end HomeFirst

end Timpani
