import Timpani.Scheduler.Budget
import Timpani.Timeline.Sweep
import Mathlib.Algebra.Order.Field.Rat
import Mathlib.Algebra.Order.Ring.Nat
import Mathlib.Data.Nat.Cast.Order.Ring
import Mathlib.Data.Set.Lattice

/-!
# The gaps between the slots

What `GlobalScheduler::compute_gaps` leaves for the CBS tasks: the loop over the slots is the sweep
of `Timpani.gapsFrom`, with a cursor of 32 bits and a list of gaps that grows at its end.

* `map_gapStretch_computeGaps` : as long as no slot ends behind the hyperperiod, the gaps are those
  of the sweep;
* `computeGaps_complement` : **the gaps are the exact complement of the slots**.

Points of the timeline are taken from any ordered semiring: the natural numbers are the ticks of the
scheduler, the real numbers the time that passes.
-/

namespace Timpani

namespace GlobalScheduler

section Stretches

variable (α : Type*) [Semiring α]

/-- The stretch of the timeline a slot covers. -/
def slotStretch (s : TtSlotPlacement) : α × α :=
  (s.offsetUs.toNat, (s.offsetUs.toNat + s.durationUs.toNat : ℕ))

def gapStretch (g : GapInterval) : α × α := (g.startUs.toNat, g.endUs.toNat)

end Stretches

/-! ### The loop -/

/-- The gaps once the loop is over, with the one behind the last slot. -/
def withTrailing (stop : UInt32) (st : List GapInterval × UInt32) : List GapInterval :=
  st.1 ++ if st.2 < stop then [gapBetween st.2 stop] else []

theorem computeGaps_eq (slots : List TtSlotPlacement) (hp : UInt64) :
    computeGaps slots hp = withTrailing hp.toUInt32 (slots.foldl gapStep ([], 0)) := by
  show (if _ then _ else _) = _
  rw [withTrailing]
  split_ifs
  · rfl
  · rw [List.append_nil]

variable {slots : List TtSlotPlacement} {hp : UInt64} {gaps : List GapInterval} {cursor : UInt32}
  {g : GapInterval}

theorem lengthUs_of_mem_foldl (hgaps : ∀ g ∈ gaps, g.lengthUs = g.endUs - g.startUs) :
    ∀ g ∈ (slots.foldl gapStep (gaps, cursor)).1, g.lengthUs = g.endUs - g.startUs := by
  induction slots generalizing gaps cursor with
  | nil => exact hgaps
  | cons s slots ih =>
    refine ih ?_
    split_ifs
    · rw [List.forall_mem_append, List.forall_mem_singleton]
      exact ⟨hgaps, rfl⟩
    · exact hgaps

theorem lengthUs_of_mem_computeGaps (h : g ∈ computeGaps slots hp) :
    g.lengthUs = g.endUs - g.startUs := by
  rw [computeGaps_eq, withTrailing, List.mem_append] at h
  rcases h with h | h
  · exact lengthUs_of_mem_foldl (List.forall_mem_nil _) g h
  · split_ifs at h
    · rw [List.mem_singleton.1 h]
      rfl
    · cases h

section Points

variable {α : Type*} [Semiring α] [LinearOrder α] [IsStrictOrderedRing α]

/-- **The loop is the sweep.** -/
theorem map_gapStretch_foldl (hend : ∀ s ∈ slots, s.offsetUs.toNat + s.durationUs.toNat ≤ hp.toNat)
    (hhp : hp.toNat < 2 ^ 32) :
    (withTrailing hp.toUInt32 (slots.foldl gapStep (gaps, cursor))).map (gapStretch α) =
      gaps.map (gapStretch α) ++
        gapsFrom (hp.toNat : α) cursor.toNat (slots.map (slotStretch α)) := by
  have hstop : hp.toUInt32.toNat = hp.toNat := by
    rw [UInt64.toNat_toUInt32, Nat.mod_eq_of_lt hhp]
  induction slots generalizing gaps cursor with
  | nil =>
    have hlt : cursor < hp.toUInt32 ↔ (cursor.toNat : α) < hp.toNat := by
      rw [UInt32.lt_iff_toNat_lt, hstop, Nat.cast_lt]
    rw [List.foldl_nil, withTrailing, List.map_append, List.map_nil, gapsFrom]
    by_cases h : cursor < hp.toUInt32
    · rw [if_pos h, if_pos (hlt.1 h), List.map_singleton, gapStretch, gapBetween, hstop]
    · rw [if_neg h, if_neg (mt hlt.2 h), List.map_nil]
  | cons s slots ih =>
    rw [List.forall_mem_cons] at hend
    have hsum : (s.offsetUs + s.durationUs).toNat = s.offsetUs.toNat + s.durationUs.toNat := by
      rw [UInt32.toNat_add, Nat.mod_eq_of_lt (hend.1.trans_lt hhp)]
    have hlt : cursor < s.offsetUs ↔ (cursor.toNat : α) < (slotStretch α s).1 := by
      rw [UInt32.lt_iff_toNat_lt]
      exact Nat.cast_lt.symm
    have hcursor : ((if s.offsetUs + s.durationUs > cursor then s.offsetUs + s.durationUs
        else cursor).toNat : α) =
          max (cursor.toNat : α) (slotStretch α s).2 := by
      rw [slotStretch, ← hsum, ← Nat.cast_max]
      congr 1
      split_ifs with h
      · rw [max_eq_right (UInt32.lt_iff_toNat_lt.1 h).le]
      · rw [max_eq_left (UInt32.le_iff_toNat_le.1 (UInt32.not_lt.1 h))]
    rw [List.foldl_cons, gapStep, ih hend.2, hcursor, List.map_cons, gapsFrom,
      ← List.append_assoc]
    congr 1
    by_cases h : cursor < s.offsetUs
    · rw [if_pos h, if_pos (hlt.1 h), List.map_append]
      rfl
    · rw [if_neg h, if_neg (mt hlt.2 h), List.append_nil]

theorem map_gapStretch_computeGaps
    (hend : ∀ s ∈ slots, s.offsetUs.toNat + s.durationUs.toNat ≤ hp.toNat)
    (hhp : hp.toNat < 2 ^ 32) :
    (computeGaps slots hp).map (gapStretch α) =
      gapsFrom (hp.toNat : α) 0 (slots.map (slotStretch α)) := by
  rw [computeGaps_eq, map_gapStretch_foldl hend hhp]
  simp

theorem exists_mem_computeGaps_iff (hsorted : slots.Pairwise fun a b => a.offsetUs ≤ b.offsetUs)
    (hend : ∀ s ∈ slots, s.offsetUs.toNat + s.durationUs.toNat ≤ hp.toNat)
    (hhp : hp.toNat < 2 ^ 32) {x : α} :
    (∃ g ∈ computeGaps slots hp, x ∈ Set.Ico (g.startUs.toNat : α) g.endUs.toNat) ↔
      x ∈ Set.Ico (0 : α) hp.toNat ∧ ∀ s ∈ slots,
        x ∉ Set.Ico (s.offsetUs.toNat : α) (s.offsetUs.toNat + s.durationUs.toNat : ℕ) := by
  have hsorted' : (slots.map (slotStretch α)).Pairwise fun p q => p.1 ≤ q.1 := by
    refine List.pairwise_map.2 (hsorted.imp fun h => ?_)
    exact Nat.cast_le.2 (UInt32.le_iff_toNat_le.1 h)
  have hslots : ∀ p ∈ slots.map (slotStretch α), p.1 ≤ p.2 ∧ p.2 ≤ (hp.toNat : α) := by
    rw [List.forall_mem_map]
    exact fun s hs => ⟨Nat.cast_le.2 (Nat.le_add_right _ _), Nat.cast_le.2 (hend s hs)⟩
  have hsweep := @exists_mem_gapsFrom_iff α _ hp.toNat 0 x _ hsorted' hslots
  rw [← map_gapStretch_computeGaps hend hhp, List.forall_mem_map] at hsweep
  simp only [List.mem_map, exists_exists_and_eq_and] at hsweep
  exact hsweep

end Points

/-- The gaps are increasing and disjoint; where two of them touch there is an empty slot. -/
theorem pairwise_computeGaps
    (hend : ∀ s ∈ slots, s.offsetUs.toNat + s.durationUs.toNat ≤ hp.toNat)
    (hhp : hp.toNat < 2 ^ 32) :
    (computeGaps slots hp).Pairwise fun g g' => g.endUs ≤ g'.startUs ∧
      (g.endUs = g'.startUs → ∃ s ∈ slots, s.offsetUs = g.endUs ∧ s.durationUs = 0) := by
  have hslots : ∀ p ∈ slots.map (slotStretch ℕ), p.1 ≤ p.2 := by
    rw [List.forall_mem_map]
    exact fun s _ => Nat.le_add_right _ _
  have hsweep := @pairwise_gapsFrom ℕ _ (hp.toNat : ℕ) 0 _ hslots
  rw [← Nat.cast_id hp.toNat, ← map_gapStretch_computeGaps hend hhp, List.pairwise_map] at hsweep
  refine hsweep.imp fun ⟨hle, htouch⟩ => ⟨UInt32.le_iff_toNat_le.2 hle, fun heq => ?_⟩
  obtain ⟨p, hp, hstart, hstop⟩ := htouch (congrArg UInt32.toNat heq)
  obtain ⟨s, hs, rfl⟩ := List.mem_map.1 hp
  simp only [slotStretch, gapStretch, Nat.cast_id] at hstart hstop
  refine ⟨s, hs, UInt32.toNat_inj.1 hstart, UInt32.toNat_inj.1 ?_⟩
  rw [UInt32.toNat_zero]
  omega

theorem startUs_lt_of_mem_computeGaps
    (hend : ∀ s ∈ slots, s.offsetUs.toNat + s.durationUs.toNat ≤ hp.toNat)
    (hhp : hp.toNat < 2 ^ 32) (h : g ∈ computeGaps slots hp) : g.startUs < g.endUs := by
  have hmem : gapStretch ℕ g ∈ (computeGaps slots hp).map (gapStretch ℕ) :=
    List.mem_map_of_mem h
  rw [map_gapStretch_computeGaps hend hhp] at hmem
  exact UInt32.lt_iff_toNat_lt.2 (lt_of_mem_gapsFrom hmem)

/-- **The gaps are the exact complement of the slots**, which may overlap, touch and be empty: they
are non-empty, increasing and disjoint, their lengths are right, and they cover the points of the
hyperperiod that lie in no slot.  Two gaps touch only at the offset of an empty slot. -/
theorem computeGaps_complement (α : Type*) [Semiring α] [LinearOrder α] [IsStrictOrderedRing α]
    (slots : List TtSlotPlacement) (hp : UInt64)
    (hsorted : slots.Pairwise fun a b => a.offsetUs ≤ b.offsetUs)
    (hend : ∀ s ∈ slots, s.offsetUs.toNat + s.durationUs.toNat ≤ hp.toNat)
    (hhp : hp.toNat < 2 ^ 32) :
    (∀ g ∈ computeGaps slots hp, g.startUs < g.endUs ∧
        g.lengthUs.toNat = g.endUs.toNat - g.startUs.toNat) ∧
      ((computeGaps slots hp).Pairwise fun g g' => g.endUs ≤ g'.startUs ∧
        (g.endUs = g'.startUs → ∃ s ∈ slots, s.offsetUs = g.endUs ∧ s.durationUs = 0)) ∧
      ⋃ g ∈ computeGaps slots hp, Set.Ico (g.startUs.toNat : α) g.endUs.toNat =
        Set.Ico (0 : α) hp.toNat \ ⋃ s ∈ slots,
          Set.Ico (s.offsetUs.toNat : α) (s.offsetUs.toNat + s.durationUs.toNat : ℕ) := by
  refine ⟨fun g hg => ?_, pairwise_computeGaps hend hhp, ?_⟩
  · have hlt := startUs_lt_of_mem_computeGaps hend hhp hg
    rw [lengthUs_of_mem_computeGaps hg, UInt32.toNat_sub_of_le _ _ (UInt32.le_of_lt hlt)]
    exact ⟨hlt, rfl⟩
  · ext x
    simp only [Set.mem_iUnion, Set.mem_sdiff, exists_prop, not_exists, not_and]
    exact exists_mem_computeGaps_iff hsorted hend hhp

/-- A slot that ends inside another one, one that touches it, and an empty one in a gap. -/
def nestedSlots : List TtSlotPlacement :=
  [(2, 6), (3, 2), (8, 1), (12, 0)].map fun (offset, duration) =>
    { workloadId := []
      taskId := []
      offsetUs := offset
      durationUs := duration
      deadlineUs := 30
      maxDmiss := 0
      cpu := 1 }

theorem computeGaps_complement_of_nested :
    ((computeGaps nestedSlots 30).Pairwise fun g g' => g.endUs ≤ g'.startUs ∧
        (g.endUs = g'.startUs → ∃ s ∈ nestedSlots, s.offsetUs = g.endUs ∧ s.durationUs = 0)) ∧
      ⋃ g ∈ computeGaps nestedSlots 30, Set.Ico (g.startUs.toNat : ℚ) g.endUs.toNat =
        Set.Ico (0 : ℚ) (30 : ℕ) \ ⋃ s ∈ nestedSlots,
          Set.Ico (s.offsetUs.toNat : ℚ) (s.offsetUs.toNat + s.durationUs.toNat : ℕ) :=
  (computeGaps_complement ℚ nestedSlots 30 (by decide) (by decide) (by decide)).2

end GlobalScheduler

end Timpani
