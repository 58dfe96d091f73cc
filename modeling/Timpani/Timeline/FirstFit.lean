import Mathlib.Data.List.Pairwise
import Mathlib.Data.Nat.Notation
import Mathlib.Order.Bounds.Defs
import Mathlib.Tactic.Common

/-!
# First fit on a timeline

Jobs are put on a timeline one after the other, each at the first free position of its window.

* `firstFit` : the search for a position;
* `isLeast_of_firstFit`, `not_fitsAt_of_firstFit` : **the search is optimal**, it finds the least
  position that fits, and nothing fits if it finds none;
* `placeJobs` : all jobs in turn;
* `end_le_of_placeJobs` : every job ends in its window;
* `pairwise_length_add_le` : the timeline is long enough for any two of the jobs.
-/

namespace Timpani

/-- An occupied stretch `[start, stop)` of the timeline. -/
structure Span where
  start : ℕ
  stop : ℕ
  deriving DecidableEq, Repr

/-- A job that has to lie in the window `[start, stop]`. -/
structure Job where
  start : ℕ
  length : ℕ
  stop : ℕ
  deriving DecidableEq, Repr

/-- A stretch of length `length` from `t` on would overlap the span. -/
def Span.blocks (t length : ℕ) (o : Span) : Bool :=
  decide (t < o.stop) && decide (o.start < t + length)

/-- The first free position: try `start`, and after a conflict the end of the span in the way. -/
def firstFit (occupied : List Span) (start length stop : ℕ) : Option ℕ :=
  if start + length ≤ stop then
    match _h : occupied.find? (Span.blocks start length) with
    | some o => firstFit occupied o.stop length stop
    | none => some start
  else none
termination_by stop + 1 - start
decreasing_by
  have hblocks := List.find?_some _h
  simp only [Span.blocks, Bool.and_eq_true, decide_eq_true_eq] at hblocks
  omega

/-- Place the jobs one after the other, and list what is occupied at the end. -/
def placeJobs : List Span → List Job → Option (List Span)
  | occupied, [] => some occupied
  | occupied, j :: js => (firstFit occupied j.start j.length j.stop).bind fun t =>
    placeJobs (occupied ++ [⟨t, t + j.length⟩]) js

variable {occupied spans : List Span} {start length stop t bound : ℕ} {j : Job} {js : List Job}

theorem firstFit_of_blocks {o : Span} (hfit : start + length ≤ stop)
    (hfind : occupied.find? (Span.blocks start length) = some o) :
    firstFit occupied start length stop = firstFit occupied o.stop length stop := by
  rw [firstFit, if_pos hfit]
  split
  · rename_i o' hfind'
    cases hfind.symm.trans hfind'
    rfl
  · rename_i hnone
    cases hfind.symm.trans hnone

theorem firstFit_of_free (hfit : start + length ≤ stop)
    (hfind : occupied.find? (Span.blocks start length) = none) :
    firstFit occupied start length stop = some start := by
  rw [firstFit, if_pos hfit]
  split
  · rename_i o hsome
    cases hfind.symm.trans hsome
  · rfl

theorem fit_of_firstFit (h : (firstFit occupied start length stop).isSome = true) :
    start + length ≤ stop := by
  by_contra hfit
  rw [firstFit, if_neg hfit] at h
  cases h

/-! ### Optimality -/

/-- A stretch of length `length` may begin at `t`: it lies in the window, beside every span. -/
structure FitsAt (occupied : List Span) (start length stop t : ℕ) : Prop where
  start_le : start ≤ t
  end_le : t + length ≤ stop
  free : ∀ o ∈ occupied, o.blocks t length = false

theorem Span.blocks_of_le {o : Span} (h : o.blocks start length = true) (hle : start ≤ t)
    (hlt : t < o.stop) : o.blocks t length = true := by
  simp only [Span.blocks, Bool.and_eq_true, decide_eq_true_eq] at h ⊢
  omega

/-- **A jump passes over nothing that fits**, whichever of the spans in the way it is taken from. -/
theorem fitsAt_iff_of_blocks {o : Span} (ho : o ∈ occupied) (h : o.blocks start length = true) :
    FitsAt occupied start length stop t ↔ FitsAt occupied o.stop length stop t := by
  constructor
  · intro hfit
    refine ⟨?_, hfit.end_le, hfit.free⟩
    by_contra hlt
    have hblocks := o.blocks_of_le h hfit.start_le (Nat.lt_of_not_le hlt)
    rw [hfit.free o ho] at hblocks
    cases hblocks
  · intro hfit
    have hlt : start < o.stop := by
      simp only [Span.blocks, Bool.and_eq_true, decide_eq_true_eq] at h
      exact h.1
    exact ⟨Nat.le_trans (Nat.le_of_lt hlt) hfit.start_le, hfit.end_le, hfit.free⟩

theorem isLeast_of_firstFit (h : firstFit occupied start length stop = some t) :
    IsLeast {t | FitsAt occupied start length stop t} t := by
  fun_induction firstFit occupied start length stop with
  | case1 start hfit o hfind ih =>
    have hjump : {t | FitsAt occupied start length stop t} =
        {t | FitsAt occupied o.stop length stop t} :=
      Set.ext fun _ => fitsAt_iff_of_blocks (List.mem_of_find?_eq_some hfind)
        (List.find?_some hfind)
    rw [hjump]
    exact ih h
  | case2 start hfit hfind =>
    cases h
    refine ⟨⟨Nat.le_refl _, hfit, fun o ho => ?_⟩, fun t ht => ht.start_le⟩
    simpa using List.find?_eq_none.1 hfind o ho
  | case3 => cases h

theorem not_fitsAt_of_firstFit (h : firstFit occupied start length stop = none) (t : ℕ) :
    ¬ FitsAt occupied start length stop t := by
  fun_induction firstFit occupied start length stop with
  | case1 start hfit o hfind ih =>
    rw [fitsAt_iff_of_blocks (List.mem_of_find?_eq_some hfind) (List.find?_some hfind)]
    exact ih h
  | case2 start hfit hfind => cases h
  | case3 start hfit =>
    intro hat
    have hstart := hat.start_le
    have hend := hat.end_le
    omega

theorem firstFit_spec (h : firstFit occupied start length stop = some t) :
    t + length ≤ stop ∧ ∀ o ∈ occupied, o.blocks t length = false :=
  ⟨(isLeast_of_firstFit h).1.end_le, (isLeast_of_firstFit h).1.free⟩

/-! ### Placing jobs -/

theorem placeJobs_cons_eq_some (h : placeJobs occupied (j :: js) = some spans) :
    ∃ t, firstFit occupied j.start j.length j.stop = some t ∧
      placeJobs (occupied ++ [⟨t, t + j.length⟩]) js = some spans :=
  Option.bind_eq_some_iff.1 h

/-- Every job ends in its window. -/
theorem end_le_of_placeJobs (h : placeJobs occupied js = some spans)
    (hocc : ∀ o ∈ occupied, o.stop ≤ bound) (hjs : ∀ j ∈ js, j.stop ≤ bound) :
    ∀ o ∈ spans, o.stop ≤ bound := by
  induction js generalizing occupied with
  | nil =>
    cases h
    exact hocc
  | cons j js ih =>
    obtain ⟨t, ht, h⟩ := placeJobs_cons_eq_some h
    rw [List.forall_mem_cons] at hjs
    refine ih h (List.forall_mem_append.2 ⟨hocc, ?_⟩) hjs.2
    rw [List.forall_mem_singleton]
    exact Nat.le_trans (firstFit_spec ht).1 hjs.1

theorem length_add_le_of_placeJobs (h : placeJobs occupied js = some spans)
    (hjs : ∀ j ∈ js, j.stop ≤ bound) {o : Span} (ho : o ∈ occupied) (hbound : o.stop ≤ bound)
    (hne : o.start < o.stop) : ∀ j ∈ js, 0 < j.length → o.stop - o.start + j.length ≤ bound := by
  induction js generalizing occupied with
  | nil => exact List.forall_mem_nil _
  | cons j js ih =>
    obtain ⟨t, ht, h⟩ := placeJobs_cons_eq_some h
    obtain ⟨hend, hfree⟩ := firstFit_spec ht
    rw [List.forall_mem_cons] at hjs ⊢
    refine ⟨fun hpos => ?_, ih h hjs.2 (List.mem_append_left _ ho)⟩
    have hapart := hfree o ho
    have hstop := hjs.1
    simp only [Span.blocks, Bool.and_eq_false_iff, decide_eq_false_iff_not] at hapart
    omega

/-- **Any two of the jobs fit on the timeline** together. -/
theorem pairwise_length_add_le (h : placeJobs occupied js = some spans)
    (hjs : ∀ j ∈ js, j.stop ≤ bound) :
    js.Pairwise fun i j => 0 < i.length → 0 < j.length → i.length + j.length ≤ bound := by
  induction js generalizing occupied with
  | nil => exact .nil
  | cons j js ih =>
    obtain ⟨t, ht, h⟩ := placeJobs_cons_eq_some h
    rw [List.forall_mem_cons] at hjs
    refine .cons (fun i hi hj hi0 => ?_) (ih h hjs.2)
    have hend := Nat.le_trans (firstFit_spec ht).1 hjs.1
    have hadd := length_add_le_of_placeJobs h hjs.2 (List.mem_append_right _ List.mem_cons_self)
      hend (Nat.lt_add_of_pos_right hj) i hi hi0
    rwa [Nat.add_sub_cancel_left] at hadd

end Timpani
