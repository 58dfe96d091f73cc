import Timpani.Scheduler.Validity
import Timpani.Timeline.FirstFit

/-!
# Overflow in the placement

The placement adds 32-bit times in four places: the deadline to the start of a frame, the duration
to a candidate of the search, the duration to the offset that was found, and, for the gaps, the
duration to the offset of a slot.  A negative field of a request is a time beyond `2 ^ 31`, so these
sums may leave their range; the comparisons that follow then use the wrapped values.

The slots are right as long as the sums are, that is iff the jobs of each CPU can be placed on a
timeline with unbounded integers, by the same search (`placeJobs`).

* `findFreeSlot_optimal` : a search whose sums stay in their range finds the least free position;
* `generationSums` : the sums of a generation, over the unbounded integers;
* `Packable` : **the same placement with unbounded integers succeeds**;
* `sums_lt_iff_packable` : no sum of a placement leaves its range iff the tasks are packable;
* `packable_of_wcet_le` : tasks without negative runtimes are.
-/

namespace Timpani

namespace GlobalScheduler

/-! ### The sums -/

/-- The sums `candidate + duration` of a search. -/
def searchSums (occupied : List Interval) (start duration deadlineEnd : UInt32) : List ℕ :=
  (start.toNat + duration.toNat) ::
    if start + duration ≤ deadlineEnd then
      match _h : occupied.find? (Interval.conflicts start duration) with
      | some occ => searchSums occupied occ.stop duration deadlineEnd
      | none => []
    else []
termination_by 2 ^ 32 - start.toNat
decreasing_by
  have hconf := List.find?_some _h
  simp only [Interval.conflicts, Bool.and_eq_true, decide_eq_true_eq] at hconf
  have hlt : start.toNat < occ.stop.toNat := UInt32.lt_iff_toNat_lt.1 hconf.1
  have := occ.stop.toNat_lt
  omega

/-- The sums of the placement of one frame: its deadline, the search, and the end of the slot. -/
def frameSums (hyperperiodUs : UInt64) (st : Placing) (frame : ClassifiedTask × ℕ) : List ℕ :=
  let task := frame.1
  let start := frameStart task frame.2
  let stop := frameEnd hyperperiodUs task frame.2
  let offset := findFreeSlot st.occupied start task.wcetUs stop
  (start.toNat + task.deadlineUs.toNat) :: searchSums st.occupied start task.wcetUs stop ++
    if offset < 0 then [] else [offset.toUInt32.toNat + task.wcetUs.toNat]

/-- The sums of the placement of frames, one after the other. -/
def placingSums (cpu : ℤ) (hyperperiodUs : UInt64) : Placing → List (ClassifiedTask × ℕ) → List ℕ
  | _, [] => []
  | st, f :: fs => frameSums hyperperiodUs st f ++
    match placeFrame cpu hyperperiodUs st f with
    | .ok st' => placingSums cpu hyperperiodUs st' fs
    | .error _ => []

/-- The sums of `compute_gaps`. -/
def gapSums (slots : List TtSlotPlacement) : List ℕ :=
  slots.map fun slot => slot.offsetUs.toNat + slot.durationUs.toNat

/-! ### The search -/

section Search

variable {occupied : List Interval} {start duration deadlineEnd : UInt32}

def Interval.toSpan (i : Interval) : Span := ⟨i.start.toNat, i.stop.toNat⟩

theorem searchSums_of_conflict {occ : Interval} (hfit : start + duration ≤ deadlineEnd)
    (hfind : occupied.find? (Interval.conflicts start duration) = some occ) :
    searchSums occupied start duration deadlineEnd =
      (start.toNat + duration.toNat) :: searchSums occupied occ.stop duration deadlineEnd := by
  rw [searchSums, if_pos hfit]
  split
  · rename_i occ' hfind'
    cases hfind.symm.trans hfind'
    rfl
  · rename_i hnone
    cases hfind.symm.trans hnone

theorem searchSums_of_free (hfind : occupied.find? (Interval.conflicts start duration) = none) :
    searchSums occupied start duration deadlineEnd = [start.toNat + duration.toNat] := by
  rw [searchSums]
  split_ifs
  · split
    · rename_i occ hsome
      cases hfind.symm.trans hsome
    · rfl
  · rfl

theorem blocks_toSpan (h : start.toNat + duration.toNat < 2 ^ 32) (occ : Interval) :
    occ.toSpan.blocks start.toNat duration.toNat = occ.conflicts start duration := by
  show (decide (start.toNat < occ.stop.toNat) &&
    decide (occ.start.toNat < start.toNat + duration.toNat)) = _
  rw [Bool.eq_iff_iff]
  simp only [Interval.conflicts, Bool.and_eq_true, decide_eq_true_eq,
    gt_iff_lt, UInt32.lt_iff_toNat_lt, UInt32.toNat_add, Nat.mod_eq_of_lt h]

theorem find?_toSpan (h : start.toNat + duration.toNat < 2 ^ 32) :
    (occupied.map Interval.toSpan).find? (Span.blocks start.toNat duration.toNat) =
      (occupied.find? (Interval.conflicts start duration)).map Interval.toSpan := by
  rw [List.find?_map]
  congr 2
  funext occ
  exact blocks_toSpan h occ

theorem fit_toNat (h : start.toNat + duration.toNat < 2 ^ 32) :
    start + duration ≤ deadlineEnd ↔ start.toNat + duration.toNat ≤ deadlineEnd.toNat := by
  rw [UInt32.le_iff_toNat_le, UInt32.toNat_add, Nat.mod_eq_of_lt h]

/-- **The search without wrapping** is the search with unbounded integers. -/
theorem findFreeSlot_of_searchSums
    (hsums : ∀ x ∈ searchSums occupied start duration deadlineEnd, x < 2 ^ 32) :
    (findFreeSlot occupied start duration deadlineEnd = -1 ∧
        firstFit (occupied.map Interval.toSpan) start.toNat duration.toNat deadlineEnd.toNat =
          none) ∨
      ∃ c : UInt32, findFreeSlot occupied start duration deadlineEnd = c.toInt32 ∧
        firstFit (occupied.map Interval.toSpan) start.toNat duration.toNat deadlineEnd.toNat =
          some c.toNat := by
  fun_induction findFreeSlot occupied start duration deadlineEnd with
  | case1 start hfit occ hfind ih =>
    rw [searchSums_of_conflict hfit hfind, List.forall_mem_cons] at hsums
    rw [fit_toNat hsums.1] at hfit
    rw [firstFit_of_blocks hfit (by rw [find?_toSpan hsums.1, hfind]; rfl)]
    exact ih hsums.2
  | case2 start hfit hfind =>
    rw [searchSums_of_free hfind, List.forall_mem_singleton] at hsums
    rw [fit_toNat hsums] at hfit
    exact Or.inr ⟨start, rfl,
      firstFit_of_free hfit (by rw [find?_toSpan hsums, hfind]; rfl)⟩
  | case3 start hfit =>
    rw [searchSums, if_neg hfit, List.forall_mem_singleton] at hsums
    rw [fit_toNat hsums] at hfit
    exact Or.inl ⟨rfl, by rw [firstFit, if_neg hfit]⟩

theorem firstFit_of_searchSums (hok : ¬ findFreeSlot occupied start duration deadlineEnd < 0)
    (hsums : ∀ x ∈ searchSums occupied start duration deadlineEnd, x < 2 ^ 32) :
    firstFit (occupied.map Interval.toSpan) start.toNat duration.toNat deadlineEnd.toNat =
      some (findFreeSlot occupied start duration deadlineEnd).toUInt32.toNat := by
  obtain ⟨hnone, -⟩ | ⟨c, hc, hfit⟩ := findFreeSlot_of_searchSums hsums
  · rw [hnone] at hok
    exact absurd (by decide) hok
  · rw [hc, UInt32.toUInt32_toInt32, hfit]

theorem searchSums_lt_of_firstFit (h : (firstFit (occupied.map Interval.toSpan) start.toNat
      duration.toNat deadlineEnd.toNat).isSome = true) :
    ∀ x ∈ searchSums occupied start duration deadlineEnd, x < 2 ^ 32 := by
  have hstop := deadlineEnd.toNat_lt
  fun_induction findFreeSlot occupied start duration deadlineEnd with
  | case1 start hfit occ hfind ih =>
    have hsum : start.toNat + duration.toNat < 2 ^ 32 := (fit_of_firstFit h).trans_lt hstop
    rw [searchSums_of_conflict hfit hfind, List.forall_mem_cons]
    refine ⟨hsum, ih ?_⟩
    rwa [firstFit_of_blocks (fit_of_firstFit h) (by rw [find?_toSpan hsum, hfind]; rfl)] at h
  | case2 start hfit hfind =>
    rw [searchSums_of_free hfind, List.forall_mem_singleton]
    exact (fit_of_firstFit h).trans_lt hstop
  | case3 start hfit =>
    have hsum : start.toNat + duration.toNat < 2 ^ 32 := (fit_of_firstFit h).trans_lt hstop
    exact absurd ((fit_toNat hsum).2 (fit_of_firstFit h)) hfit

theorem searchSums_le (hok : ¬ findFreeSlot occupied start duration deadlineEnd < 0) :
    ∀ x ∈ searchSums occupied start duration deadlineEnd,
      x ≤ (findFreeSlot occupied start duration deadlineEnd).toUInt32.toNat + duration.toNat := by
  fun_induction findFreeSlot occupied start duration deadlineEnd with
  | case1 start hfit occ hfind ih =>
    rw [searchSums_of_conflict hfit hfind, List.forall_mem_cons]
    refine ⟨?_, ih hok⟩
    have hconf := List.find?_some hfind
    simp only [Interval.conflicts, Bool.and_eq_true, decide_eq_true_eq,
      UInt32.lt_iff_toNat_lt] at hconf
    have hle := UInt32.le_iff_toNat_le.1 (findFreeSlot_spec hok).start_le
    omega
  | case2 start hfit hfind =>
    rw [searchSums_of_free hfind, List.forall_mem_singleton, UInt32.toUInt32_toInt32]
  | case3 => exact absurd (by decide) hok

/-- A slot may begin at `t`: the sums are those of the unbounded integers. -/
structure FreeAt (occupied : List Interval) (start duration deadlineEnd : UInt32) (t : ℕ) :
    Prop where
  start_le : start.toNat ≤ t
  end_le : t + duration.toNat ≤ deadlineEnd.toNat
  free : ∀ occ ∈ occupied, ¬ (t < occ.stop.toNat ∧ t + duration.toNat > occ.start.toNat)

theorem freeAt_iff_fitsAt {t : ℕ} : FreeAt occupied start duration deadlineEnd t ↔
    FitsAt (occupied.map Interval.toSpan) start.toNat duration.toNat deadlineEnd.toNat t := by
  have hfree : (∀ o ∈ occupied.map Interval.toSpan, o.blocks t duration.toNat = false) ↔
      ∀ occ ∈ occupied, ¬ (t < occ.stop.toNat ∧ t + duration.toNat > occ.start.toNat) := by
    simp [Interval.toSpan, Span.blocks]
  exact ⟨fun h => ⟨h.start_le, h.end_le, hfree.2 h.free⟩,
    fun h => ⟨h.start_le, h.end_le, hfree.1 h.free⟩⟩

theorem toInt_toInt32_of_lt {c : UInt32} (h : c.toNat < 2 ^ 31) : c.toInt32.toInt = c.toNat := by
  have hbits : c.toBitVec.toNat = c.toNat := rfl
  rw [show c.toInt32.toInt = c.toBitVec.toInt from rfl, BitVec.toInt_eq_toNat_of_lt (by omega),
    hbits]

/-- **First fit is optimal.** As long as no sum of the search wraps and the deadline is below
`2 ^ 31`, the search returns the least position at which the slot may begin, and `-1` iff there is
no such position; the order of the occupied intervals does not matter, nor whether they overlap. -/
theorem findFreeSlot_optimal (occupied : List Interval) (start duration deadlineEnd : UInt32)
    (hsums : ∀ x ∈ searchSums occupied start duration deadlineEnd, x < 2 ^ 32)
    (hdeadline : deadlineEnd.toNat < 2 ^ 31) :
    ((∃ t, FreeAt occupied start duration deadlineEnd t) →
        ∃ t : ℕ, (findFreeSlot occupied start duration deadlineEnd).toInt = t ∧
          IsLeast {t | FreeAt occupied start duration deadlineEnd t} t) ∧
      (findFreeSlot occupied start duration deadlineEnd = -1 ↔
        ¬ ∃ t, FreeAt occupied start duration deadlineEnd t) := by
  simp only [freeAt_iff_fitsAt]
  obtain ⟨hnone, hfit⟩ | ⟨c, hc, hfit⟩ := findFreeSlot_of_searchSums hsums
  · have hnot := not_exists.2 (not_fitsAt_of_firstFit hfit)
    exact ⟨fun h => absurd h hnot, fun _ => hnot, fun _ => hnone⟩
  · have hleast := isLeast_of_firstFit hfit
    have hend := hleast.1.end_le
    have hint : (findFreeSlot occupied start duration deadlineEnd).toInt = c.toNat := by
      rw [hc, toInt_toInt32_of_lt (by omega)]
    refine ⟨fun _ => ⟨c.toNat, hint, hleast⟩, fun hneg => ?_, fun h => absurd ⟨_, hleast.1⟩ h⟩
    have hminus : (-1 : Int32).toInt = -1 := by decide
    rw [hneg] at hint
    omega

/-- The first interval in the way is not the earliest, and the search jumps three times. -/
theorem findFreeSlot_optimal_unsorted :
    (∃ t : ℕ, (findFreeSlot [⟨3, 7⟩, ⟨0, 4⟩, ⟨8, 10⟩] 0 2 20).toInt = t ∧
        IsLeast {t | FreeAt [⟨3, 7⟩, ⟨0, 4⟩, ⟨8, 10⟩] 0 2 20 t} t) ∧
      findFreeSlot [⟨3, 7⟩, ⟨0, 4⟩, ⟨8, 10⟩] 0 2 20 ≠ -1 := by
  have hsums : ∀ x ∈ searchSums [⟨3, 7⟩, ⟨0, 4⟩, ⟨8, 10⟩] 0 2 20, x < 2 ^ 32 := by
    rw [@searchSums_of_conflict _ _ _ _ ⟨0, 4⟩ (by decide) (by decide),
      @searchSums_of_conflict _ _ _ _ ⟨3, 7⟩ (by decide) (by decide),
      @searchSums_of_conflict _ _ _ _ ⟨8, 10⟩ (by decide) (by decide),
      searchSums_of_free (by decide)]
    simp
  have hfree : ∃ t, FreeAt [⟨3, 7⟩, ⟨0, 4⟩, ⟨8, 10⟩] 0 2 20 t := ⟨10, by simp, by simp, by simp⟩
  obtain ⟨hleast, hneg⟩ := findFreeSlot_optimal [⟨3, 7⟩, ⟨0, 4⟩, ⟨8, 10⟩] 0 2 20 hsums (by simp)
  exact ⟨hleast hfree, fun h => hneg.1 h hfree⟩

end Search

/-! ### Frames -/

section Frames

variable {cpu : ℤ} {hp : UInt64} {st st' : Placing} {t : ClassifiedTask} {k : ℕ}

/-- The job of a frame, on a timeline of length `hp`. -/
def frameJob (hp : ℕ) (frame : ClassifiedTask × ℕ) : Job where
  start := frame.2 * frame.1.periodUs.toNat
  length := frame.1.wcetUs.toNat
  stop := min (frame.2 * frame.1.periodUs.toNat + frame.1.deadlineUs.toNat) hp

/-- The time a slot is meant to occupy. -/
def slotSpan (s : TtSlotPlacement) : Span :=
  ⟨s.offsetUs.toNat, s.offsetUs.toNat + s.durationUs.toNat⟩

/-- The intervals the code has noted are the ones the slots are meant to occupy. -/
def Exact (st : Placing) : Prop := st.occupied.map Interval.toSpan = st.ttSlots.map slotSpan

theorem forall_frameSums {f : ClassifiedTask × ℕ} {P : ℕ → Prop}
    (hneg : ¬ findFreeSlot st.occupied (frameStart f.1 f.2) f.1.wcetUs (frameEnd hp f.1 f.2) < 0) :
    (∀ x ∈ frameSums hp st f, P x) ↔
      P ((frameStart f.1 f.2).toNat + f.1.deadlineUs.toNat) ∧
        (∀ x ∈ searchSums st.occupied (frameStart f.1 f.2) f.1.wcetUs (frameEnd hp f.1 f.2), P x) ∧
        P ((findFreeSlot st.occupied (frameStart f.1 f.2) f.1.wcetUs
          (frameEnd hp f.1 f.2)).toUInt32.toNat + f.1.wcetUs.toNat) := by
  unfold frameSums
  dsimp only
  rw [if_neg hneg, List.forall_mem_append, List.forall_mem_cons, List.forall_mem_singleton,
    and_assoc]

theorem Exact.firstFit_of_frameSums (h : Exact st) (hhp : hp.toNat < 2 ^ 32)
    (hk : k < repeats hp t) (hst : placeFrame cpu hp st (t, k) = .ok st')
    (hsums : ∀ x ∈ frameSums hp st (t, k), x < 2 ^ 32) :
    ∃ c, firstFit (st.ttSlots.map slotSpan) (frameJob hp.toNat (t, k)).start
        (frameJob hp.toNat (t, k)).length (frameJob hp.toNat (t, k)).stop = some c ∧
      st'.ttSlots.map slotSpan =
        st.ttSlots.map slotSpan ++ [⟨c, c + (frameJob hp.toNat (t, k)).length⟩] ∧ Exact st' := by
  obtain ⟨hneg, c, hc, -, rfl⟩ := placeFrame_eq_ok hst
  obtain ⟨hdeadline, hsearch, hend⟩ := (forall_frameSums hneg).1 hsums
  have hfit := firstFit_of_searchSums hneg hsearch
  rw [← hc] at hfit hend
  rw [frameStart_toNat hhp hk] at hdeadline hfit
  rw [frameEnd_toNat hhp hk hdeadline, h] at hfit
  refine ⟨c.toNat, hfit, ?_, ?_⟩
  · rw [List.map_append, List.map_singleton]
    rfl
  · have hspan : (slotInterval (slotAt cpu t c)).toSpan = slotSpan (slotAt cpu t c) := by
      show Span.mk c.toNat (c + t.wcetUs).toNat = ⟨c.toNat, c.toNat + t.wcetUs.toNat⟩
      rw [UInt32.toNat_add, Nat.mod_eq_of_lt hend]
    unfold Exact
    rw [List.map_append, List.map_append, h, List.map_singleton, List.map_singleton, hspan]

theorem Exact.frameSums_lt (h : Exact st) (hhp : hp.toNat < 2 ^ 32) (hk : k < repeats hp t)
    (hst : placeFrame cpu hp st (t, k) = .ok st') (hlong : 2 ^ 31 < t.wcetUs.toNat → k = 0)
    (hfit : (firstFit (st.ttSlots.map slotSpan) (frameJob hp.toNat (t, k)).start
        (frameJob hp.toNat (t, k)).length (frameJob hp.toNat (t, k)).stop).isSome = true) :
    ∀ x ∈ frameSums hp st (t, k), x < 2 ^ 32 := by
  obtain ⟨hneg, c, -, hfree, -⟩ := placeFrame_eq_ok hst
  rw [forall_frameSums hneg]
  have hdeadline : k * t.periodUs.toNat + t.deadlineUs.toNat < 2 ^ 32 := by
    by_cases hw : t.wcetUs.toNat ≤ 2 ^ 31
    · have hlt := hfree.lt
      exact deadline_lt_of_end_le hhp hk (by omega) hfree.start_le hfree.end_le
    · rw [hlong (Nat.not_le.1 hw), Nat.zero_mul, Nat.zero_add]
      exact t.deadlineUs.toNat_lt
  have hfit' : (firstFit (st.occupied.map Interval.toSpan) (frameStart t k).toNat t.wcetUs.toNat
      (frameEnd hp t k).toNat).isSome = true := by
    rw [frameStart_toNat hhp hk, frameEnd_toNat hhp hk hdeadline, h]
    exact hfit
  have hsearch := searchSums_lt_of_firstFit hfit'
  refine ⟨by rwa [frameStart_toNat hhp hk], hsearch, ?_⟩
  have hend := (firstFit_spec (firstFit_of_searchSums hneg hsearch)).1
  exact hend.trans_lt (frameEnd hp t k).toNat_lt

/-- **Frames that are placed without wrapping** are placed as with unbounded integers. -/
theorem placeJobs_of_placingSums {fs : List (ClassifiedTask × ℕ)} (hhp : hp.toNat < 2 ^ 32)
    (hfs : ∀ f ∈ fs, f.2 < repeats hp f.1) (hst : fs.foldlM (placeFrame cpu hp) st = .ok st')
    (h : Exact st) (hsums : ∀ x ∈ placingSums cpu hp st fs, x < 2 ^ 32) :
    placeJobs (st.ttSlots.map slotSpan) (fs.map (frameJob hp.toNat)) =
      some (st'.ttSlots.map slotSpan) := by
  induction fs generalizing st with
  | nil =>
    cases hst
    rfl
  | cons f fs ih =>
    rw [List.forall_mem_cons] at hfs
    obtain ⟨st₁, hst₁, hst⟩ := bind_eq_ok.1 hst
    rw [placingSums, hst₁, List.forall_mem_append] at hsums
    obtain ⟨c, hc, hslots, hexact⟩ := h.firstFit_of_frameSums hhp hfs.1 hst₁ hsums.1
    rw [List.map_cons, placeJobs, hc, Option.bind_some, ← hslots]
    exact ih hfs.2 hst hexact hsums.2

/-- **Frames that can be placed with unbounded integers** are placed without wrapping. -/
theorem placingSums_lt {fs : List (ClassifiedTask × ℕ)} (hhp : hp.toNat < 2 ^ 32)
    (hfs : ∀ f ∈ fs, f.2 < repeats hp f.1)
    (hlong : ∀ f ∈ fs, 2 ^ 31 < f.1.wcetUs.toNat → f.2 = 0)
    (hst : fs.foldlM (placeFrame cpu hp) st = .ok st') (h : Exact st)
    (hplace : (placeJobs (st.ttSlots.map slotSpan) (fs.map (frameJob hp.toNat))).isSome = true) :
    ∀ x ∈ placingSums cpu hp st fs, x < 2 ^ 32 := by
  induction fs generalizing st with
  | nil => exact List.forall_mem_nil _
  | cons f fs ih =>
    rw [List.forall_mem_cons] at hfs hlong
    obtain ⟨st₁, hst₁, hst⟩ := bind_eq_ok.1 hst
    obtain ⟨spans, hspans⟩ := Option.isSome_iff_exists.1 hplace
    obtain ⟨c, hc, hrest⟩ := placeJobs_cons_eq_some hspans
    have hframe := h.frameSums_lt hhp hfs.1 hst₁ hlong.1 (by rw [hc]; rfl)
    obtain ⟨c', hc', hslots, hexact⟩ := h.firstFit_of_frameSums hhp hfs.1 hst₁ hframe
    cases hc.symm.trans hc'
    rw [placingSums, hst₁, List.forall_mem_append]
    refine ⟨hframe, ih hfs.2 hlong.2 hst hexact ?_⟩
    rw [hslots, hrest]
    rfl

end Frames

/-! ### One CPU -/

section Cpu

variable {U : Type} {G : GlobalScheduler U} {cpu : ℤ} {ts : List ClassifiedTask}

/-- The jobs of the tasks of a CPU, in the order of the placement, over the least common multiple of
their periods. -/
def jobs (G : GlobalScheduler U) (ts : List ClassifiedTask) : List Job :=
  (G.stdSort.sort (fun a b => decide (a.deadlineUs < b.deadlineUs)) ts).flatMap fun t =>
    if t.periodUs = 0 then []
    else (List.range (lcmPeriods ts / t.periodUs.toNat)).map fun k =>
      frameJob (lcmPeriods ts) (t, k)

/-- **The same placement with unbounded integers succeeds.** -/
def Packable (G : GlobalScheduler U) (ts : List ClassifiedTask) : Prop :=
  (placeJobs [] (jobs G ts)).isSome = true

instance (G : GlobalScheduler U) (ts : List ClassifiedTask) : Decidable (Packable G ts) :=
  inferInstanceAs (Decidable (_ = true))

/-- The sums of `place_tt_slots`. -/
def placeTtSums (G : GlobalScheduler U) (cpu : ℤ) (ttTasks : List ClassifiedTask)
    (hyperperiodUs : UInt64) (schedule : PerCpuSchedule U) : List ℕ :=
  placingSums cpu hyperperiodUs { ttSlots := schedule.ttSlots, occupied := [] }
    (frames hyperperiodUs
      (G.stdSort.sort (fun a b => decide (a.deadlineUs < b.deadlineUs)) ttTasks))

theorem mem_frames {hp : UInt64} {f : ClassifiedTask × ℕ} :
    f ∈ frames hp ts ↔ f.1 ∈ ts ∧ f.1.periodUs ≠ 0 ∧ f.2 < repeats hp f.1 := by
  obtain ⟨t, k⟩ := f
  rw [frames, List.mem_flatMap]
  constructor
  · rintro ⟨t', ht', hf⟩
    split_ifs at hf with h0
    · cases hf
    · obtain ⟨k', hk', heq⟩ := List.mem_map.1 hf
      cases heq
      exact ⟨ht', h0, List.mem_range.1 hk'⟩
  · rintro ⟨ht, h0, hk⟩
    refine ⟨t, ht, ?_⟩
    rw [if_neg h0]
    exact List.mem_map_of_mem (List.mem_range.2 hk)

theorem map_frameJob_frames {hp : UInt64} (hhp : hp.toNat = lcmPeriods ts) :
    (frames hp (G.stdSort.sort (fun a b => decide (a.deadlineUs < b.deadlineUs)) ts)).map
      (frameJob hp.toNat) = jobs G ts := by
  rw [frames, jobs, List.map_flatMap]
  refine List.flatMap_congr fun t _ => ?_
  split_ifs
  · rfl
  · rw [repeats, UInt64.toNat_div, UInt32.toNat_toUInt64, hhp, List.map_map]
    rfl

theorem stop_le_of_mem_jobs : ∀ j ∈ jobs G ts, j.stop ≤ lcmPeriods ts := by
  intro j hj
  obtain ⟨t, -, hj⟩ := List.mem_flatMap.1 hj
  split_ifs at hj
  · cases hj
  · obtain ⟨k, -, rfl⟩ := List.mem_map.1 hj
    exact Nat.min_le_right _ _

theorem Packable.eq_zero_of_long (h : Packable G ts) (hlt : lcmPeriods ts < 2 ^ 32)
    {t : ClassifiedTask} (ht : t ∈ ts) (h0 : t.periodUs ≠ 0) {k : ℕ}
    (hk : k < lcmPeriods ts / t.periodUs.toNat) (hlong : 2 ^ 31 < t.wcetUs.toNat) : k = 0 := by
  by_contra hne
  obtain ⟨spans, hspans⟩ := Option.isSome_iff_exists.1 h
  have hpair := pairwise_length_add_le hspans stop_le_of_mem_jobs
  have hmem := (G.stdSort.perm byDeadline_strictWeak ts).mem_iff.2 ht
  have hinner := (List.pairwise_flatMap.1 hpair).1 t hmem
  rw [if_neg h0, List.pairwise_map] at hinner
  have hadd := List.pairwise_iff_getElem.1 hinner 0 k (by rw [List.length_range]; omega)
    (by rwa [List.length_range]) (Nat.pos_of_ne_zero hne)
  have hadd : t.wcetUs.toNat + t.wcetUs.toNat ≤ lcmPeriods ts :=
    hadd (lt_trans (by decide) hlong) (lt_trans (by decide) hlong)
  omega

variable {schedule schedule' : PerCpuSchedule U}

theorem exists_placed (hharm : validateHarmonic (periodsOf ts) = true)
    (h : G.placeTtSlots cpu ts (calculateHyperperiod (periodsOf ts)) schedule = .ok schedule')
    (hblank : schedule.ttSlots = []) :
    (calculateHyperperiod (periodsOf ts)).toNat = lcmPeriods ts ∧ lcmPeriods ts < 2 ^ 32 ∧
      ∃ placed, (frames (calculateHyperperiod (periodsOf ts)) (G.stdSort.sort
          (fun a b => decide (a.deadlineUs < b.deadlineUs)) ts)).foldlM
          (placeFrame cpu (calculateHyperperiod (periodsOf ts))) ⟨[], []⟩ = .ok placed ∧
        schedule'.ttSlots.Perm placed.ttSlots := by
  unfold placeTtSlots at h
  split_ifs at h with h0
  obtain ⟨placed, hplaced, h⟩ := bind_eq_ok.1 h
  cases h
  rw [hblank, foldlM_placeTask] at hplaced
  have hne : periodsOf ts ≠ [] := by
    intro hnil
    rw [hnil] at h0
    exact h0 rfl
  obtain ⟨p, hp⟩ := List.exists_mem_of_ne_nil _ hne
  obtain ⟨t, ht, hp0, -⟩ := mem_periodsOf.1 hp
  obtain ⟨hhp, t', -, hlcm⟩ := hyperperiod_facts ht hp0 hharm
  exact ⟨hhp, hlcm ▸ t'.periodUs.toNat_lt, placed, hplaced,
    G.stdSort.perm byOffset_strictWeak placed.ttSlots⟩

/-- **No sum of a placement leaves its range iff the tasks are packable.** -/
theorem sums_lt_iff_packable (hharm : validateHarmonic (periodsOf ts) = true)
    (h : G.placeTtSlots cpu ts (calculateHyperperiod (periodsOf ts)) schedule = .ok schedule')
    (hblank : schedule.ttSlots = []) :
    (∀ x ∈ placeTtSums G cpu ts (calculateHyperperiod (periodsOf ts)) schedule, x < 2 ^ 32) ↔
      Packable G ts := by
  obtain ⟨hhp, hlt, placed, hplaced, -⟩ := exists_placed hharm h hblank
  have hlt' := hhp ▸ hlt
  have hrange : ∀ f ∈ frames (calculateHyperperiod (periodsOf ts)) (G.stdSort.sort
      (fun a b => decide (a.deadlineUs < b.deadlineUs)) ts),
      f.2 < repeats (calculateHyperperiod (periodsOf ts)) f.1 := fun f hf => (mem_frames.1 hf).2.2
  rw [placeTtSums, hblank]
  constructor
  · intro hsums
    have hjobs := placeJobs_of_placingSums hlt' hrange hplaced rfl hsums
    rw [map_frameJob_frames hhp] at hjobs
    exact Option.isSome_iff_exists.2 ⟨_, hjobs⟩
  · intro hpackable
    refine placingSums_lt hlt' hrange (fun f hf hlong => ?_) hplaced rfl ?_
    · obtain ⟨ht, h0, hk⟩ := mem_frames.1 hf
      rw [repeats, UInt64.toNat_div, UInt32.toNat_toUInt64, hhp] at hk
      have ht := (G.stdSort.perm byDeadline_strictWeak ts).mem_iff.1 ht
      exact hpackable.eq_zero_of_long hlt ht h0 hk hlong
    · rw [map_frameJob_frames hhp]
      exact hpackable

theorem Packable.end_le (hpackable : Packable G ts)
    (hharm : validateHarmonic (periodsOf ts) = true)
    (h : G.placeTtSlots cpu ts (calculateHyperperiod (periodsOf ts)) schedule = .ok schedule')
    (hblank : schedule.ttSlots = []) : ∀ s ∈ schedule'.ttSlots,
      s.offsetUs.toNat + s.durationUs.toNat ≤ lcmPeriods ts ∧ lcmPeriods ts < 2 ^ 32 := by
  intro s hs
  have hsums := (sums_lt_iff_packable hharm h hblank).2 hpackable
  obtain ⟨hhp, hlt, placed, hplaced, hperm⟩ := exists_placed hharm h hblank
  rw [placeTtSums, hblank] at hsums
  have hjobs := placeJobs_of_placingSums (hhp ▸ hlt) (fun f hf => (mem_frames.1 hf).2.2) hplaced rfl
    hsums
  rw [map_frameJob_frames hhp] at hjobs
  exact ⟨end_le_of_placeJobs hjobs (List.forall_mem_nil _) stop_le_of_mem_jobs _
    (List.mem_map_of_mem (hperm.mem_iff.1 hs)), hlt⟩

theorem subset_of_foldlM_placeFrame {hp : UInt64} {st st' : Placing}
    {fs : List (ClassifiedTask × ℕ)} (hst : fs.foldlM (placeFrame cpu hp) st = .ok st') :
    st.ttSlots ⊆ st'.ttSlots := by
  induction fs generalizing st with
  | nil =>
    cases hst
    exact List.Subset.refl _
  | cons f fs ih =>
    obtain ⟨st₁, hst₁, hst⟩ := bind_eq_ok.1 hst
    obtain ⟨-, c, -, -, rfl⟩ := placeFrame_eq_ok hst₁
    exact List.Subset.trans (List.subset_append_left _ _) (ih hst)

theorem frameSums_lt_of_end {hp : UInt64} {st st' : Placing} {f : ClassifiedTask × ℕ}
    (hhp : hp.toNat < 2 ^ 32) (hk : f.2 < repeats hp f.1)
    (hst : placeFrame cpu hp st f = .ok st')
    (hend : ∀ c, FirstFree st.occupied (frameStart f.1 f.2) f.1.wcetUs (frameEnd hp f.1 f.2) c →
      slotAt cpu f.1 c ∈ st'.ttSlots → c.toNat + f.1.wcetUs.toNat < 2 ^ 32) :
    ∀ x ∈ frameSums hp st f, x < 2 ^ 32 := by
  obtain ⟨hneg, c, hc, hfree, rfl⟩ := placeFrame_eq_ok hst
  have hwrap := hend c hfree (List.mem_append_right _ (List.mem_singleton_self _))
  rw [forall_frameSums hneg, frameStart_toNat hhp hk, ← hc]
  refine ⟨deadline_lt_of_end_le hhp hk hwrap hfree.start_le hfree.end_le, fun x hx => ?_, hwrap⟩
  have hle := searchSums_le hneg x hx
  rw [← hc] at hle
  omega

/-- **Tasks whose slots do not wrap** are packable, if the code has placed them. -/
theorem packable_of_end_lt (hharm : validateHarmonic (periodsOf ts) = true)
    (h : G.placeTtSlots cpu ts (calculateHyperperiod (periodsOf ts)) schedule = .ok schedule')
    (hblank : schedule.ttSlots = [])
    (hend : ∀ t ∈ ts, t.periodUs ≠ 0 → ∀ c : UInt32, c.toNat < 2 ^ 31 →
      slotAt cpu t c ∈ schedule'.ttSlots → c.toNat + t.wcetUs.toNat < 2 ^ 32) : Packable G ts := by
  rw [← sums_lt_iff_packable hharm h hblank, placeTtSums, hblank]
  obtain ⟨hhp, hlt, placed, hplaced, hperm⟩ := exists_placed hharm h hblank
  have hframes : ∀ fs st, (∀ f ∈ fs, f.2 < repeats (calculateHyperperiod (periodsOf ts)) f.1 ∧
      f.1 ∈ ts ∧ f.1.periodUs ≠ 0) →
      fs.foldlM (placeFrame cpu (calculateHyperperiod (periodsOf ts))) st = .ok placed →
      ∀ x ∈ placingSums cpu (calculateHyperperiod (periodsOf ts)) st fs, x < 2 ^ 32 := by
    intro fs
    induction fs with
    | nil => exact fun _ _ _ => List.forall_mem_nil _
    | cons f fs ih =>
      intro st hfs hst
      rw [List.forall_mem_cons] at hfs
      obtain ⟨st₁, hst₁, hst⟩ := bind_eq_ok.1 hst
      rw [placingSums, hst₁, List.forall_mem_append]
      refine ⟨frameSums_lt_of_end (hhp ▸ hlt) hfs.1.1 hst₁ fun c hfree hc => ?_, ih st₁ hfs.2 hst⟩
      exact hend f.1 hfs.1.2.1 hfs.1.2.2 c hfree.lt
        (hperm.mem_iff.2 (subset_of_foldlM_placeFrame hst hc))
  refine hframes _ _ (fun f hf => ?_) hplaced
  obtain ⟨ht, h0, hk⟩ := mem_frames.1 hf
  exact ⟨hk, (G.stdSort.perm byDeadline_strictWeak ts).mem_iff.1 ht, h0⟩

/-- **Tasks without negative runtimes** are packable, if the code has placed them. -/
theorem packable_of_wcet_le (hharm : validateHarmonic (periodsOf ts) = true)
    (h : G.placeTtSlots cpu ts (calculateHyperperiod (periodsOf ts)) schedule = .ok schedule')
    (hblank : schedule.ttSlots = [])
    (hw : ∀ t ∈ ts, t.periodUs ≠ 0 → t.wcetUs.toNat ≤ 2 ^ 31) : Packable G ts := by
  refine packable_of_end_lt hharm h hblank fun t ht h0 c hc _ => ?_
  have := hw t ht h0
  omega

theorem packable_nil : Packable G [] := by
  have hsort : G.stdSort.sort (fun a b => decide (a.deadlineUs < b.deadlineUs))
      ([] : List ClassifiedTask) = [] := (G.stdSort.perm byDeadline_strictWeak []).eq_nil
  unfold Packable jobs
  rw [hsort]
  rfl

end Cpu

/-! ### The pipeline -/

section Pipeline

variable {U : Type}

/-- The sums of step 3 on one CPU. -/
def placeOnCpuSums (G : GlobalScheduler U) (tt : List ClassifiedTask) (sched : PerCpuSchedule U) :
    List ℕ :=
  let cpuTt := assignedTo sched.cpuId tt
  if cpuTt.isEmpty then []
  else
    let periods := periodsOf cpuTt
    if validateHarmonic periods then
      placeTtSums G sched.cpuId cpuTt (calculateHyperperiod periods) sched
    else []

/-- The sums of a `generate_schedule` that succeeds: those of the placement on each CPU, then those
of the gaps of each CPU. -/
def generationSums [Floating U] (G : GlobalScheduler U) (nodeId : Text)
    (tasks : List ClassifiedTask) : List ℕ :=
  if tasks.isEmpty then []
  else
    match G.assignCpus nodeId (ttTasks tasks) (cbsTasks tasks) with
    | .error _ => []
    | .ok a =>
      a.cpuSchedules.flatMap (G.placeOnCpuSums a.ttTasks) ++
        match a.cpuSchedules.mapM (G.placeOnCpu a.ttTasks) with
        | .error _ => []
        | .ok placed => placed.flatMap fun sched => gapSums sched.ttSlots

variable {G : GlobalScheduler U} {tt : List ClassifiedTask} {s s' : PerCpuSchedule U}

theorem placeOnCpuSums_lt_iff (h : G.placeOnCpu tt s = .ok s') (hblank : s.ttSlots = []) :
    (∀ x ∈ G.placeOnCpuSums tt s, x < 2 ^ 32) ↔ Packable G (assignedTo s.cpuId tt) := by
  unfold placeOnCpuSums
  dsimp only
  rcases placeOnCpu_cases h with ⟨hnil, -⟩ | ⟨hharm, h⟩
  · rw [hnil]
    exact iff_of_true (List.forall_mem_nil _) packable_nil
  · split_ifs with hemp
    · rw [List.isEmpty_iff.1 hemp]
      exact iff_of_true (List.forall_mem_nil _) packable_nil
    · exact sums_lt_iff_packable hharm h hblank

theorem Packable.end_le_placeOnCpu (hpackable : Packable G (assignedTo s.cpuId tt))
    (h : G.placeOnCpu tt s = .ok s') (hblank : s.ttSlots = []) : ∀ slot ∈ s'.ttSlots,
      slot.offsetUs.toNat + slot.durationUs.toNat ≤ lcmPeriods (assignedTo s.cpuId tt) ∧
        lcmPeriods (assignedTo s.cpuId tt) < 2 ^ 32 := by
  rcases placeOnCpu_cases h with ⟨-, rfl⟩ | ⟨hharm, h⟩
  · rw [hblank]
    exact List.forall_mem_nil _
  · exact hpackable.end_le hharm h hblank

variable [Floating U] {now : UInt64} {nodeId : Text} {tasks : List ClassifiedTask}
  {table : HierarchicalScheduleTable}

/-- The slots of every CPU end within the least common multiple of its periods. -/
def EndsInTime (G : GlobalScheduler U) (nodeId : Text) (tasks : List ClassifiedTask)
    (table : HierarchicalScheduleTable) : Prop :=
  ∃ cpus : List ℤ, cpus.Nodup ∧ List.Forall₂ (fun cpu p =>
    p.partitionId = text "isolated-" ++ intText cpu ∧
    p.cpuset = some { cpus := [cpuNumber cpu], isolated := true } ∧
    ∀ slot ∈ p.layers.flatMap (·.ttSlots),
      slot.offsetUs.toNat + slot.durationUs.toNat ≤ lcmPeriods (G.ttOn nodeId tasks cpu))
    cpus table.partitions

namespace Stages

variable {a : Assignment U} {allocated : List (PerCpuSchedule U)}

theorem exists_cpuSchedule (h : Stages G nodeId tasks a allocated) {cpu : ℤ} :
    cpu ∈ G.availableCpus nodeId ↔ ∃ s ∈ a.cpuSchedules, s.cpuId = cpu := by
  rw [← mem_stdSet, ← (blank_assignCpus h.assign).cpuIds, List.mem_map]

theorem generationSums_lt_iff (h : Stages G nodeId tasks a allocated) (hne : tasks ≠ []) :
    (∀ x ∈ G.generationSums nodeId tasks, x < 2 ^ 32) ↔
      ∀ cpu ∈ G.availableCpus nodeId, Packable G (G.ttOn nodeId tasks cpu) := by
  have hblank := (blank_assignCpus h.assign).ttSlots
  obtain ⟨placed, hplaced, -⟩ := h.steps
  have hcpu : ∀ s ∈ a.cpuSchedules, (∀ x ∈ G.placeOnCpuSums a.ttTasks s, x < 2 ^ 32) ↔
      Packable G (assignedTo s.cpuId a.ttTasks) := by
    intro s hs
    obtain ⟨s', -, hs'⟩ := exists_of_forall₂_left hplaced hs
    exact placeOnCpuSums_lt_iff hs' (hblank s hs)
  have hgaps : (∀ s ∈ a.cpuSchedules, Packable G (assignedTo s.cpuId a.ttTasks)) →
      ∀ s' ∈ placed, ∀ x ∈ gapSums s'.ttSlots, x < 2 ^ 32 := by
    intro hpackable s' hs' x hx
    obtain ⟨s, hs, hok⟩ := exists_of_forall₂_right hplaced hs'
    obtain ⟨slot, hslot, rfl⟩ := List.mem_map.1 hx
    obtain ⟨hle, hlt⟩ := (hpackable s hs).end_le_placeOnCpu hok (hblank s hs) slot hslot
    exact hle.trans_lt hlt
  rw [generationSums, if_neg (by simpa using hne), h.assign]
  dsimp only
  rw [mapM_eq_ok.2 hplaced]
  dsimp only
  rw [List.forall_mem_append, List.forall_mem_flatMap, List.forall_mem_flatMap]
  constructor
  · rintro ⟨hsums, -⟩ cpu hcpu'
    obtain ⟨s, hs, rfl⟩ := h.exists_cpuSchedule.1 hcpu'
    rw [h.ttOn]
    exact (hcpu s hs).1 (hsums s hs)
  · intro hpackable
    have hall : ∀ s ∈ a.cpuSchedules, Packable G (assignedTo s.cpuId a.ttTasks) := by
      intro s hs
      rw [← h.ttOn]
      exact hpackable _ (h.exists_cpuSchedule.2 ⟨s, hs, rfl⟩)
    exact ⟨fun s hs => (hcpu s hs).2 (hall s hs), hgaps hall⟩

theorem endsInTime (h : Stages G nodeId tasks a allocated)
    (hpackable : ∀ cpu ∈ G.availableCpus nodeId, Packable G (G.ttOn nodeId tasks cpu)) :
    G.EndsInTime nodeId tasks
      (buildTable now nodeId allocated (calculateHyperperiod (periodsOf a.ttTasks))) := by
  refine h.exists_partitions _ (P := fun cpu slots => ∀ slot ∈ slots,
    slot.offsetUs.toNat + slot.durationUs.toNat ≤ lcmPeriods (G.ttOn nodeId tasks cpu))
    fun s' hs' slot hslot => ?_
  obtain ⟨placed, hplaced, rfl⟩ := List.mem_map.1 hslot
  obtain ⟨s, hs, s₁, h₁, h₂⟩ := exists_of_forall₂_right h.origin hs'
  have hblank := (blank_assignCpus h.assign).ttSlots s hs
  obtain ⟨hid, htt, -⟩ := allocateOnCpu_eq_ok h₂
  have hid' : s'.cpuId = s.cpuId := by rw [hid, (placeOnCpu_eq_ok h₁ hblank).1]
  have hcpu := hpackable s.cpuId (h.exists_cpuSchedule.2 ⟨s, hs, rfl⟩)
  rw [h.ttOn] at hcpu
  rw [hid', h.ttOn]
  exact (hcpu.end_le_placeOnCpu h₁ hblank placed (htt ▸ hplaced)).1

end Stages

theorem packable_ttOn_nil (cpu : ℤ) : Packable G (G.ttOn nodeId [] cpu) := by
  have hnil : G.ttOn nodeId [] cpu = [] := by
    refine List.eq_nil_iff_forall_not_mem.2 fun t ht => ?_
    obtain ⟨t₀, ht₀, -⟩ := mem_ttOn ht
    cases ht₀
  rw [hnil]
  exact packable_nil

/-- **Overflow in a generation.**  No sum leaves its range and all slots end in time, iff the tasks
of every CPU are packable. -/
theorem generateSchedule_sums_iff (h : G.generateSchedule now nodeId tasks = .ok table) :
    ((∀ x ∈ G.generationSums nodeId tasks, x < 2 ^ 32) ∧ G.EndsInTime nodeId tasks table) ↔
      ∀ cpu ∈ G.availableCpus nodeId, Packable G (G.ttOn nodeId tasks cpu) := by
  by_cases hne : tasks = []
  · subst hne
    cases h
    exact iff_of_true ⟨List.forall_mem_nil _, [], List.nodup_nil, .nil⟩
      fun cpu _ => packable_ttOn_nil cpu
  · obtain ⟨a, allocated, hst, rfl⟩ := (generateSchedule_eq_ok hne).1 h
    rw [hst.generationSums_lt_iff hne]
    exact and_iff_left_of_imp hst.endsInTime

/-- **Tasks without negative runtimes** are packable wherever they are accepted. -/
theorem packable_of_generateSchedule (h : G.generateSchedule now nodeId tasks = .ok table)
    (hw : ∀ t ∈ tasks, t.mechanism = .tt → t.periodUs ≠ 0 → t.wcetUs.toNat ≤ 2 ^ 31) (cpu : ℤ)
    (hcpu : cpu ∈ G.availableCpus nodeId) : Packable G (G.ttOn nodeId tasks cpu) := by
  by_cases hne : tasks = []
  · subst hne
    exact packable_ttOn_nil cpu
  obtain ⟨a, allocated, hst, rfl⟩ := (generateSchedule_eq_ok hne).1 h
  obtain ⟨s, hs, rfl⟩ := hst.exists_cpuSchedule.1 hcpu
  obtain ⟨s', -, s₁, h₁, -⟩ := exists_of_forall₂_left hst.origin hs
  have hblank := (blank_assignCpus hst.assign).ttSlots s hs
  have hw' : ∀ t ∈ assignedTo s.cpuId a.ttTasks, t.periodUs ≠ 0 → t.wcetUs.toNat ≤ 2 ^ 31 := by
    intro t ht
    rw [← hst.ttOn] at ht
    obtain ⟨t₀, ht₀, htt, rfl⟩ := mem_ttOn ht
    exact hw t₀ ht₀ htt
  rw [hst.ttOn]
  rcases placeOnCpu_cases h₁ with ⟨hnil, -⟩ | ⟨hharm, h₁⟩
  · rw [hnil]
    exact packable_nil
  · exact packable_of_wcet_le hharm h₁ hblank hw'

end Pipeline

end GlobalScheduler

end Timpani
