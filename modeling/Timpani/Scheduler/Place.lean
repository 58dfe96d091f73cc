import Timpani.Cpp.Loop
import Timpani.Cpp.Sort
import Timpani.Scheduler.Assign
import Mathlib.Data.List.Pairwise

/-!
# Time-triggered slot placement

Step 3 of the pipeline, `GlobalScheduler::place_tt_slots`: tasks in deadline-monotonic order, one
slot in every frame of the hyperperiod, each at the first free position of its frame.

* `findFreeSlot_spec` : the search returns the first position of the frame that is free;
* `placeTtSlots_spec` : a successful placement has exactly one slot for every frame of every task,
  inside that frame, and no two of its slots conflict.

Both speak of the 32-bit arithmetic the code performs and assume nothing about the sizes of the
fields.
-/

namespace Timpani

namespace GlobalScheduler

/-- An occupied stretch `[start, stop)` of the timeline. -/
structure Interval where
  start : UInt32
  stop : UInt32
  deriving DecidableEq, Repr

/-- The conflict test of the search. -/
def Interval.conflicts (candidate duration : UInt32) (occ : Interval) : Bool :=
  decide (candidate < occ.stop) && decide (candidate + duration > occ.start)

/-- `find_free_slot`: try `start`, and after a conflict the end of the interval in the way. -/
def findFreeSlot (occupied : List Interval) (start duration deadlineEnd : UInt32) : Int32 :=
  if start + duration ≤ deadlineEnd then
    match _h : occupied.find? (Interval.conflicts start duration) with
    | some occ => findFreeSlot occupied occ.stop duration deadlineEnd
    | none => start.toInt32
  else -1
termination_by 2 ^ 32 - start.toNat
decreasing_by
  have hconf := List.find?_some _h
  simp only [Interval.conflicts, Bool.and_eq_true, decide_eq_true_eq] at hconf
  have hlt : start.toNat < occ.stop.toNat := UInt32.lt_iff_toNat_lt.1 hconf.1
  have := occ.stop.toNat_lt
  omega

/-! ### Frames -/

/-- The start of the `k`-th frame of a task. -/
def frameStart (task : ClassifiedTask) (k : ℕ) : UInt32 :=
  (UInt64.ofNat k * task.periodUs.toUInt64).toUInt32

/-- The latest end of the slot of the `k`-th frame: the deadline, cut at the hyperperiod. -/
def frameEnd (hyperperiodUs : UInt64) (task : ClassifiedTask) (k : ℕ) : UInt32 :=
  let frameEnd := frameStart task k + task.deadlineUs
  if frameEnd.toUInt64 > hyperperiodUs then hyperperiodUs.toUInt32 else frameEnd

/-- The number of frames of a task in the hyperperiod. -/
def repeats (hyperperiodUs : UInt64) (task : ClassifiedTask) : ℕ :=
  (hyperperiodUs / task.periodUs.toUInt64).toNat

/-! ### Placement -/

/-- The slots placed so far and the timeline they occupy. -/
structure Placing where
  ttSlots : List TtSlotPlacement
  occupied : List Interval

/-- The slot of a task at an offset. -/
def slotAt (cpu : ℤ) (task : ClassifiedTask) (offset : UInt32) : TtSlotPlacement where
  workloadId := task.workloadId
  taskId := task.taskId
  offsetUs := offset
  durationUs := task.wcetUs
  deadlineUs := task.deadlineUs
  maxDmiss := task.maxDmiss
  cpu := cpu

/-- Place the slot of the `k`-th frame of a task. -/
def placeFrame (cpu : ℤ) (hyperperiodUs : UInt64) (st : Placing) (frame : ClassifiedTask × ℕ) :
    Except InfeasibleError Placing :=
  let task := frame.1
  let start := frameStart task frame.2
  let stop := frameEnd hyperperiodUs task frame.2
  let offset := findFreeSlot st.occupied start task.wcetUs stop
  if offset < 0 then
    .error {
      reason := .ttSlotConflict
      cpu := cpu
      taskId := task.taskId
      details := text "TT slot conflict in frame [" ++ natText start.toNat ++ text ", " ++
        natText stop.toNat ++ text ") on CPU " ++ intText cpu }
  else
    .ok {
      ttSlots := st.ttSlots ++ [slotAt cpu task offset.toUInt32]
      occupied := st.occupied ++ [⟨offset.toUInt32, offset.toUInt32 + task.wcetUs⟩] }

/-- Place the slots of all frames of a task; a task without period is skipped. -/
def placeTask (cpu : ℤ) (hyperperiodUs : UInt64) (st : Placing) (task : ClassifiedTask) :
    Except InfeasibleError Placing :=
  if task.periodUs = 0 then .ok st
  else (List.range (repeats hyperperiodUs task)).foldlM
    (fun st k => placeFrame cpu hyperperiodUs st (task, k)) st

variable {U : Type}

/-- The slots of one CPU, in offset order. -/
def placeTtSlots (G : GlobalScheduler U) (cpu : ℤ) (ttTasks : List ClassifiedTask)
    (hyperperiodUs : UInt64) (schedule : PerCpuSchedule U) :
    Except InfeasibleError (PerCpuSchedule U) :=
  if hyperperiodUs = 0 then
    .error {
      reason := .ttSlotConflict
      cpu := cpu
      taskId := []
      details := text "Hyperperiod is zero" }
  else do
    let sorted := G.stdSort.sort (fun a b => decide (a.deadlineUs < b.deadlineUs)) ttTasks
    let placed ← sorted.foldlM (placeTask cpu hyperperiodUs)
      { ttSlots := schedule.ttSlots, occupied := [] }
    return { schedule with
      ttSlots := G.stdSort.sort (fun a b => decide (a.offsetUs < b.offsetUs)) placed.ttSlots }

/-! ### The search -/

theorem toInt32_not_neg {c : UInt32} (h : ¬ c.toInt32 < 0) : c.toNat < 2 ^ 31 := by
  rw [Int32.lt_iff_toInt_lt, show c.toInt32.toInt = c.toBitVec.toInt from rfl,
    BitVec.toInt_eq_toNat_cond] at h
  have := c.toNat_lt
  have : c.toBitVec.toNat = c.toNat := rfl
  split_ifs at h <;> simp at h <;> omega

/-- What it means that the search found `c`: it lies at or after the start, ends in time and
conflicts with no occupied interval, while every position before it conflicts with one. -/
structure FirstFree (occupied : List Interval) (start duration deadlineEnd c : UInt32) : Prop where
  start_le : start ≤ c
  lt : c.toNat < 2 ^ 31
  end_le : c + duration ≤ deadlineEnd
  free : ∀ occ ∈ occupied, occ.conflicts c duration = false
  first : c.toNat + duration.toNat < 2 ^ 32 → ∀ x, start ≤ x → x < c →
    ∃ occ ∈ occupied, occ.conflicts x duration = true

/-- A conflict at `start` is a conflict at every position up to the end of the interval, as long
as nothing wraps. -/
theorem Interval.conflicts_of_le {occ : Interval} {start x duration : UInt32}
    (h : occ.conflicts start duration = true) (hle : start ≤ x) (hlt : x < occ.stop)
    (hwrap : x.toNat + duration.toNat < 2 ^ 32) : occ.conflicts x duration = true := by
  simp only [Interval.conflicts, Bool.and_eq_true, decide_eq_true_eq, gt_iff_lt,
    UInt32.lt_iff_toNat_lt, UInt32.le_iff_toNat_le, UInt32.toNat_add] at h hle hlt ⊢
  omega

/-- **The search returns the first free position** when its result is not negative. -/
theorem findFreeSlot_spec {occupied : List Interval} {start duration deadlineEnd : UInt32}
    (h : ¬ findFreeSlot occupied start duration deadlineEnd < 0) :
    FirstFree occupied start duration deadlineEnd
      (findFreeSlot occupied start duration deadlineEnd).toUInt32 := by
  fun_induction findFreeSlot occupied start duration deadlineEnd with
  | case1 start hfit occ hfind ih =>
    have hconf := List.find?_some hfind
    have hlt : start < occ.stop := by
      simp only [Interval.conflicts, Bool.and_eq_true, decide_eq_true_eq] at hconf
      exact hconf.1
    have ih := ih h
    refine ⟨UInt32.le_trans (UInt32.le_of_lt hlt) ih.start_le, ih.lt, ih.end_le, ih.free, ?_⟩
    intro hwrap x hx hxc
    by_cases hstop : x < occ.stop
    · refine ⟨occ, List.mem_of_find?_eq_some hfind, Interval.conflicts_of_le hconf hx hstop ?_⟩
      rw [UInt32.lt_iff_toNat_lt] at hxc
      omega
    · exact ih.first hwrap x (UInt32.not_lt.1 hstop) hxc
  | case2 start hfit hfind =>
    rw [UInt32.toUInt32_toInt32]
    refine ⟨UInt32.le_refl _, toInt32_not_neg h, hfit, fun occ hocc => ?_, fun _ x hx hlt => ?_⟩
    · simpa using List.find?_eq_none.1 hfind occ hocc
    · exact absurd hlt (UInt32.not_lt.2 hx)
  | case3 => exact absurd (by decide) h

/-! ### The placement -/

/-- The frames of the tasks, in the order the two loops go through them. -/
def frames (hyperperiodUs : UInt64) (tasks : List ClassifiedTask) : List (ClassifiedTask × ℕ) :=
  tasks.flatMap fun task =>
    if task.periodUs = 0 then [] else (List.range (repeats hyperperiodUs task)).map (task, ·)

theorem foldlM_placeTask (cpu : ℤ) (hp : UInt64) (tasks : List ClassifiedTask) (st : Placing) :
    tasks.foldlM (placeTask cpu hp) st = (frames hp tasks).foldlM (placeFrame cpu hp) st := by
  rw [frames, foldlM_flatMap]
  congr 1
  funext st task
  unfold placeTask
  split_ifs
  · rfl
  · rw [List.foldlM_map]

/-- The timeline a slot occupies. -/
def slotInterval (s : TtSlotPlacement) : Interval := ⟨s.offsetUs, s.offsetUs + s.durationUs⟩

theorem placeFrame_eq_ok {cpu : ℤ} {hp : UInt64} {st st' : Placing}
    {frame : ClassifiedTask × ℕ} (h : placeFrame cpu hp st frame = .ok st') :
    ¬ findFreeSlot st.occupied (frameStart frame.1 frame.2) frame.1.wcetUs
        (frameEnd hp frame.1 frame.2) < 0 ∧
      ∃ c, c = (findFreeSlot st.occupied (frameStart frame.1 frame.2) frame.1.wcetUs
          (frameEnd hp frame.1 frame.2)).toUInt32 ∧
        FirstFree st.occupied (frameStart frame.1 frame.2) frame.1.wcetUs
          (frameEnd hp frame.1 frame.2) c ∧
        st' = { ttSlots := st.ttSlots ++ [slotAt cpu frame.1 c]
                occupied := st.occupied ++ [slotInterval (slotAt cpu frame.1 c)] } := by
  unfold placeFrame at h
  dsimp only at h
  split_ifs at h with hneg
  cases h
  exact ⟨hneg, _, rfl, findFreeSlot_spec hneg, rfl⟩

/-- The slot belongs to the frame: it carries the data of the task and lies between the start and
the end of the frame, and every earlier position of the frame is taken by one of the `slots` of a
task whose deadline is not longer. -/
structure InFrame (cpu : ℤ) (hp : UInt64) (slots : List TtSlotPlacement)
    (frame : ClassifiedTask × ℕ) (slot : TtSlotPlacement) : Prop where
  eq : slot = slotAt cpu frame.1 slot.offsetUs
  start_le : frameStart frame.1 frame.2 ≤ slot.offsetUs
  lt : slot.offsetUs.toNat < 2 ^ 31
  end_le : slot.offsetUs + frame.1.wcetUs ≤ frameEnd hp frame.1 frame.2
  first : slot.offsetUs.toNat + frame.1.wcetUs.toNat < 2 ^ 32 →
    ∀ x, frameStart frame.1 frame.2 ≤ x → x < slot.offsetUs → ∃ s ∈ slots,
      s.deadlineUs ≤ frame.1.deadlineUs ∧ (slotInterval s).conflicts x frame.1.wcetUs = true

theorem InFrame.mono {cpu : ℤ} {hp : UInt64} {slots slots' : List TtSlotPlacement}
    {frame : ClassifiedTask × ℕ} {slot : TtSlotPlacement} (hsub : slots ⊆ slots')
    (h : InFrame cpu hp slots frame slot) : InFrame cpu hp slots' frame slot where
  eq := h.eq
  start_le := h.start_le
  lt := h.lt
  end_le := h.end_le
  first hwrap x hx hlt := by
    obtain ⟨s, hs, hrest⟩ := h.first hwrap x hx hlt
    exact ⟨s, hsub hs, hrest⟩

/-- Neither slot starts before the other one ends while ending after it starts. -/
def Apart (a b : TtSlotPlacement) : Prop :=
  ¬ (b.offsetUs < a.offsetUs + a.durationUs ∧ a.offsetUs < b.offsetUs + b.durationUs)

instance : Std.Symm Apart := ⟨fun _ _ h h' => h h'.symm⟩

/-- The invariant of the loops over the frames. -/
structure PlacedUpTo (cpu : ℤ) (hp : UInt64) (done : List (ClassifiedTask × ℕ)) (st : Placing) :
    Prop where
  occupied : st.occupied = st.ttSlots.map slotInterval
  inFrame : List.Forall₂ (InFrame cpu hp st.ttSlots) done st.ttSlots
  apart : st.ttSlots.Pairwise Apart

theorem PlacedUpTo.placeFrame {cpu : ℤ} {hp : UInt64} {done : List (ClassifiedTask × ℕ)}
    {frame : ClassifiedTask × ℕ} {st st' : Placing} (h : PlacedUpTo cpu hp done st)
    (hdm : ∀ f ∈ done, f.1.deadlineUs ≤ frame.1.deadlineUs)
    (hst : placeFrame cpu hp st frame = .ok st') : PlacedUpTo cpu hp (done ++ [frame]) st' := by
  obtain ⟨-, c, -, hfree, rfl⟩ := placeFrame_eq_ok hst
  have hsub := List.subset_append_left st.ttSlots [slotAt cpu frame.1 c]
  have hdeadline : ∀ s ∈ st.ttSlots, s.deadlineUs ≤ frame.1.deadlineUs := by
    intro s hs
    obtain ⟨f, hf, hin⟩ := exists_of_forall₂_right h.inFrame hs
    rw [hin.eq]
    exact hdm f hf
  refine ⟨?_, ?_, ?_⟩
  · simp [h.occupied, slotInterval, slotAt]
  · refine List.rel_append (h.inFrame.imp fun _ _ => InFrame.mono hsub)
      (.cons ⟨rfl, hfree.start_le, hfree.lt, hfree.end_le, fun hwrap x hx hlt => ?_⟩ .nil)
    obtain ⟨occ, hocc, hconf⟩ := hfree.first hwrap x hx hlt
    rw [h.occupied] at hocc
    obtain ⟨s, hs, rfl⟩ := List.mem_map.1 hocc
    exact ⟨s, hsub hs, hdeadline s hs, hconf⟩
  · rw [List.pairwise_append]
    refine ⟨h.apart, List.pairwise_singleton _ _, fun a ha b hb => ?_⟩
    obtain rfl := List.mem_singleton.1 hb
    have hocc : slotInterval a ∈ st.occupied := h.occupied ▸ List.mem_map_of_mem ha
    have hconf := hfree.free _ hocc
    simp only [Interval.conflicts, Bool.and_eq_false_iff, decide_eq_false_iff_not] at hconf
    exact not_and_or.2 hconf

theorem byOffset_strictWeak :
    StrictWeak fun a b : TtSlotPlacement => decide (a.offsetUs < b.offsetUs) :=
  StrictWeak.of_uint32_lt.comap TtSlotPlacement.offsetUs

theorem byDeadline_strictWeak :
    StrictWeak fun a b : ClassifiedTask => decide (a.deadlineUs < b.deadlineUs) :=
  StrictWeak.of_uint32_lt.comap ClassifiedTask.deadlineUs

/-- The slots of a CPU after a successful placement of `tasks`. -/
structure Placement (cpu : ℤ) (hp : UInt64) (tasks : List ClassifiedTask)
    (slots : List TtSlotPlacement) : Prop where
  /-- Slots are listed by offset. -/
  sorted : slots.Pairwise fun a b => a.offsetUs ≤ b.offsetUs
  /-- No two slots conflict. -/
  apart : slots.Pairwise Apart
  /-- There is one slot for each frame. -/
  frames : ∃ order placed, order.Perm tasks ∧ slots.Perm placed ∧
    List.Forall₂ (InFrame cpu hp slots) (frames hp order) placed

theorem frames_pairwise_deadline {hp : UInt64} {order : List ClassifiedTask}
    (h : order.Pairwise fun a b => a.deadlineUs ≤ b.deadlineUs) :
    (frames hp order).Pairwise fun f g => f.1.deadlineUs ≤ g.1.deadlineUs := by
  have hfst : ∀ {t : ClassifiedTask} {f : ClassifiedTask × ℕ}, f ∈ (if t.periodUs = 0 then []
      else (List.range (repeats hp t)).map (t, ·)) → f.1 = t := by
    intro t f hf
    split_ifs at hf
    · cases hf
    · obtain ⟨_, -, rfl⟩ := List.mem_map.1 hf
      rfl
  refine List.pairwise_flatMap.2 ⟨fun t _ => ?_, h.imp fun hab f hf g hg => ?_⟩
  · refine List.pairwise_of_forall_mem_list fun f hf g hg => ?_
    rw [hfst hf, hfst hg]
    exact UInt32.le_refl _
  · rwa [hfst hf, hfst hg]

/-- **Placement.** A successful placement puts one slot into every frame of every task, and no two
of the slots conflict; nothing else of the schedule changes. -/
theorem placeTtSlots_spec {G : GlobalScheduler U} {cpu : ℤ} {tasks : List ClassifiedTask}
    {hp : UInt64} {schedule schedule' : PerCpuSchedule U}
    (h : G.placeTtSlots cpu tasks hp schedule = .ok schedule') (hblank : schedule.ttSlots = []) :
    schedule' = { schedule with ttSlots := schedule'.ttSlots } ∧
      Placement cpu hp tasks schedule'.ttSlots := by
  unfold placeTtSlots at h
  split_ifs at h
  obtain ⟨placed, hplaced, h⟩ := bind_eq_ok.1 h
  cases h
  have horder := G.stdSort.perm byDeadline_strictWeak tasks
  have hdm := @frames_pairwise_deadline hp _
    ((G.stdSort.sorted byDeadline_strictWeak tasks).imp fun hab => by simpa using hab)
  rw [hblank, foldlM_placeTask] at hplaced
  set order := G.stdSort.sort (fun a b => decide (a.deadlineUs < b.deadlineUs)) tasks
  have hinv : PlacedUpTo cpu hp (frames hp order) placed := by
    refine foldlM_ok_induction (motive := PlacedUpTo cpu hp) hplaced ⟨rfl, .nil, .nil⟩ ?_
    intro done frame _ _ hpre hm hst
    have hpair := hdm.sublist hpre.sublist
    exact hm.placeFrame (fun f hf => (List.pairwise_append.1 hpair).2.2 f hf frame (by simp)) hst
  have hperm := G.stdSort.perm byOffset_strictWeak placed.ttSlots
  refine ⟨rfl, ?_, ?_, ?_⟩
  · refine (G.stdSort.sorted byOffset_strictWeak placed.ttSlots).imp fun hab => ?_
    simpa using hab
  · exact (hperm.pairwise_iff fun h => symm h).2 hinv.apart
  · exact ⟨order, placed.ttSlots, horder, hperm,
      hinv.inFrame.imp fun _ _ => InFrame.mono hperm.symm.subset⟩

end GlobalScheduler

end Timpani
