import Timpani.Scheduler.Validity
import Timpani.Timeline.Train

/-!
# Strict periodicity

`place_tt_slots` searches every frame of a task anew.  With implicit deadlines and harmonic periods
it still puts all slots of a task at the same distance from the start of their frames: the tasks
placed before have periods that divide the period of the task, so all its frames look alike.

* `exists_conflicts_iff` : the timeline of the code is one of trains;
* `placeTask_periodic` : all frames of a task, by induction on the frames;
* `placeTtSlots_periodic` : **strict periodicity**, by induction on the tasks.
-/

namespace Timpani

namespace GlobalScheduler

/-- A task with the offset of its slots in their frames. -/
structure PlacedTask where
  task : ClassifiedTask
  offset : ℕ
  period_pos : 0 < task.periodUs.toNat
  fits : offset + task.wcetUs.toNat ≤ task.periodUs.toNat

namespace PlacedTask

/-- The slots of the task on a timeline of length `H`. -/
def slots (cpu : ℤ) (H : ℕ) (p : PlacedTask) : List TtSlotPlacement :=
  (List.range (H / p.task.periodUs.toNat)).map fun k =>
    slotAt cpu p.task (UInt32.ofNat (p.offset + k * p.task.periodUs.toNat))

/-- The stretches of the timeline they take. -/
def train (p : PlacedTask) : Train where
  offset := p.offset
  period := p.task.periodUs.toNat
  length := p.task.wcetUs.toNat
  period_pos := p.period_pos
  fits := p.fits

theorem end_le (p : PlacedTask) {H k : ℕ} (hk : k < H / p.task.periodUs.toNat) :
    p.offset + k * p.task.periodUs.toNat + p.task.wcetUs.toNat ≤ H := by
  have hmul := (Nat.mul_le_mul_right p.task.periodUs.toNat hk).trans (Nat.div_mul_le_self H _)
  have hfits := p.fits
  rw [Nat.succ_mul] at hmul
  omega

end PlacedTask

/-! ### The search on a timeline of trains -/

theorem conflicts_slotInterval_iff {cpu : ℤ} {t : ClassifiedTask} {a : ℕ} {x d : UInt32}
    (ha : a + t.wcetUs.toNat < 2 ^ 32) (hx : x.toNat + d.toNat < 2 ^ 32) :
    (slotInterval (slotAt cpu t (UInt32.ofNat a))).conflicts x d = true ↔
      Meets x.toNat d.toNat a t.wcetUs.toNat := by
  have hofNat : (UInt32.ofNat a).toNat = a := 
    UInt32.toNat_ofNat_of_lt' (show a < 2 ^ 32 by omega)
  simp only [Interval.conflicts, slotInterval, slotAt, Bool.and_eq_true, decide_eq_true_eq,
    gt_iff_lt, UInt32.lt_iff_toNat_lt, UInt32.toNat_add, hofNat, Nat.mod_eq_of_lt ha,
    Nat.mod_eq_of_lt hx]
  rfl

/-- **The occupied timeline** blocks what the trains of the placed tasks block. -/
theorem exists_conflicts_iff {cpu : ℤ} {H : ℕ} (hH : H < 2 ^ 31) {placed : List PlacedTask}
    {x d : UInt32} (hx : x.toNat + d.toNat < 2 ^ 32) :
    (∃ occ ∈ (placed.flatMap (·.slots cpu H)).map slotInterval, occ.conflicts x d = true) ↔
      Blocked (placed.map (·.train)) H d.toNat x.toNat := by
  have hslot : ∀ p : PlacedTask, ∀ k < H / p.task.periodUs.toNat,
      ((slotInterval (slotAt cpu p.task
        (UInt32.ofNat (p.offset + k * p.task.periodUs.toNat)))).conflicts x d = true ↔
      Meets x.toNat d.toNat (p.offset + k * p.task.periodUs.toNat) p.task.wcetUs.toNat) :=
    fun p k hk => conflicts_slotInterval_iff (by have := p.end_le hk; omega) hx
  constructor
  · rintro ⟨occ, hocc, hconf⟩
    obtain ⟨s, hs, rfl⟩ := List.mem_map.1 hocc
    obtain ⟨p, hp, hs⟩ := List.mem_flatMap.1 hs
    obtain ⟨k, hk, rfl⟩ := List.mem_map.1 hs
    have hk := List.mem_range.1 hk
    exact ⟨p.train, List.mem_map_of_mem hp, k, hk, (hslot p k hk).1 hconf⟩
  · rintro ⟨_, htrain, k, hk, hmeets⟩
    obtain ⟨p, hp, rfl⟩ := List.mem_map.1 htrain
    exact ⟨_, List.mem_map_of_mem (List.mem_flatMap.2 ⟨p, hp, List.mem_map_of_mem
      (List.mem_range.2 hk)⟩), (hslot p k hk).2 hmeets⟩

theorem start_add_le_of_findFreeSlot {occupied : List Interval}
    {start duration deadlineEnd : UInt32}
    (h : ¬ findFreeSlot occupied start duration deadlineEnd < 0) :
    start + duration ≤ deadlineEnd := by
  by_contra hgt
  rw [findFreeSlot, if_neg hgt] at h
  exact h (by decide)

/-! ### One task -/

section Task

variable {cpu : ℤ} {hp : UInt64} {t : ClassifiedTask} {placed : List PlacedTask}
  {st st' : Placing} {k : ℕ}

/-- The first `k` slots of a task at offset `o`. -/
def firstSlots (cpu : ℤ) (t : ClassifiedTask) (o k : ℕ) : List TtSlotPlacement :=
  (List.range k).map fun j => slotAt cpu t (UInt32.ofNat (o + j * t.periodUs.toNat))

theorem frame_bounds (hhp : hp.toNat < 2 ^ 31) (hD : t.deadlineUs = t.periodUs)
    (hk : k < repeats hp t) :
    (frameStart t k).toNat = k * t.periodUs.toNat ∧
      (frameEnd hp t k).toNat = (k + 1) * t.periodUs.toNat := by
  have hle := succ_mul_period_le hk
  have hsucc : k * t.periodUs.toNat + t.periodUs.toNat = (k + 1) * t.periodUs.toNat :=
    (Nat.succ_mul _ _).symm
  have hend : k * t.periodUs.toNat + t.deadlineUs.toNat < 2 ^ 32 := by
    rw [hD, hsucc]
    omega
  refine ⟨frameStart_toNat (by omega) hk, ?_⟩
  rw [frameEnd_toNat (by omega) hk hend, hD, hsucc, Nat.min_eq_left hle]

theorem not_conflicts_firstSlots {o : ℕ} (hfits : o + t.wcetUs.toNat ≤ t.periodUs.toNat)
    (hend : k * t.periodUs.toNat < 2 ^ 31) {x : UInt32} (hx : k * t.periodUs.toNat ≤ x.toNat)
    (hxd : x.toNat + t.wcetUs.toNat < 2 ^ 32) :
    ∀ occ ∈ (firstSlots cpu t o k).map slotInterval, occ.conflicts x t.wcetUs = false := by
  intro occ hocc
  obtain ⟨s, hs, rfl⟩ := List.mem_map.1 hocc
  obtain ⟨j, hj, rfl⟩ := List.mem_map.1 hs
  have hmul := Nat.mul_le_mul_right t.periodUs.toNat (List.mem_range.1 hj)
  rw [Nat.succ_mul] at hmul
  have hover : o + j * t.periodUs.toNat + t.wcetUs.toNat ≤ k * t.periodUs.toNat := by omega
  rw [Bool.eq_false_iff, Ne,
    conflicts_slotInterval_iff (hover.trans_lt (hend.trans (by decide))) hxd]
  rintro ⟨hlt, -⟩
  omega

/-- **One frame.** Behind the slots of the earlier frames the search finds the first position that
the trains of the other tasks leave free. -/
theorem placeFrame_firstFit (hhp : hp.toNat < 2 ^ 31) (hD : t.deadlineUs = t.periodUs)
    (hk : k < repeats hp t) (hw : t.wcetUs.toNat ≤ t.periodUs.toNat) {o : ℕ}
    (ho : 0 < k → o + t.wcetUs.toNat ≤ t.periodUs.toNat)
    (hocc : st.occupied = (placed.flatMap (·.slots cpu hp.toNat)).map slotInterval ++
      (firstSlots cpu t o k).map slotInterval)
    (h : placeFrame cpu hp st (t, k) = .ok st') :
    ∃ c, FirstFit (Blocked (placed.map (·.train)) hp.toNat t.wcetUs.toNat)
        (k * t.periodUs.toNat) c ∧
      c + t.wcetUs.toNat ≤ (k + 1) * t.periodUs.toNat ∧
      st' = { ttSlots := st.ttSlots ++ [slotAt cpu t (UInt32.ofNat c)]
              occupied := st.occupied ++ [slotInterval (slotAt cpu t (UInt32.ofNat c))] } := by
  obtain ⟨-, c, -, hfree, rfl⟩ := placeFrame_eq_ok h
  dsimp only at hfree
  obtain ⟨hstart, hstop⟩ := frame_bounds hhp hD hk
  have hle := succ_mul_period_le hk
  have hT : t.periodUs.toNat < 2 ^ 31 := by
    rw [Nat.succ_mul] at hle
    omega
  have hc := hfree.lt
  have hwrap : c.toNat + t.wcetUs.toNat < 2 ^ 32 := by omega
  have hcstart := UInt32.le_iff_toNat_le.1 hfree.start_le
  rw [hstart] at hcstart
  have hown : ∀ {x : UInt32}, k * t.periodUs.toNat ≤ x.toNat → x.toNat + t.wcetUs.toNat < 2 ^ 32 →
      ∀ occ ∈ (firstSlots cpu t o k).map slotInterval, occ.conflicts x t.wcetUs = false := by
    intro x hx hxd
    rcases Nat.eq_zero_or_pos k with rfl | hpos
    · simp [firstSlots]
    · exact not_conflicts_firstSlots (ho hpos) (by rw [Nat.succ_mul] at hle; omega) hx hxd
  refine ⟨c.toNat, ⟨hcstart, ?_, ?_⟩, ?_, by rw [UInt32.ofNat_toNat]⟩
  · rw [← exists_conflicts_iff hhp hwrap]
    rintro ⟨occ, hmem, hconf⟩
    rw [hfree.free occ (hocc ▸ List.mem_append_left _ hmem)] at hconf
    cases hconf
  · intro x hx hxc
    have hxnat : (UInt32.ofNat x).toNat = x := UInt32.toNat_ofNat_of_lt' (show x < 2 ^ 32 by omega)
    obtain ⟨occ, hmem, hconf⟩ := hfree.first hwrap (UInt32.ofNat x)
      (UInt32.le_iff_toNat_le.2 (by rw [hstart, hxnat]; exact hx))
      (UInt32.lt_iff_toNat_lt.2 (by rw [hxnat]; exact hxc))
    rw [hocc] at hmem
    rcases List.mem_append.1 hmem with hmem | hmem
    · have hblocked := (exists_conflicts_iff hhp (by rw [hxnat]; omega)).1 ⟨occ, hmem, hconf⟩
      rwa [hxnat] at hblocked
    · rw [hown (by rw [hxnat]; exact hx) (by rw [hxnat]; omega) occ hmem] at hconf
      cases hconf
  · have hend := UInt32.le_iff_toNat_le.1 hfree.end_le
    rwa [hstop, UInt32.toNat_add, Nat.mod_eq_of_lt hwrap] at hend

/-- The search for the first frame starts at `0`, so a task that was placed fits its period. -/
theorem wcet_le_of_placeFrame (hhp : hp.toNat < 2 ^ 31) (hD : t.deadlineUs = t.periodUs)
    (hk : 0 < repeats hp t) (h : placeFrame cpu hp st (t, 0) = .ok st') :
    t.wcetUs.toNat ≤ t.periodUs.toNat := by
  have hle := UInt32.le_iff_toNat_le.1
    (start_add_le_of_findFreeSlot (placeFrame_eq_ok h).1)
  obtain ⟨hstart, hstop⟩ := frame_bounds hhp hD hk
  dsimp only at hle
  rw [UInt32.toNat_add, hstart, hstop, Nat.zero_mul, Nat.zero_add, Nat.zero_add, Nat.one_mul,
    Nat.mod_eq_of_lt t.wcetUs.toNat_lt] at hle
  exact hle

/-- **The frames of a task** all get the offset of the first one, as long as the tasks before it
have periods that divide its own. -/
theorem foldlM_placeFrame_periodic (hhp : hp.toNat < 2 ^ 31)
    (hdvd : t.periodUs.toNat ∣ hp.toNat) (hD : t.deadlineUs = t.periodUs)
    (hprev : ∀ p ∈ placed, p.task.periodUs.toNat ∣ t.periodUs.toNat)
    (hocc : st.occupied = (placed.flatMap (·.slots cpu hp.toNat)).map slotInterval)
    {q : ℕ} (hq : q + 1 ≤ repeats hp t)
    (h : (List.range (q + 1)).foldlM (fun st k => placeFrame cpu hp st (t, k)) st = .ok st') :
    ∃ o, FirstFit (Blocked (placed.map (·.train)) hp.toNat t.wcetUs.toNat) 0 o ∧
      o + t.wcetUs.toNat ≤ t.periodUs.toNat ∧
      st' = { ttSlots := st.ttSlots ++ firstSlots cpu t o (q + 1)
              occupied := st.occupied ++ (firstSlots cpu t o (q + 1)).map slotInterval } := by
  have hrep : repeats hp t = hp.toNat / t.periodUs.toNat := by
    rw [repeats, UInt64.toNat_div, UInt32.toNat_toUInt64]
  induction q generalizing st' with
  | zero =>
    have h : placeFrame cpu hp st (t, 0) = .ok st' := by simpa using h
    obtain ⟨o, hfirst, hfits, rfl⟩ := placeFrame_firstFit (o := 0) hhp hD hq
      (wcet_le_of_placeFrame hhp hD hq h) (fun hlt => absurd hlt (lt_irrefl 0))
      (by simpa [firstSlots] using hocc) h
    rw [Nat.zero_mul] at hfirst
    rw [Nat.zero_add, Nat.one_mul] at hfits
    exact ⟨o, hfirst, hfits, by simp [firstSlots]⟩
  | succ q ih =>
    rw [List.range_succ, List.foldlM_append] at h
    obtain ⟨mid, hmid, h⟩ := bind_eq_ok.1 h
    have h : placeFrame cpu hp mid (t, q + 1) = .ok st' := by simpa using h
    obtain ⟨o, hfirst, hfits, rfl⟩ := ih (by omega) hmid
    obtain ⟨c, hc, hcfits, rfl⟩ := placeFrame_firstFit (o := o) hhp hD hq (by omega)
      (fun _ => hfits) (by rw [hocc]) h
    have htrains : ∀ tr ∈ placed.map (·.train), tr.period ∣ t.periodUs.toNat := by
      simpa [PlacedTask.train] using hprev
    -- all frames look alike
    obtain rfl := hfirst.eq_add_mul htrains hdvd (hrep ▸ hq) hfits hc hcfits
    refine ⟨o, hfirst, hfits, ?_⟩
    simp [firstSlots, List.range_succ]

/-- The same for the whole task. -/
theorem placeTask_periodic (hhp : hp.toNat < 2 ^ 31) (hhp0 : hp ≠ 0) (h0 : t.periodUs ≠ 0)
    (hdvd : t.periodUs.toNat ∣ hp.toNat) (hD : t.deadlineUs = t.periodUs)
    (hprev : ∀ p ∈ placed, p.task.periodUs.toNat ∣ t.periodUs.toNat)
    (hocc : st.occupied = (placed.flatMap (·.slots cpu hp.toNat)).map slotInterval)
    (h : placeTask cpu hp st t = .ok st') :
    ∃ p : PlacedTask, p.task = t ∧ st'.ttSlots = st.ttSlots ++ p.slots cpu hp.toNat ∧
      st'.occupied = ((placed ++ [p]).flatMap (·.slots cpu hp.toNat)).map slotInterval := by
  rw [placeTask, if_neg h0] at h
  have hT : 0 < t.periodUs.toNat := Nat.pos_of_ne_zero fun h => h0 (UInt32.toNat.inj h)
  have hpos : 0 < repeats hp t := by
    rw [repeats, UInt64.toNat_div, UInt32.toNat_toUInt64]
    exact Nat.div_pos
      (Nat.le_of_dvd (Nat.pos_of_ne_zero fun h => hhp0 (UInt64.toNat.inj h)) hdvd) hT
  obtain ⟨q, hq⟩ := Nat.exists_eq_succ_of_ne_zero hpos.ne'
  rw [hq] at h
  obtain ⟨o, -, hfits, rfl⟩ := foldlM_placeFrame_periodic hhp hdvd hD hprev hocc hq.ge h
  have hslots : firstSlots cpu t o (q + 1) = PlacedTask.slots cpu hp.toNat ⟨t, o, hT, hfits⟩ := by
    rw [firstSlots, PlacedTask.slots, ← Nat.succ_eq_add_one, ← hq, repeats, UInt64.toNat_div,
      UInt32.toNat_toUInt64]
  refine ⟨⟨t, o, hT, hfits⟩, rfl, ?_, ?_⟩
  · rw [hslots]
  · rw [hocc, hslots]
    simp

end Task

/-! ### All tasks -/

theorem pairwise_dvd_of_harmonic {order : List ClassifiedTask}
    (hsorted : order.Pairwise fun a b => a.periodUs ≤ b.periodUs)
    (hpos : ∀ t ∈ order, t.periodUs ≠ 0)
    (hharm : ∀ a ∈ order, ∀ b ∈ order, a.periodUs.toNat ∣ b.periodUs.toNat ∨
      b.periodUs.toNat ∣ a.periodUs.toNat) :
    order.Pairwise fun a b => a.periodUs.toNat ∣ b.periodUs.toNat := by
  refine hsorted.imp_of_mem fun {a b} ha hb hle => ?_
  rcases hharm a ha b hb with hdvd | hdvd
  · exact hdvd
  · have hge := Nat.le_of_dvd (Nat.pos_of_ne_zero fun h => hpos a ha (UInt32.toNat.inj h)) hdvd
    rw [le_antisymm (UInt32.le_iff_toNat_le.1 hle) hge]

theorem foldlM_placeTask_periodic {cpu : ℤ} {hp : UInt64} {order : List ClassifiedTask}
    {st st' : Placing} (hhp : hp.toNat < 2 ^ 31) (hhp0 : hp ≠ 0)
    (hpos : ∀ t ∈ order, t.periodUs ≠ 0) (hdvd : ∀ t ∈ order, t.periodUs.toNat ∣ hp.toNat)
    (hD : ∀ t ∈ order, t.deadlineUs = t.periodUs)
    (hchain : order.Pairwise fun a b => a.periodUs.toNat ∣ b.periodUs.toNat)
    (hocc : st.occupied = []) (h : order.foldlM (placeTask cpu hp) st = .ok st') :
    ∃ placed : List PlacedTask, placed.map (·.task) = order ∧
      st'.ttSlots = st.ttSlots ++ placed.flatMap (·.slots cpu hp.toNat) := by
  suffices hinv : ∃ placed : List PlacedTask, placed.map (·.task) = order ∧
      st'.ttSlots = st.ttSlots ++ placed.flatMap (·.slots cpu hp.toNat) ∧
      st'.occupied = (placed.flatMap (·.slots cpu hp.toNat)).map slotInterval by
    obtain ⟨placed, htasks, hslots, -⟩ := hinv
    exact ⟨placed, htasks, hslots⟩
  refine foldlM_ok_induction (motive := fun done acc => ∃ placed : List PlacedTask,
    placed.map (·.task) = done ∧
    acc.ttSlots = st.ttSlots ++ placed.flatMap (·.slots cpu hp.toNat) ∧
    acc.occupied = (placed.flatMap (·.slots cpu hp.toNat)).map slotInterval) h
    ⟨[], rfl, by simp, hocc⟩ ?_
  rintro done t acc acc' hpre ⟨placed, rfl, hslots, hocc⟩ hstep
  have ht := hpre.subset (List.mem_append_right _ (List.mem_singleton_self t))
  have hprev : ∀ p ∈ placed, p.task.periodUs.toNat ∣ t.periodUs.toNat := by
    intro p hmem
    exact (List.pairwise_append.1 (hchain.sublist hpre.sublist)).2.2 p.task
      (List.mem_map_of_mem hmem) t (List.mem_singleton_self t)
  obtain ⟨p, rfl, hslots', hocc'⟩ := placeTask_periodic hhp hhp0 (hpos t ht) (hdvd t ht) (hD t ht)
    hprev hocc hstep
  exact ⟨placed ++ [p], by simp, by simp [hslots', hslots], hocc'⟩

/-- **Strict periodicity.** For TT tasks with implicit deadlines and harmonic periods, a successful
placement over the least common multiple of the periods puts the `k`-th slot of every task at the
offset of its first one plus `k` periods. -/
theorem placeTtSlots_periodic {U : Type} (G : GlobalScheduler U) (cpu : ℤ)
    (tasks : List ClassifiedTask) (hp : UInt64) (schedule schedule' : PerCpuSchedule U)
    (hpos : ∀ t ∈ tasks, t.periodUs ≠ 0) (hbound : ∀ t ∈ tasks, t.periodUs.toNat < 2 ^ 31)
    (hharm : ∀ a ∈ tasks, ∀ b ∈ tasks, a.periodUs.toNat ∣ b.periodUs.toNat ∨
      b.periodUs.toNat ∣ a.periodUs.toNat)
    (hD : ∀ t ∈ tasks, t.deadlineUs = t.periodUs)
    (hlcm : hp.toNat = Multiset.lcm (tasks.map (·.periodUs.toNat) : List ℕ))
    (h : G.placeTtSlots cpu tasks hp schedule = .ok schedule') :
    ∃ placed : List PlacedTask, (placed.map (·.task)).Perm tasks ∧
      schedule'.ttSlots.Perm (schedule.ttSlots ++ placed.flatMap (·.slots cpu hp.toNat)) ∧
      ∀ p ∈ placed, ∀ k < hp.toNat / p.task.periodUs.toNat,
        (UInt32.ofNat (p.offset + k * p.task.periodUs.toNat)).toNat =
          p.offset + k * p.task.periodUs.toNat := by
  have hhp : hp.toNat < 2 ^ 31 := by
    rw [hlcm]
    rcases eq_or_ne tasks [] with rfl | hne
    · simp
    · obtain ⟨t, ht, hmax⟩ := List.mem_map.1 (lcm_mem_of_chain (by simpa using hne)
        (by simpa [List.forall_mem_map] using hharm))
      rw [← hmax]
      exact hbound t ht
  unfold placeTtSlots at h
  split_ifs at h with hhp0
  obtain ⟨st, hst, h⟩ := bind_eq_ok.1 h
  cases h
  have hperm := G.stdSort.perm byDeadline_strictWeak tasks
  have hsorted := G.stdSort.sorted byDeadline_strictWeak tasks
  set order := G.stdSort.sort (fun a b => decide (a.deadlineUs < b.deadlineUs)) tasks
  have hmem : ∀ {t}, t ∈ order → t ∈ tasks := fun ht => hperm.mem_iff.1 ht
  have hchain : order.Pairwise fun a b => a.periodUs.toNat ∣ b.periodUs.toNat := by
    refine pairwise_dvd_of_harmonic (hsorted.imp_of_mem fun {a b} ha hb hab => ?_)
      (fun t ht => hpos t (hmem ht)) fun a ha b hb => hharm a (hmem ha) b (hmem hb)
    rw [← hD a (hmem ha), ← hD b (hmem hb)]
    simpa using hab
  have hdvd : ∀ t ∈ order, t.periodUs.toNat ∣ hp.toNat := fun t ht => hlcm ▸
    Multiset.dvd_lcm (Multiset.mem_coe.2 (List.mem_map_of_mem (hmem ht)))
  obtain ⟨placed, htasks, hslots⟩ := foldlM_placeTask_periodic hhp hhp0
    (fun t ht => hpos t (hmem ht)) hdvd (fun t ht => hD t (hmem ht)) hchain rfl hst
  refine ⟨placed, htasks ▸ hperm, ?_, fun p _ k hk => ?_⟩
  · rw [← hslots]
    exact G.stdSort.perm byOffset_strictWeak _
  · have hend := p.end_le hk
    exact UInt32.toNat_ofNat_of_lt' (show p.offset + k * p.task.periodUs.toNat < 2 ^ 32 by omega)

/-- Three tasks with periods 10, 10 and 20. -/
theorem placeTtSlots_periodic_three :
    let tasks : List ClassifiedTask := [.periodic (text "w") (text "c") 20 5 20,
      .periodic (text "w") (text "a") 10 2 10, .periodic (text "w") (text "b") 10 3 10]
    ∃ schedule', unconfigured.placeTtSlots 2 tasks 20 (.new 2) = .ok schedule' ∧
      ∃ placed : List PlacedTask, (placed.map (·.task)).Perm tasks ∧
        schedule'.ttSlots.Perm (placed.flatMap (·.slots 2 20)) := by
  intro tasks
  have hok : (unconfigured.placeTtSlots 2 tasks 20 (.new 2)).toOption.isSome = true := by
    decide +kernel
  obtain ⟨schedule', h⟩ := Option.isSome_iff_exists.1 hok
  have h := toOption_eq_some.1 h
  obtain ⟨placed, htasks, hslots, -⟩ := placeTtSlots_periodic unconfigured 2 tasks 20 (.new 2)
    schedule' (by decide) (by decide) (by decide) (by decide) (by decide +kernel) h
  exact ⟨schedule', h, placed, htasks, hslots⟩

end GlobalScheduler

end Timpani
