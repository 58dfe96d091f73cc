import Timpani.Bpf.Accounting
import Timpani.Node.Firings
import Timpani.Node.Writes

/-!
# CBS tasks run in the gaps

Two mechanisms keep CBS tasks out of the slots of an isolated CPU.  While a TT task is runnable there,
`dispatch` takes none from their queue; and `running` cuts the slice of one that starts at the next
slot, which TimerMaster announces in `next_tt_start_map`.

The announcement is in terms of the monotonic clock: TimerMaster reads it after it has woken up, and
adds the distance to the next slot.  So it is late by as much as TimerMaster itself was.

The runs are those of the callbacks, with the firings of the threads and the writes of the daemon in
between.

* `Guarded.machine` : the callbacks and the thread of a CPU;
* `Guarded.cbs_in_gaps` : **CBS tasks run in the gaps**: a CPU takes one exactly when no TT task is
  runnable on it, and its slice ends at the announced start or after a microsecond.
-/

namespace Timpani

open TimerMaster (CpuThread)

/-! ### Slices -/

namespace BpfState

variable {s : BpfState} {pid cpu : UInt32} {m : TaskMeta} {now : UInt64}

theorem nextTtStartMap_selectCpu {prevCpu : UInt32} :
    (s.selectCpu pid prevCpu now).1.nextTtStartMap = s.nextTtStartMap := by
  unfold selectCpu
  split
  · split <;> rfl
  · rfl

theorem nextTtStartMap_markTtRunnable :
    (s.markTtRunnable pid m cpu).nextTtStartMap = s.nextTtStartMap := by
  unfold markTtRunnable
  split_ifs <;> rfl

theorem nextTtStartMap_markTtNotRunnable :
    (s.markTtNotRunnable pid m cpu).nextTtStartMap = s.nextTtStartMap := by
  unfold markTtNotRunnable
  split_ifs <;> rfl

theorem nextTtStartMap_enqueue : (s.enqueue pid now).1.nextTtStartMap = s.nextTtStartMap := by
  unfold enqueue
  split
  · rfl
  · split
    · split_ifs
      · exact nextTtStartMap_markTtRunnable
      · rfl
    · split
      · dsimp only
        split_ifs <;> rfl
      · rfl
    · rfl

theorem nextTtStartMap_running : (s.running pid cpu now).1.nextTtStartMap = s.nextTtStartMap := by
  unfold running
  split <;> rfl

theorem nextTtStartMap_dispatch : (s.dispatch cpu now).1.nextTtStartMap = s.nextTtStartMap := by
  obtain ⟨_, _, _, h⟩ := s.exists_dispatch_eq cpu now
  rw [h]

theorem nextTtStartMap_stopping {runnable : Bool} :
    (s.stopping pid cpu runnable now).nextTtStartMap = s.nextTtStartMap := by
  unfold stopping
  split
  · rfl
  · split
    · unfold stoppingCbs
      split
      · rfl
      · dsimp only
        split_ifs <;> rfl
    · split_ifs
      · rfl
      · unfold stoppingTt
        dsimp only
        split_ifs <;> exact nextTtStartMap_markTtNotRunnable
    · rfl

theorem usUntilNextTt_le {next : UInt64} (hnext : s.nextTtStartMap.lookup cpu = some next)
    (hne : next ≠ 0) :
    (s.usUntilNextTt cpu now).toNat ≤ max 1 ((next.toNat - now.toNat) / 1000) := by
  unfold usUntilNextTt
  rw [hnext]
  dsimp only
  rw [if_neg hne]
  by_cases hle : next ≤ now
  · rw [if_pos hle]
    exact le_max_left _ _
  · rw [if_neg hle]
    have hdelta : ((next - now) / 1000).toNat = (next.toNat - now.toNat) / 1000 := by
      rw [UInt64.toNat_div, UInt64.toNat_sub_of_le next now (UInt64.le_of_lt (UInt64.not_le.1 hle))]
      rfl
    split_ifs with hzero hbig
    · exact le_max_left _ _
    · have hbig' := UInt64.lt_iff_toNat_lt.1 hbig
      rw [hdelta] at hbig'
      exact (Nat.le_of_lt hbig').trans (le_max_right _ _)
    · rw [UInt64.toNat_toUInt32, hdelta]
      exact (Nat.mod_le _ _).trans (le_max_right _ _)

theorem slice_le {next slice : UInt64} (hnext : s.nextTtStartMap.lookup cpu = some next)
    (hne : next ≠ 0) (h : (s.running pid cpu now).2 = some slice) :
    now.toNat + slice.toNat ≤ max next.toNat (now.toNat + 1000) := by
  have hlimit := @usUntilNextTt_le s cpu now next hnext hne
  unfold running at h
  split at h
  · next key c _ =>
    have hslice : slice.toNat ≤ max 1 (s.usUntilNextTt cpu now).toNat * 1000 := by
      cases h
      rw [toNat_toUInt64_mul]
      refine Nat.mul_le_mul_right 1000 ?_
      split_ifs with hlt hzero hzero
      · exact le_max_left _ _
      · exact le_max_right _ _
      · exact le_max_left _ _
      · rw [UInt32.not_lt, UInt32.le_iff_toNat_le] at hlt
        exact hlt.trans (le_max_right _ _)
    omega
  · cases h

end BpfState

/-! ### The callbacks and the thread of a CPU -/

/-- The kernel, the thread of a CPU, and what the thread fired last: the target, and the time on the
monotonic clock. -/
structure Guarded where
  kernel : Kernel
  thread : CpuThread
  last : Option (UInt64 × UInt64)

namespace Guarded

inductive Action where
  | kernel (a : Kernel.Action)
  /-- The daemon writes a slot or a server. -/
  | write (w : MapWrite)
  | fire (nowMonoNs : UInt64)
  /-- The thread of another CPU fires. -/
  | fireOther (cpu slotIdx : UInt32) (nextStartNs : Option UInt64)

/-- The callbacks, the writes of the daemon and the firings, in any order. -/
def machine (cpu : UInt32) : Machine Guarded Action where
  init g := Kernel.init g.kernel ∧ g.last = none ∧ g.thread.hyperperiodNs ≠ 0 ∧
    ∀ e ∈ g.thread.cpuSlots, e.cpu = cpu
  next g
    | .kernel a => (Kernel.machine.next g.kernel a).map fun k => { g with kernel := k }
    | .write w => some { g with kernel.bpf := w.apply g.kernel.bpf }
    | .fire nowMonoNs => some
        { kernel := { g.kernel with bpf := g.thread.fire nowMonoNs g.kernel.bpf }
          thread := g.thread.advance
          last := some (g.thread.targetNs, nowMonoNs) }
    | .fireOther cpu' slotIdx nextStartNs =>
      if cpu' = cpu then none
      else some { g with kernel.bpf := { g.kernel.bpf with
        currentSlotMap := g.kernel.bpf.currentSlotMap.store cpu' slotIdx
        nextTtStartMap := match nextStartNs with
          | some next => g.kernel.bpf.nextTtStartMap.store cpu' next
          | none => g.kernel.bpf.nextTtStartMap } }

/-- The daemon writes no metadata of counted tasks, and the slot after the one that fires starts
later. -/
def Regular (g : Guarded) : Action → Prop
  | .kernel a => Kernel.Quiescent g.kernel a
  | .write w => w.pids = ∅
  | .fire _ => g.thread.targetNs < g.thread.advance.targetNs
  | .fireOther _ _ _ => True

/-! ### The invariant -/

/-- What holds along regular runs. -/
structure Inv (cpu : UInt32) (g : Guarded) : Prop where
  accounted : Kernel.Accounted g.kernel
  hyperperiod : g.thread.hyperperiodNs ≠ 0
  slots : ∀ e ∈ g.thread.cpuSlots, e.cpu = cpu
  /-- After a firing the slot after it is announced. -/
  announced : ∀ target mono, g.last = some (target, mono) → target < g.thread.targetNs ∧
    g.kernel.bpf.nextTtStartMap.lookup cpu = some (mono + (g.thread.targetNs - target))

variable {cpu : UInt32} {g g' : Guarded}

theorem nextTtStartMap_kernel {k k' : Kernel} {a : Kernel.Action}
    (h : Kernel.machine.next k a = some k') : k'.bpf.nextTtStartMap = k.bpf.nextTtStartMap := by
  cases a with
  | selectCpu pid prevCpu now => cases h; exact BpfState.nextTtStartMap_selectCpu
  | enqueue pid now =>
    simp only [Kernel.machine] at h
    split at h
    · cases h
    · cases h
      exact BpfState.nextTtStartMap_enqueue
  | dispatch cpu now => cases h; exact BpfState.nextTtStartMap_dispatch
  | running pid cpu now =>
    simp only [Kernel.machine] at h
    split_ifs at h
    cases h
    exact BpfState.nextTtStartMap_running
  | stopping pid runnable now =>
    simp only [Kernel.machine] at h
    split at h
    · cases h
      exact BpfState.nextTtStartMap_stopping
    · cases h
  | updateTaskMeta pid r => cases h; rfl
  | deleteTaskMeta pid => cases h; rfl

theorem Inv.ofFrame {bpf : BpfState} (h : Inv cpu g) (hf : BpfState.TtFrame g.kernel.bpf bpf)
    (hnext : bpf.nextTtStartMap.lookup cpu = g.kernel.bpf.nextTtStartMap.lookup cpu) :
    Inv cpu { g with kernel.bpf := bpf } where
  accounted := h.accounted.of_frame hf h.accounted.phase
  hyperperiod := h.hyperperiod
  slots := h.slots
  announced target mono hlast := by
    obtain ⟨hlt, hann⟩ := h.announced target mono hlast
    exact ⟨hlt, hnext.trans hann⟩

theorem Inv.fire {nowMonoNs : UInt64} (h : Inv cpu g) (hcpu : cpu.toNat < 128)
    (hlater : g.thread.targetNs < g.thread.advance.targetNs) :
    Inv cpu
      { kernel := { g.kernel with bpf := g.thread.fire nowMonoNs g.kernel.bpf }
        thread := g.thread.advance
        last := some (g.thread.targetNs, nowMonoNs) } := by
  have hslot : (g.thread.cpuSlots.get g.thread.nextSlotIdx).cpu = cpu :=
    h.slots _ (List.get_mem _ _)
  refine ⟨h.accounted.of_frame ⟨rfl, rfl, rfl, fun _ => rfl⟩ h.accounted.phase, ?_, ?_, ?_⟩
  · have hsame : g.thread.advance.hyperperiodNs = g.thread.hyperperiodNs := by
      unfold CpuThread.advance
      split_ifs <;> rfl
    exact fun hzero => h.hyperperiod (hsame.symm.trans hzero)
  · intro e he
    rw [TimerMaster.CpuThread.cpuSlots_advance] at he
    exact h.slots e he
  · rintro target mono ⟨⟩
    refine ⟨hlater, ?_⟩
    -- the look-ahead of the firing is the next target
    have hnext := g.thread.nextTtStart_eq h.hyperperiod
    have hgt : g.thread.nextTtStart > g.thread.targetNs := by rwa [hnext]
    have hstore : (g.thread.fire nowMonoNs g.kernel.bpf).nextTtStartMap =
        g.kernel.bpf.nextTtStartMap.store cpu
          (nowMonoNs + (g.thread.nextTtStart - g.thread.targetNs)) := by
      rw [← hslot]
      exact if_pos hgt
    rw [hstore, BpfArray.lookup_store, if_pos hcpu, if_pos rfl, hnext]

theorem Inv.next {a : Action} (h : Inv cpu g) (hcpu : cpu.toNat < 128) (hok : Regular g a)
    (hn : (machine cpu).next g a = some g') : Inv cpu g' := by
  cases a with
  | kernel a =>
    obtain ⟨k', hk', rfl⟩ := Option.map_eq_some_iff.1 hn
    refine ⟨h.accounted.next hok hk', h.hyperperiod, h.slots, fun target mono hlast => ?_⟩
    rw [nextTtStartMap_kernel hk']
    exact h.announced target mono hlast
  | write w =>
    cases hn
    cases w with
    | updateTaskMeta pid r => simp [Regular, MapWrite.pids] at hok
    | deleteTaskMeta pid => simp [Regular, MapWrite.pids] at hok
    | updateTtSlot key slot => exact h.ofFrame ⟨rfl, rfl, rfl, fun _ => rfl⟩ rfl
    | deleteTtSlot key => exact h.ofFrame ⟨rfl, rfl, rfl, fun _ => rfl⟩ rfl
    | updateCbsState key c => exact h.ofFrame ⟨rfl, rfl, rfl, fun _ => rfl⟩ rfl
    | deleteCbsState key => exact h.ofFrame ⟨rfl, rfl, rfl, fun _ => rfl⟩ rfl
  | fire nowMonoNs =>
    cases hn
    exact h.fire hcpu hok
  | fireOther cpu' slotIdx nextStartNs =>
    simp only [machine] at hn
    split_ifs at hn with hne
    cases hn
    refine h.ofFrame ⟨rfl, rfl, rfl, fun _ => rfl⟩ ?_
    cases nextStartNs with
    | none => rfl
    | some next =>
      change (g.kernel.bpf.nextTtStartMap.store cpu' next).lookup cpu = _
      rw [BpfArray.lookup_store]
      split_ifs
      rfl

theorem inv_of_reachableIf (hcpu : cpu.toNat < 128) (h : (machine cpu).ReachableIf Regular g) :
    Inv cpu g := by
  refine h.invariant (I := Inv cpu) ?_ fun g a g' hg hok hn => hg.next hcpu hok hn
  rintro g ⟨hinit, hlast, hhp, hslots⟩
  refine ⟨Kernel.accounted_init hinit, hhp, hslots, fun target mono hsome => ?_⟩
  rw [hlast] at hsome
  cases hsome

/-! ### The gaps -/

theorem ttActiveOnCpu_iff (h : Kernel.Accounted g.kernel)
    (hiso : g.kernel.bpf.isolated cpu = true) (now : UInt64) :
    g.kernel.bpf.ttActiveOnCpu cpu now = true ↔ g.kernel.runnableOn cpu ≠ ∅ := by
  obtain ⟨⟨n, hn, hcard⟩, hidle⟩ := h.counted cpu hiso
  refine ⟨fun hactive hempty => ?_, fun hne => ?_⟩
  · rw [hidle hempty now] at hactive
    cases hactive
  · have hpos : 0 < n := by
      rw [UInt32.lt_iff_toNat_lt, hcard]
      exact Finset.card_pos.2 (Finset.nonempty_iff_ne_empty.2 hne)
    simp [BpfState.ttActiveOnCpu, hn, hpos]

/-- **CBS tasks run in the gaps.**  In every regular run an isolated CPU is given a CBS task exactly
when no TT task is runnable on it and one is waiting.  After the thread of the CPU has fired a slot, a
CBS task that starts is given a slice that ends when the next slot is due, counted from the time of
the firing, or after a microsecond. -/
theorem cbs_in_gaps (h : (machine cpu).ReachableIf Regular g)
    (hiso : g.kernel.bpf.isolated cpu = true) :
    (∀ now, (g.kernel.bpf.dispatch cpu now).2 =
      if g.kernel.runnableOn cpu = ∅ then
        (g.kernel.bpf.promoteThrottledIfReplenished now).1.dsqCbs.head?
      else none) ∧
    ∀ target mono, g.last = some (target, mono) →
      mono.toNat + (g.thread.targetNs.toNat - target.toNat) < 2 ^ 64 →
      ∀ pid now slice, (g.kernel.bpf.running pid cpu now).2 = some slice →
        now.toNat + slice.toNat ≤
          max (mono.toNat + (g.thread.targetNs.toNat - target.toNat)) (now.toNat + 1000) := by
  have hinv := inv_of_reachableIf (BpfState.lt_of_isolated hiso) h
  refine ⟨fun now => ?_, fun target mono hlast hfits pid now slice hslice => ?_⟩
  · have hactive := ttActiveOnCpu_iff hinv.accounted hiso now
    unfold BpfState.dispatch
    split_ifs with hheld hempty hempty
    · exact absurd hempty (hactive.1 hheld)
    · rfl
    · cases hq : (g.kernel.bpf.promoteThrottledIfReplenished now).1.dsqCbs <;> simp [hq]
    · exact absurd (hactive.2 hempty) hheld
  obtain ⟨hlt, hann⟩ := hinv.announced target mono hlast
  have hsub : (g.thread.targetNs - target).toNat = g.thread.targetNs.toNat - target.toNat :=
    UInt64.toNat_sub_of_le _ _ (UInt64.le_of_lt hlt)
  have hnext : (mono + (g.thread.targetNs - target)).toNat =
      mono.toNat + (g.thread.targetNs.toNat - target.toNat) := by
    rw [UInt64.toNat_add, hsub, Nat.mod_eq_of_lt hfits]
  have hpos := UInt64.lt_iff_toNat_lt.1 hlt
  have hne : mono + (g.thread.targetNs - target) ≠ 0 := by
    rw [Ne, ← UInt64.toNat_inj, hnext]
    simp only [UInt64.toNat_zero]
    omega
  rw [← hnext]
  exact BpfState.slice_le hann hne hslice

/-- CPU 2 has slots at 0 µs and 500 µs of a hyperperiod of 1 ms. -/
def twoSlots : Guarded where
  kernel := Kernel.booted
  thread :=
    { cpuSlots := [⟨2, 0, 0, 100000, 1, 1, [97]⟩, ⟨2, 1, 500000, 100000, 2, 1, [98]⟩]
      hyperperiodNs := 1000000
      nextSlotIdx := ⟨0, by decide⟩
      currentHyperperiodStart := 1000000 }
  last := none

/-- A task with a budget of 200 µs that starts 100 µs before the second slot is due gets 100 µs. -/
theorem cbs_in_gaps_before_slot :
    ∃ g, (machine 2).ReachableIf Regular g ∧ g.kernel.bpf.isolated 2 = true ∧
      g.last = some (1000000, 5000) ∧ g.thread.targetNs = 1500000 ∧
      (g.kernel.bpf.running 9 2 405000).2 = some 100000 ∧
      405000 + (100000 : UInt64).toNat ≤ max (5000 + (1500000 - 1000000)) (405000 + 1000) := by
  have hinit : (machine 2).init twoSlots :=
    ⟨Kernel.init_booted, rfl, by decide, by simp [twoSlots]⟩
  have hstart : (machine 2).ReachableIf Regular twoSlots := .of_init hinit
  have hmeta := hstart.next (a := .kernel (.updateTaskMeta 9 ⟨1, 2, 2, 0, .cbs, 1⟩))
    (fun c hc => by cases hc) rfl
  have hserver := hmeta.next (a := .write (.updateCbsState 3 ⟨2, 200, 1000, 200, 0, 900000, 1000⟩))
    (by exact rfl) rfl
  have hlater : twoSlots.thread.targetNs < twoSlots.thread.advance.targetNs := by decide
  have hfired := hserver.next (a := .fire 5000) (by exact hlater) rfl
  refine ⟨_, hfired, by decide, by decide, by decide, by decide +kernel, ?_⟩
  exact (cbs_in_gaps hfired (by decide)).2 1000000 5000 rfl (by decide) 9 405000 100000
    (by decide +kernel)

end Guarded

end Timpani
