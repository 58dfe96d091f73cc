import Timpani.Bpf.Queues
import Timpani.Node.Writes

/-!
# Missed deadlines of TT tasks

When a TT task goes to sleep, `stopping` compares the clock with the deadline of the activation that
ends.  It takes the start of the activation from the `TaskMeta` of the task and the relative deadline
from the slot that is current on the CPU.  The one is a record that the daemon resets with every
table, the other moves on when TimerMaster fires the next slot.

The runs are those of the callbacks, in any order, with the slots that TimerMaster fires and the
single map writes that a table application consists of: the programs do not wait for the daemon.

* `exists_leads_tableCallback` : applying a table is a sequence of such writes;
* `exact_of_timely` : a miss is reported exactly when there is one, in every run in which no metadata
  is written during an activation and the slot that is current when a task goes to sleep has the
  deadline of the task;
* `deadline_of_another_slot` : a miss goes unreported because the next slot has started, and another
  is reported although there is none because a table arrived.
-/

namespace Timpani

/-! ### Runs -/

/-- The BPF state, and the history that the reports are about. -/
structure Monitored where
  bpf : BpfState
  /-- The latest wake-up of every process. -/
  wakeUp : UInt32 → Option UInt64
  /-- The processes whose metadata was written since. -/
  rewritten : Finset UInt32

namespace Monitored

inductive Action where
  | selectCpu (pid prevCpu : UInt32) (now : UInt64)
  | enqueue (pid : UInt32) (now : UInt64)
  | dispatch (cpu : UInt32) (now : UInt64)
  | running (pid cpu : UInt32) (now : UInt64)
  | stopping (pid cpu : UInt32) (runnable : Bool) (now : UInt64)
  /-- TimerMaster starts a slot, and notes when the next one starts. -/
  | slotFires (cpu slotIdx : UInt32) (nextStartNs : Option UInt64)
  | write (w : MapWrite)
  /-- FaultMonitor consumes an event. -/
  | pollFault

/-- The callbacks and what happens around them, in any order. -/
def machine : Machine Monitored Action where
  init k := k.bpf.taskMetaMap = .empty ∧ k.wakeUp = (fun _ => none) ∧ k.rewritten = ∅
  next k
    | .selectCpu pid prevCpu now => some
        { bpf := (k.bpf.selectCpu pid prevCpu now).1
          wakeUp := Function.update k.wakeUp pid (some now)
          rewritten := k.rewritten.erase pid }
    | .enqueue pid now => some { k with bpf := (k.bpf.enqueue pid now).1 }
    | .dispatch cpu now => some { k with bpf := (k.bpf.dispatch cpu now).1 }
    | .running pid cpu now => some { k with bpf := (k.bpf.running pid cpu now).1 }
    | .stopping pid cpu runnable now => some { k with bpf := k.bpf.stopping pid cpu runnable now }
    | .slotFires cpu slotIdx nextStartNs => some { k with bpf := { k.bpf with
        currentSlotMap := k.bpf.currentSlotMap.store cpu slotIdx
        nextTtStartMap := match nextStartNs with
          | some next => k.bpf.nextTtStartMap.store cpu next
          | none => k.bpf.nextTtStartMap } }
    | .write w => some { k with bpf := w.apply k.bpf, rewritten := k.rewritten ∪ w.pids }
    | .pollFault => some { k with bpf := { k.bpf with faultRingbuf := k.bpf.faultRingbuf.tail } }

end Monitored

/-! ### Deadlines -/

namespace BpfState

/-- The slot is one of the task. -/
def Owns (m : TaskMeta) (slot : TtSlotBpf) : Prop :=
  slot.workloadIdHash = m.workloadIdHash ∧ slot.taskIdHash = m.taskIdHash

instance {m : TaskMeta} {slot : TtSlotBpf} : Decidable (Owns m slot) :=
  inferInstanceAs (Decidable (_ ∧ _))

/-- The task has slots, and `deadlineUs` is the deadline of all of them. -/
def OwnDeadline (s : BpfState) (m : TaskMeta) (deadlineUs : UInt32) : Prop :=
  (∃ key slot, s.ttTableMap.lookup key = some slot ∧ Owns m slot) ∧
    ∀ key slot, s.ttTableMap.lookup key = some slot → Owns m slot → slot.deadlineUs = deadlineUs

instance {s : BpfState} {m : TaskMeta} {deadlineUs : UInt32} :
    Decidable (s.OwnDeadline m deadlineUs) :=
  decidable_of_iff
    ((∃ e ∈ s.ttTableMap.entries.toList, Owns m e.2) ∧
      ∀ e ∈ s.ttTableMap.entries.toList, Owns m e.2 → e.2.deadlineUs = deadlineUs) <| by
    simp only [OwnDeadline, BpfHash.lookup, Prod.exists, Prod.forall,
      Std.ExtTreeMap.mem_toList_iff_getElem?_eq_some]

/-- The slot that is current on the CPU has the given deadline. -/
def CurrentDeadline (s : BpfState) (cpu deadlineUs : UInt32) : Prop :=
  ∃ slotIdx slot, s.currentSlotMap.lookup cpu = some slotIdx ∧
    s.ttTableMap.lookup ⟨cpu, slotIdx⟩ = some slot ∧ slot.deadlineUs = deadlineUs

instance {s : BpfState} {cpu deadlineUs : UInt32} : Decidable (s.CurrentDeadline cpu deadlineUs) :=
  decidable_of_iff
    ((s.currentSlotMap.lookup cpu).any fun slotIdx =>
      (s.ttTableMap.lookup ⟨cpu, slotIdx⟩).any fun slot => slot.deadlineUs = deadlineUs) <| by
    simp only [CurrentDeadline, Option.any_eq_true, decide_eq_true_eq]
    exact ⟨fun ⟨i, hi, slot, hslot, h⟩ => ⟨i, slot, hi, hslot, h⟩,
      fun ⟨i, slot, hi, hslot, h⟩ => ⟨i, hi, slot, hslot, h⟩⟩

/-- A missed deadline of the task is the one event that was added. -/
def ReportsMiss (s s' : BpfState) (m : TaskMeta) : Prop :=
  ∃ e, s'.faultRingbuf = s.faultRingbuf ++ [e] ∧ e.faultType = .dmiss ∧
    e.workloadIdHash = m.workloadIdHash ∧ e.taskIdHash = m.taskIdHash

end BpfState

namespace Monitored

/-- When a TT task with deadline `deadlineUs` goes to sleep and there is room for an event, a missed
deadline is reported if and only if the deadline has passed since the latest wake-up. -/
def Exact (k : Monitored) : Action → Prop
  | .stopping pid cpu false now => ∀ m deadlineUs wakeUp,
      k.bpf.taskMetaMap.lookup pid = some m → m.schedulingType = .tt →
      k.bpf.OwnDeadline m deadlineUs → 0 < deadlineUs → k.bpf.faultRingbuf.length < 1170 →
      k.wakeUp pid = some wakeUp →
      (k.bpf.ReportsMiss (k.bpf.stopping pid cpu false now) m ↔
        wakeUp.toNat + 1000 * deadlineUs.toNat < now.toNat)
  | _ => True

/-- The clock is in its first 292 years.  When a TT task goes to sleep, its metadata has not been
written since it woke up, and the slot that is current on the CPU has the deadline of the task. -/
def Timely (k : Monitored) : Action → Prop
  | .selectCpu _ _ now => now.toNat < 2 ^ 63
  | .stopping pid cpu false _ => ∀ m, k.bpf.taskMetaMap.lookup pid = some m →
      m.schedulingType = .tt → pid ∉ k.rewritten ∧
        ∀ deadlineUs, k.bpf.OwnDeadline m deadlineUs → k.bpf.CurrentDeadline cpu deadlineUs
  | _ => True

end Monitored

/-! ### The noted wake-ups -/

/-- The wake-up noted for a TT task. -/
def TaskMeta.ttWakeUp (m : TaskMeta) : Option UInt64 :=
  if m.schedulingType = .tt then some m.activationNs else none

namespace BpfState

variable {s s' : BpfState} {pid pid' cpu : UInt32} {m : TaskMeta} {now : UInt64}

/-- The wake-up noted for a process, if it is a TT task. -/
def ttWakeUp (s : BpfState) (pid : UInt32) : Option UInt64 :=
  (s.taskMetaMap.lookup pid).bind TaskMeta.ttWakeUp

theorem ttWakeUp_congr (h : s'.taskMetaMap = s.taskMetaMap) : s'.ttWakeUp pid' = s.ttWakeUp pid' := by
  rw [ttWakeUp, h, ttWakeUp]

theorem ttWakeUp_of_modify {f : TaskMeta → TaskMeta}
    (h : s'.taskMetaMap = s.taskMetaMap.modify pid f)
    (hf : ∀ m, s.taskMetaMap.lookup pid = some m → (f m).ttWakeUp = m.ttWakeUp) :
    s'.ttWakeUp pid' = s.ttWakeUp pid' := by
  unfold ttWakeUp
  rw [h, BpfHash.lookup_modify]
  split_ifs with heq
  · subst heq
    cases hm : s.taskMetaMap.lookup pid with
    | none => rfl
    | some m => exact hf m hm
  · rfl

theorem ttWakeUp_selectCpu {prevCpu : UInt32} :
    (s.selectCpu pid prevCpu now).1.ttWakeUp pid' =
      if pid = pid' then (s.ttWakeUp pid).map fun _ => now else s.ttWakeUp pid' := by
  unfold selectCpu
  cases hm : s.taskMetaMap.lookup pid with
  | none =>
    split_ifs with heq
    · subst heq
      simp [ttWakeUp, hm]
    · rfl
  | some m =>
    dsimp only
    by_cases hbe : m.schedulingType = .bestEffort
    · rw [if_pos hbe]
      split_ifs with heq
      · subst heq
        simp [ttWakeUp, hm, TaskMeta.ttWakeUp, hbe]
      · rfl
    · rw [if_neg hbe]
      simp only [ttWakeUp, BpfHash.lookup_modify]
      split_ifs with heq
      · simp only [hm, Option.map_some, Option.bind_some, TaskMeta.ttWakeUp]
        split_ifs <;> rfl
      · rfl

theorem ttWakeUp_markTtRunnable : (s.markTtRunnable pid m cpu).ttWakeUp pid' = s.ttWakeUp pid' := by
  unfold markTtRunnable
  split_ifs
  · rfl
  · exact ttWakeUp_of_modify rfl fun _ _ => rfl

theorem ttWakeUp_markTtNotRunnable :
    (s.markTtNotRunnable pid m cpu).ttWakeUp pid' = s.ttWakeUp pid' := by
  unfold markTtNotRunnable
  split_ifs
  · exact ttWakeUp_of_modify rfl fun _ _ => rfl
  · rfl

theorem ttWakeUp_enqueue : (s.enqueue pid now).1.ttWakeUp pid' = s.ttWakeUp pid' := by
  unfold enqueue
  split
  · rfl
  · split
    · split_ifs
      · exact ttWakeUp_markTtRunnable
      · rfl
    · split
      · dsimp only
        split_ifs <;> rfl
      · rfl
    · rfl

theorem ttWakeUp_running : (s.running pid cpu now).1.ttWakeUp pid' = s.ttWakeUp pid' := by
  unfold running
  split <;> rfl

theorem ttWakeUp_dispatch : (s.dispatch cpu now).1.ttWakeUp pid' = s.ttWakeUp pid' :=
  ttWakeUp_congr taskMetaMap_dispatch

theorem ttWakeUp_stopping {runnable : Bool} :
    (s.stopping pid cpu runnable now).ttWakeUp pid' = s.ttWakeUp pid' := by
  unfold stopping
  cases hm : s.taskMetaMap.lookup pid with
  | none => rfl
  | some m =>
    have hclear : m.schedulingType = .cbs → ∀ m', s.taskMetaMap.lookup pid = some m' →
        TaskMeta.ttWakeUp { m' with activationNs := 0 } = m'.ttWakeUp := by
      intro hcbs m' hm'
      cases hm.symm.trans hm'
      simp [TaskMeta.ttWakeUp, hcbs]
    dsimp only
    split
    · next hcbs =>
      unfold stoppingCbs
      split
      · rfl
      · dsimp only
        split_ifs
        · exact ttWakeUp_of_modify rfl (hclear hcbs)
        · rfl
        · exact ttWakeUp_of_modify rfl (hclear hcbs)
        · rfl
        · rfl
    · split_ifs
      · rfl
      · unfold stoppingTt
        dsimp only
        split_ifs
        · exact (ttWakeUp_congr rfl).trans ttWakeUp_markTtNotRunnable
        · exact ttWakeUp_markTtNotRunnable
    · rfl

theorem ttWakeUp_write {w : MapWrite} (h : pid' ∉ w.pids) :
    (w.apply s).ttWakeUp pid' = s.ttWakeUp pid' := by
  cases w with
  | updateTaskMeta pid r =>
    have hne : ¬ pid = pid' := fun heq => h (by simp [MapWrite.pids, heq])
    simp only [ttWakeUp, MapWrite.apply, BpfHash.lookup_update, hne, false_and, if_false]
  | deleteTaskMeta pid =>
    have hne : ¬ pid = pid' := fun heq => h (by simp [MapWrite.pids, heq])
    simp only [ttWakeUp, MapWrite.apply, BpfHash.lookup_delete, hne, if_false]
  | updateTtSlot | deleteTtSlot | updateCbsState | deleteCbsState => rfl

/-! ### The report -/

@[simp] theorem faultRingbuf_markTtNotRunnable :
    (s.markTtNotRunnable pid m cpu).faultRingbuf = s.faultRingbuf := by
  unfold markTtNotRunnable
  split_ifs <;> rfl

theorem slotDeadlineNs_congr (h : Frame s s') : s'.slotDeadlineNs cpu = s.slotDeadlineNs cpu := by
  unfold slotDeadlineNs
  rw [h.currentSlotMap, h.ttTableMap]

theorem slotDeadlineNs_of_currentDeadline {deadlineUs : UInt32}
    (h : s.CurrentDeadline cpu deadlineUs) (hpos : 0 < deadlineUs) :
    s.slotDeadlineNs cpu = deadlineUs.toUInt64 * 1000 := by
  obtain ⟨slotIdx, slot, hidx, hslot, rfl⟩ := h
  unfold slotDeadlineNs
  rw [hidx]
  dsimp only
  rw [hslot]
  dsimp only
  rw [if_pos hpos]

theorem reportsMiss_stopping_iff (hm : s.taskMetaMap.lookup pid = some m)
    (htt : m.schedulingType = .tt) (hroom : s.faultRingbuf.length < 1170) :
    s.ReportsMiss (s.stopping pid cpu false now) m ↔
      m.activationNs + s.slotDeadlineNs cpu < now := by
  have hstop : s.stopping pid cpu false now = s.stoppingTt pid m cpu now := by
    unfold stopping
    rw [hm]
    dsimp only
    rw [htt]
    rfl
  rw [hstop]
  unfold stoppingTt
  dsimp only
  rw [slotDeadlineNs_congr frame_markTtNotRunnable]
  split_ifs with hlate
  · refine iff_of_true ⟨⟨m.workloadIdHash, m.taskIdHash, cpu, m.activationNs + s.slotDeadlineNs cpu,
      some now, .dmiss⟩, ?_, rfl, rfl, rfl⟩ hlate
    simp only [submitFault, faultRingbuf_markTtNotRunnable, if_pos hroom]
  · refine iff_of_false ?_ hlate
    rintro ⟨e, he, -⟩
    rw [faultRingbuf_markTtNotRunnable] at he
    simp at he

end BpfState

theorem toNat_add_deadline {wakeUp : UInt64} {deadlineUs : UInt32} (h : wakeUp.toNat < 2 ^ 63) :
    (wakeUp + deadlineUs.toUInt64 * 1000).toNat = wakeUp.toNat + 1000 * deadlineUs.toNat := by
  have hlt := deadlineUs.toNat_lt
  rw [UInt64.toNat_add, UInt64.toNat_mul, UInt32.toNat_toUInt64]
  simp only [UInt64.reduceToNat]
  omega

/-! ### Main results -/

namespace Monitored

variable {k k' : Monitored} {a : Action}

/-- The wake-ups that are noted for TT tasks and were not overwritten are the latest ones. -/
def Noted (k : Monitored) : Prop :=
  ∀ pid t, pid ∉ k.rewritten → k.bpf.ttWakeUp pid = some t →
    k.wakeUp pid = some t ∧ t.toNat < 2 ^ 63

theorem noted_init (h : machine.init k) : Noted k := by
  obtain ⟨hempty, -, -⟩ := h
  intro pid t _ ht
  rw [BpfState.ttWakeUp, hempty, BpfHash.lookup_empty] at ht
  cases ht

theorem Noted.next (h : Noted k) (hok : Timely k a) (hn : machine.next k a = some k') :
    Noted k' := by
  have hsame : ∀ s : BpfState, (∀ pid, s.ttWakeUp pid = k.bpf.ttWakeUp pid) →
      Noted { k with bpf := s } :=
    fun s hs pid t hpid ht => h pid t hpid ((hs pid).symm.trans ht)
  cases a with
  | selectCpu pid prevCpu now =>
    cases hn
    intro pid' t hpid' ht
    dsimp only at hpid' ht ⊢
    rw [BpfState.ttWakeUp_selectCpu] at ht
    by_cases heq : pid = pid'
    · subst heq
      rw [if_pos rfl, Option.map_eq_some_iff] at ht
      obtain ⟨_, -, rfl⟩ := ht
      exact ⟨Function.update_self .., hok⟩
    · rw [if_neg heq] at ht
      rw [Function.update_of_ne (Ne.symm heq)]
      exact h pid' t (fun hmem => hpid' (Finset.mem_erase.2 ⟨Ne.symm heq, hmem⟩)) ht
  | enqueue pid now =>
    cases hn
    exact hsame _ fun _ => BpfState.ttWakeUp_enqueue
  | dispatch cpu now =>
    cases hn
    exact hsame _ fun _ => BpfState.ttWakeUp_dispatch
  | running pid cpu now =>
    cases hn
    exact hsame _ fun _ => BpfState.ttWakeUp_running
  | stopping pid cpu runnable now =>
    cases hn
    exact hsame _ fun _ => BpfState.ttWakeUp_stopping
  | slotFires cpu slotIdx nextStartNs =>
    cases hn
    exact hsame _ fun _ => rfl
  | pollFault =>
    cases hn
    exact hsame _ fun _ => rfl
  | write w =>
    cases hn
    intro pid t hpid ht
    obtain ⟨hold, hnew⟩ := not_or.1 fun hmem => hpid (Finset.mem_union.2 hmem)
    exact h pid t hold ((BpfState.ttWakeUp_write hnew).symm.trans ht)

theorem noted_of_reachableIf (h : machine.ReachableIf Timely k) : Noted k :=
  h.invariant (fun _ => noted_init) fun _ _ _ hk hok hn => hk.next hok hn

/-- Applying a table is a sequence of writes. -/
theorem exists_leads_tableCallback (k : Monitored) {n : Node} (hn : n.bpf = k.bpf)
    (findPid : ℕ → Option UInt32) (clock : ℕ → UInt64) (table : HierarchicalScheduleTable) :
    ∃ k', machine.Leads Timely k k' ∧ k'.bpf = (n.tableCallback findPid clock table).1.bpf ∧
      k'.wakeUp = k.wakeUp := by
  obtain ⟨ws, hws⟩ := n.written_tableCallback findPid clock table
  rw [hws, hn]
  clear hws hn
  induction ws generalizing k with
  | nil => exact ⟨k, .refl, rfl, rfl⟩
  | cons w ws ih =>
    obtain ⟨k', hlead, hbpf, hwake⟩ :=
      ih { k with bpf := w.apply k.bpf, rewritten := k.rewritten ∪ w.pids }
    exact ⟨k', .head ⟨.write w, trivial, rfl⟩ hlead, hbpf, hwake⟩

/-- **Missed deadlines are reported exactly** in every run in which the metadata of a TT task is not
written between its wake-up and its going to sleep, and the slot that is then current on the CPU has
the deadline of the task. -/
theorem exact_of_timely {k : Monitored} {a : Action} (hk : machine.ReachableIf Timely k)
    (ha : Timely k a) : k.Exact a := by
  cases a with
  | selectCpu | enqueue | dispatch | running | slotFires | write | pollFault => trivial
  | stopping pid cpu runnable now =>
    cases runnable with
    | true => trivial
    | false =>
      intro m deadlineUs wakeUp hm htt hown hpos hroom hwake
      obtain ⟨hfresh, hcurrent⟩ := ha m hm htt
      have hnoted : k.bpf.ttWakeUp pid = some m.activationNs := by
        rw [BpfState.ttWakeUp, hm, Option.bind_some, TaskMeta.ttWakeUp, if_pos htt]
      obtain ⟨hlatest, hclock⟩ := noted_of_reachableIf hk pid _ hfresh hnoted
      cases hwake.symm.trans hlatest
      rw [BpfState.reportsMiss_stopping_iff hm htt hroom,
        BpfState.slotDeadlineNs_of_currentDeadline (hcurrent _ hown) hpos, UInt64.lt_iff_toNat_lt,
        toNat_add_deadline hclock]

/-! ### Three runs -/

/-- A freshly loaded scheduler with the isolated CPU 2. -/
def booted : Monitored := ⟨Kernel.booted.bpf, fun _ => none, ∅⟩

theorem init_booted : machine.init booted := ⟨rfl, rfl, rfl⟩

/-- A table with two tasks on CPU 2: process 7 has a deadline of 5 ms, process 8 one of 50 ms. -/
def applyTable : List Action :=
  [.write (.updateTaskMeta 7 Kernel.ttTask),
    .write (.updateTtSlot ⟨2, 0⟩ ⟨1, 2, 0, 1000, 5000, 2⟩),
    .write (.updateTaskMeta 8 { Kernel.ttTask with taskIdHash := 3 }),
    .write (.updateTtSlot ⟨2, 1⟩ ⟨1, 3, 10000, 1000, 50000, 2⟩)]

/-- The same table arrives again: its slots are deleted first. -/
def applyTableAgain : List Action :=
  [.write (.deleteTtSlot ⟨2, 0⟩), .write (.deleteTtSlot ⟨2, 1⟩)] ++ applyTable

/-- Process 7 is in its first slot. -/
def firstSlot (wakeUp : UInt64) : List Action :=
  applyTable ++ [.slotFires 2 0 none, .selectCpu 7 2 wakeUp, .enqueue 7 wakeUp, .running 7 2 wakeUp]

/-- What is registered about process 7, in its first slot. -/
def metaOf (activationNs : UInt64) (ttRunnable : Bool) : TaskMeta :=
  { Kernel.ttTask.toMeta with activationNs, ttRunnable }

/-- Process 7 wakes up at 1 ms and goes to sleep at 7 ms, in its slot: the miss is reported. -/
theorem reported_in_own_slot :
    ∃ k, machine.ReachableIf Timely k ∧ k.Exact (.stopping 7 2 false 7000000) ∧
      k.bpf.ReportsMiss (k.bpf.stopping 7 2 false 7000000) (metaOf 1000000 true) := by
  have heval : (machine.exec booted (firstSlot 1000000)).any (fun k => decide
      (k.bpf.taskMetaMap.lookup 7 = some (metaOf 1000000 true) ∧
        k.bpf.OwnDeadline (metaOf 1000000 true) 5000 ∧ k.bpf.CurrentDeadline 2 5000 ∧
        k.bpf.faultRingbuf = [] ∧ k.wakeUp 7 = some 1000000 ∧ 7 ∉ k.rewritten)) = true := by
    decide +kernel
  obtain ⟨k, hk, hall⟩ := (Option.any_eq_true _ _).1 heval
  obtain ⟨hm, hown, hcurrent, hring, hwake, hfresh⟩ := of_decide_eq_true hall
  have hreach : machine.ReachableIf Timely k :=
    (Machine.ReachableIf.of_init init_booted).leads (Machine.leads_of_exec (by
      simp only [firstSlot, applyTable, List.cons_append, List.nil_append, List.mem_cons,
        List.not_mem_nil, or_false]
      rintro a (rfl | rfl | rfl | rfl | rfl | rfl | rfl | rfl) k
      case inr.inr.inr.inr.inr.inl => exact (by decide : (1000000 : UInt64).toNat < 2 ^ 63)
      all_goals trivial) hk)
  have htimely : Timely k (.stopping 7 2 false 7000000) := by
    intro m hm' _
    cases hm.symm.trans hm'
    refine ⟨hfresh, fun deadlineUs hown' => ?_⟩
    obtain ⟨key, slot, hslot, howns⟩ := hown.1
    rw [← hown'.2 key slot hslot howns, hown.2 key slot hslot howns]
    exact hcurrent
  have hexact := exact_of_timely hreach htimely
  refine ⟨k, hreach, hexact, (hexact _ 5000 1000000 hm rfl hown (by decide) ?_ hwake).2 (by decide)⟩
  rw [hring]
  decide

/-- Process 7 wakes up at 1 ms and goes to sleep at 12 ms, when the slot of process 8 has started:
its miss is not reported.  It wakes up at 20 ms and goes to sleep at 21 ms, but the table was applied
again in between: a miss is reported. -/
theorem deadline_of_another_slot :
    (∃ k, machine.Reachable k ∧ ¬ k.Exact (.stopping 7 2 false 12000000) ∧
      (k.bpf.stopping 7 2 false 12000000).faultRingbuf = []) ∧
    ∃ k, machine.Reachable k ∧ ¬ k.Exact (.stopping 7 2 false 21000000) ∧
      k.bpf.ReportsMiss (k.bpf.stopping 7 2 false 21000000) (metaOf 0 false) := by
  constructor
  · have heval : (machine.exec booted (firstSlot 1000000 ++ [.slotFires 2 1 none])).any (fun k =>
        decide (k.bpf.taskMetaMap.lookup 7 = some (metaOf 1000000 true) ∧
          k.bpf.OwnDeadline (metaOf 1000000 true) 5000 ∧ k.bpf.slotDeadlineNs 2 = 50000000 ∧
          k.bpf.faultRingbuf = [] ∧ k.wakeUp 7 = some 1000000 ∧
          (k.bpf.stopping 7 2 false 12000000).faultRingbuf = [])) = true := by
      decide +kernel
    obtain ⟨k, hk, hall⟩ := (Option.any_eq_true _ _).1 heval
    obtain ⟨hm, hown, hslot, hring, hwake, hafter⟩ := of_decide_eq_true hall
    have hroom : k.bpf.faultRingbuf.length < 1170 := by rw [hring]; decide
    refine ⟨k, Machine.reachable_of_exec init_booted hk, fun h => ?_, hafter⟩
    have hmiss := (h _ 5000 1000000 hm rfl hown (by decide) hroom hwake).2 (by decide)
    rw [BpfState.reportsMiss_stopping_iff hm rfl hroom, hslot] at hmiss
    exact absurd hmiss (by decide)
  · have heval : (machine.exec booted (firstSlot 20000000 ++ applyTableAgain)).any (fun k =>
        decide (k.bpf.taskMetaMap.lookup 7 = some (metaOf 0 false) ∧
          k.bpf.OwnDeadline (metaOf 0 false) 5000 ∧ k.bpf.slotDeadlineNs 2 = 5000000 ∧
          k.bpf.faultRingbuf = [] ∧ k.wakeUp 7 = some 20000000)) = true := by
      decide +kernel
    obtain ⟨k, hk, hall⟩ := (Option.any_eq_true _ _).1 heval
    obtain ⟨hm, hown, hslot, hring, hwake⟩ := of_decide_eq_true hall
    have hroom : k.bpf.faultRingbuf.length < 1170 := by rw [hring]; decide
    have hmiss : k.bpf.ReportsMiss (k.bpf.stopping 7 2 false 21000000) (metaOf 0 false) := by
      rw [BpfState.reportsMiss_stopping_iff hm rfl hroom, hslot]
      decide
    refine ⟨k, Machine.reachable_of_exec init_booted hk, fun h => ?_, hmiss⟩
    exact absurd ((h _ 5000 20000000 hm rfl hown (by decide) hroom hwake).1 hmiss) (by decide)

end Monitored

end Timpani
