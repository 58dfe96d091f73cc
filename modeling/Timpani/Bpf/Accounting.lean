import Timpani.Bpf.Callbacks
import Timpani.Run.Basic

/-!
# Accounting of runnable TT tasks

While `tt_runnable_count_map` is positive for a CPU, `dispatch` gives that CPU no CBS work.  The
count is raised when a TT task is enqueued and lowered when it stops sleeping; a flag in the task's
`TaskMeta` keeps it from being counted twice.  But `task_meta_map` also belongs to the daemon, which
overwrites and deletes its entries while it applies tables and evicts workloads.

The kernel drives the callbacks: a task is enqueued, runs on the CPU of its queue, and stops, either
preempted (it may then run again, with or without another `enqueue`) or asleep.

* `counted_of_quiescent` : the counts are exact in every run in which the daemon only writes the
  metadata of tasks that are not counted, and wrong as soon as another task stops after such a write;
* `cbs_blocked_after_update` : a table update while a TT task is runnable blocks CBS on its CPU.
-/

namespace Timpani

/-! ### The kernel and the daemon -/

/-- Where a task is. -/
inductive Phase where
  | sleeping
  | queued (dsq : Dsq)
  | running (cpu : UInt32)
  /-- It stopped runnable: it may run again on the CPU, or be enqueued again. -/
  | preempted (cpu : UInt32)
  deriving DecidableEq, Repr

/-- A CPU may take the task. -/
def Phase.mayRun : Phase → UInt32 → Bool
  | .queued (.localOn c), cpu => cpu = c
  | .queued _, _ => true
  | .preempted c, cpu => cpu = c
  | _, _ => false

/-- The BPF state, the phases of the tasks, and the history that the counts are about: for each CPU
the tasks that were enqueued as TT there and have not stopped asleep since. -/
structure Kernel where
  bpf : BpfState
  phase : UInt32 → Phase
  runnableOn : UInt32 → Finset UInt32

namespace Kernel

inductive Action where
  | selectCpu (pid prevCpu : UInt32) (now : UInt64)
  | enqueue (pid : UInt32) (now : UInt64)
  | dispatch (cpu : UInt32) (now : UInt64)
  | running (pid cpu : UInt32) (now : UInt64)
  | stopping (pid : UInt32) (runnable : Bool) (now : UInt64)
  | updateTaskMeta (pid : UInt32) (r : Registration)
  | deleteTaskMeta (pid : UInt32)

/-- The tasks that count after a task was put into a queue. -/
def noteEnqueue (k : Kernel) (pid : UInt32) : Dsq → UInt32 → Finset UInt32
  | .localOn c => Function.update k.runnableOn c (insert pid (k.runnableOn c))
  | _ => k.runnableOn

/-- Freshly loaded programs and any isolated CPUs. -/
def init (k : Kernel) : Prop :=
  k.bpf.taskMetaMap = .empty ∧ k.bpf.ttRunnableCountMap = .replicate 128 0 ∧
    k.bpf.ttActiveUntilMap = .replicate 128 0 ∧ k.phase = (fun _ => .sleeping) ∧
    k.runnableOn = fun _ => ∅

/-- The callbacks as the kernel calls them, interleaved with the daemon. -/
def machine : Machine Kernel Action where
  init := init
  next k
    | .selectCpu pid prevCpu now => some { k with bpf := (k.bpf.selectCpu pid prevCpu now).1 }
    | .enqueue pid now =>
      match k.phase pid with
      | .running _ => none
      | _ =>
        let (bpf, dsq, _) := k.bpf.enqueue pid now
        some { bpf, phase := Function.update k.phase pid (.queued dsq),
               runnableOn := k.noteEnqueue pid dsq }
    | .dispatch cpu now => some { k with bpf := (k.bpf.dispatch cpu now).1 }
    | .running pid cpu now =>
      if (k.phase pid).mayRun cpu then
        some { k with bpf := (k.bpf.running pid cpu now).1,
                      phase := Function.update k.phase pid (.running cpu) }
      else none
    | .stopping pid runnable now =>
      match k.phase pid with
      | .running cpu => some
          { bpf := k.bpf.stopping pid cpu runnable now
            phase := Function.update k.phase pid (if runnable then .preempted cpu else .sleeping)
            runnableOn := if runnable then k.runnableOn else fun c => (k.runnableOn c).erase pid }
      | _ => none
    | .updateTaskMeta pid r =>
      some { k with bpf := { k.bpf with
        taskMetaMap := (k.bpf.taskMetaMap.update pid r.toMeta).1 } }
    | .deleteTaskMeta pid =>
      some { k with bpf := { k.bpf with taskMetaMap := (k.bpf.taskMetaMap.delete pid).1 } }

/-- The count of every isolated CPU is the number of tasks it is about, and `dispatch` may serve CBS
where there are none. -/
def Counted (k : Kernel) : Prop :=
  ∀ c, k.bpf.isolated c = true →
    (∃ n, k.bpf.ttRunnableCountMap.lookup c = some n ∧ n.toNat = (k.runnableOn c).card) ∧
    (k.runnableOn c = ∅ → ∀ now, k.bpf.ttActiveOnCpu c now = false)

/-- The daemon writes the metadata of tasks that are not counted anywhere. -/
def Quiescent (k : Kernel) : Action → Prop
  | .updateTaskMeta pid _ => ∀ c, pid ∉ k.runnableOn c
  | .deleteTaskMeta pid => ∀ c, pid ∉ k.runnableOn c
  | _ => True

end Kernel

/-! ### What the accounting depends on -/

namespace BpfState

/-- The part of a `TaskMeta` the accounting reads. -/
def ttOf (s : BpfState) (pid : UInt32) : Option (SchedulingType × UInt32 × Bool) :=
  (s.taskMetaMap.lookup pid).map fun m => (m.schedulingType, m.assignedCpu, m.ttRunnable)

/-- Nothing the accounting reads has changed. -/
structure TtFrame (s s' : BpfState) : Prop where
  mask : s'.isolatedCpuMask = s.isolatedCpuMask
  counts : s'.ttRunnableCountMap = s.ttRunnableCountMap
  active : s'.ttActiveUntilMap = s.ttActiveUntilMap
  ttOf : ∀ pid, s'.ttOf pid = s.ttOf pid

variable {s s' : BpfState} {pid cpu : UInt32} {m : TaskMeta} {now : UInt64}

theorem TtFrame.refl (s : BpfState) : TtFrame s s := ⟨rfl, rfl, rfl, fun _ => rfl⟩

theorem TtFrame.isolated (h : TtFrame s s') (c : UInt32) : s'.isolated c = s.isolated c := by
  rw [BpfState.isolated, h.mask, BpfState.isolated]

theorem ttFrame_submitFault (e : FaultEvent) : TtFrame s (s.submitFault e) :=
  ⟨rfl, rfl, rfl, fun _ => rfl⟩

theorem ttOf_of_modify_activation {pid' : UInt32}
    (h : s'.taskMetaMap = s.taskMetaMap.modify pid ({ · with activationNs := now })) :
    s'.ttOf pid' = s.ttOf pid' := by
  unfold ttOf
  rw [h, BpfHash.lookup_modify]
  split_ifs with h
  · subst h
    cases s.taskMetaMap.lookup pid <;> rfl
  · rfl

theorem ttFrame_selectCpu {prevCpu : UInt32} : TtFrame s (s.selectCpu pid prevCpu now).1 := by
  unfold selectCpu
  split
  · split
    · exact .refl s
    · exact ⟨rfl, rfl, rfl, fun _ => ttOf_of_modify_activation rfl⟩
  · exact .refl s

theorem ttFrame_running : TtFrame s (s.running pid cpu now).1 := by
  unfold running
  split <;> exact ⟨rfl, rfl, rfl, fun _ => rfl⟩

theorem ttFrame_dispatch : TtFrame s (s.dispatch cpu now).1 := by
  obtain ⟨_, _, _, h⟩ := s.exists_dispatch_eq cpu now
  rw [h]
  exact ⟨rfl, rfl, rfl, fun _ => rfl⟩

theorem ttFrame_stoppingCbs : TtFrame s (s.stoppingCbs pid m cpu now) := by
  unfold stoppingCbs
  split
  · exact .refl s
  · dsimp only
    split_ifs
    · exact ⟨rfl, rfl, rfl, fun _ => ttOf_of_modify_activation rfl⟩
    · exact ⟨rfl, rfl, rfl, fun _ => rfl⟩
    · exact ⟨rfl, rfl, rfl, fun _ => ttOf_of_modify_activation rfl⟩
    · exact ⟨rfl, rfl, rfl, fun _ => rfl⟩
    · exact .refl s

theorem ttOf_of_modify_flag {pid' : UInt32} {flag : Bool} (hm : s.taskMetaMap.lookup pid = some m)
    (h : s'.taskMetaMap = s.taskMetaMap.modify pid ({ · with ttRunnable := flag })) :
    s'.ttOf pid' =
      if pid = pid' then some (m.schedulingType, m.assignedCpu, flag) else s.ttOf pid' := by
  unfold ttOf
  rw [h, BpfHash.lookup_modify]
  split_ifs
  · rw [hm]
    rfl
  · rfl

/-- `enqueue` counts a TT task of an isolated CPU, and leaves the accounting alone otherwise. -/
theorem enqueue_cases (s : BpfState) (pid : UInt32) (now : UInt64) :
    (TtFrame s (s.enqueue pid now).1 ∧ (∀ c, (s.enqueue pid now).2.1 ≠ .localOn c) ∧
      ∀ c flag, s.ttOf pid = some (.tt, c, flag) → s.isolated c ≠ true) ∨
    ∃ m, s.taskMetaMap.lookup pid = some m ∧ m.schedulingType = .tt ∧
      s.isolated m.assignedCpu = true ∧ (s.enqueue pid now).2.1 = .localOn m.assignedCpu ∧
      (s.enqueue pid now).1 = s.markTtRunnable pid m m.assignedCpu := by
  unfold enqueue ttOf
  cases hm : s.taskMetaMap.lookup pid with
  | none => exact Or.inl ⟨.refl s, by simp, by simp⟩
  | some m =>
    dsimp only
    cases ht : m.schedulingType with
    | tt =>
      dsimp only
      split_ifs with hi
      · exact Or.inr ⟨m, rfl, ht, hi, rfl, rfl⟩
      · refine Or.inl ⟨.refl s, by simp, fun c flag h => ?_⟩
        rw [Option.map_some, Option.some.injEq, Prod.mk.injEq, Prod.mk.injEq] at h
        rwa [← h.2.1]
    | bestEffort => exact Or.inl ⟨.refl s, by simp, by simp [ht]⟩
    | cbs =>
      dsimp only
      split
      · split_ifs <;> exact Or.inl ⟨⟨rfl, rfl, rfl, fun _ => rfl⟩, by simp, by simp [ht]⟩
      · exact Or.inl ⟨.refl s, by simp, by simp [ht]⟩

/-- `stopping` takes a sleeping TT task off the count, and leaves the accounting alone otherwise. -/
theorem stopping_cases (s : BpfState) (pid cpu : UInt32) (runnable : Bool) (now : UInt64) :
    (TtFrame s (s.stopping pid cpu runnable now) ∧
      (runnable = false → ∀ c flag, s.ttOf pid ≠ some (.tt, c, flag))) ∨
    ∃ m, s.taskMetaMap.lookup pid = some m ∧ m.schedulingType = .tt ∧ runnable = false ∧
      TtFrame (s.markTtNotRunnable pid m cpu) (s.stopping pid cpu runnable now) := by
  unfold stopping ttOf
  cases hm : s.taskMetaMap.lookup pid with
  | none => exact Or.inl ⟨.refl s, by simp⟩
  | some m =>
    dsimp only
    cases ht : m.schedulingType with
    | tt =>
      cases runnable with
      | true => exact Or.inl ⟨.refl s, by simp⟩
      | false =>
        refine Or.inr ⟨m, rfl, ht, rfl, ?_⟩
        rw [if_neg Bool.false_ne_true, stoppingTt]
        dsimp only
        split_ifs
        · exact ttFrame_submitFault _
        · exact .refl _
    | cbs => exact Or.inl ⟨ttFrame_stoppingCbs, by simp [ht]⟩
    | bestEffort => exact Or.inl ⟨.refl s, by simp [ht]⟩

/-- What `mark_tt_runnable` does. -/
structure MarkedRunnable (s : BpfState) (pid : UInt32) (m : TaskMeta) (cpu n : UInt32)
    (s' : BpfState) : Prop where
  mask : s'.isolatedCpuMask = s.isolatedCpuMask
  counts : ∀ c, s'.ttRunnableCountMap.lookup c =
    if cpu = c then some (if m.ttRunnable then n else n + 1) else s.ttRunnableCountMap.lookup c
  active : ∀ c ≠ cpu, s'.ttActiveUntilMap.lookup c = s.ttActiveUntilMap.lookup c
  ttOf : ∀ pid', s'.ttOf pid' =
    if pid = pid' then some (m.schedulingType, m.assignedCpu, true) else s.ttOf pid'

theorem markedRunnable {n : UInt32} (hm : s.taskMetaMap.lookup pid = some m)
    (hcpu : cpu.toNat < 128) (hn : s.ttRunnableCountMap.lookup cpu = some n) :
    MarkedRunnable s pid m cpu n (s.markTtRunnable pid m cpu) := by
  unfold markTtRunnable
  split_ifs with hflag
  · refine ⟨rfl, fun c => ?_, fun c hc => ?_, fun pid' => ?_⟩
    · rw [if_pos hflag]
      split_ifs with hc
      · rw [← hc, hn]
      · rfl
    · rw [BpfArray.lookup_store, if_neg hc.symm]
    · split_ifs with hpid
      · subst hpid
        rw [← hflag, BpfState.ttOf, hm]
        rfl
      · rfl
  · refine ⟨rfl, fun c => ?_, fun c hc => ?_, fun pid' => ttOf_of_modify_flag hm rfl⟩
    · rw [hn, if_neg hflag]
      dsimp only
      rw [BpfArray.lookup_store, if_pos hcpu]
    · rw [BpfArray.lookup_store, if_neg hc.symm]

/-- What `mark_tt_not_runnable` does to a task that is counted. -/
structure MarkedNotRunnable (s : BpfState) (pid : UInt32) (m : TaskMeta) (cpu n : UInt32)
    (s' : BpfState) : Prop where
  mask : s'.isolatedCpuMask = s.isolatedCpuMask
  counts : ∀ c, s'.ttRunnableCountMap.lookup c =
    if cpu = c then some (n - 1) else s.ttRunnableCountMap.lookup c
  active : ∀ c, s'.ttActiveUntilMap.lookup c =
    if cpu = c ∧ n - 1 = 0 then some 0 else s.ttActiveUntilMap.lookup c
  ttOf : ∀ pid', s'.ttOf pid' =
    if pid = pid' then some (m.schedulingType, m.assignedCpu, false) else s.ttOf pid'

theorem markedNotRunnable {n : UInt32} (hm : s.taskMetaMap.lookup pid = some m)
    (hflag : m.ttRunnable = true) (hcpu : cpu.toNat < 128)
    (hn : s.ttRunnableCountMap.lookup cpu = some n) (hpos : 0 < n) :
    MarkedNotRunnable s pid m cpu n (s.markTtNotRunnable pid m cpu) := by
  have hcounts : ∀ c, (s.ttRunnableCountMap.store cpu (n - 1)).lookup c =
      if cpu = c then some (n - 1) else s.ttRunnableCountMap.lookup c := fun c => by
    rw [BpfArray.lookup_store, if_pos hcpu]
  unfold markTtNotRunnable
  rw [if_pos hflag, hn]
  dsimp only
  rw [if_pos hpos]
  refine ⟨rfl, hcounts, fun c => ?_, fun pid' => ttOf_of_modify_flag hm rfl⟩
  dsimp only
  rw [hcounts, if_pos rfl, Option.getD_some]
  by_cases hzero : n - 1 = 0
  · rw [if_pos hzero, BpfArray.lookup_store, if_pos hcpu]
    simp [hzero]
  · rw [if_neg hzero, if_neg fun h => hzero h.2]

theorem markTtNotRunnable_of_not (hflag : m.ttRunnable = false) :
    s.markTtNotRunnable pid m cpu = s := by
  rw [markTtNotRunnable, hflag, if_neg Bool.false_ne_true]

theorem lt_of_isolated {c : UInt32} (h : s.isolated c = true) : c.toNat < 128 := by
  simp only [isolated, Bool.and_eq_true, decide_eq_true_eq] at h
  have := UInt32.lt_iff_toNat_lt.1 h.1
  simp at this
  omega

end BpfState

namespace Kernel

open BpfState

/-! ### The invariant -/

/-- The flags, the counts and the history fit together. -/
structure Accounted (k : Kernel) : Prop where
  flag : ∀ (pid : UInt32) t c, k.bpf.ttOf pid = some (t, c, true) → pid ∈ k.runnableOn c
  tt : ∀ c, ∀ pid ∈ k.runnableOn c, k.bpf.ttOf pid = some (.tt, c, true) ∧ k.bpf.isolated c = true
  phase : ∀ c, ∀ pid ∈ k.runnableOn c, k.phase pid = .queued (.localOn c) ∨
    k.phase pid = .running c ∨ k.phase pid = .preempted c
  count : ∀ c, k.bpf.isolated c = true →
    ∃ n, k.bpf.ttRunnableCountMap.lookup c = some n ∧ n.toNat = (k.runnableOn c).card
  idle : ∀ c, k.bpf.isolated c = true → k.runnableOn c = ∅ →
    k.bpf.ttActiveUntilMap.lookup c = some 0

variable {k k' : Kernel} {pid : UInt32} {now : UInt64}

theorem Accounted.counted (h : Accounted k) : Counted k := by
  intro c hc
  refine ⟨h.count c hc, fun hempty now => ?_⟩
  obtain ⟨n, hn, hcard⟩ := h.count c hc
  have hzero : n = 0 := by
    rw [← UInt32.toNat_inj, hcard, hempty]
    rfl
  simp [ttActiveOnCpu, hn, h.idle c hc hempty, hzero]

theorem accounted_init (h : init k) : Accounted k := by
  obtain ⟨hmeta, hcount, hactive, -, hrun⟩ := h
  have hnone : ∀ pid, k.bpf.ttOf pid = none := fun pid => by simp [ttOf, hmeta]
  refine ⟨fun pid t c hp => ?_, fun c pid hp => ?_, fun c pid hp => ?_, fun c hc => ⟨0, ?_, ?_⟩,
    fun c hc _ => ?_⟩
  · rw [hnone] at hp
    cases hp
  · rw [hrun] at hp
    cases hp
  · rw [hrun] at hp
    cases hp
  · simp [BpfArray.lookup, hcount, lt_of_isolated hc]
  · rw [hrun]
    rfl
  · simp [BpfArray.lookup, hactive, lt_of_isolated hc]

theorem Accounted.of_frame {bpf : BpfState} {phase : UInt32 → Phase} (h : Accounted k)
    (hf : TtFrame k.bpf bpf)
    (hp : ∀ c, ∀ pid ∈ k.runnableOn c, phase pid = .queued (.localOn c) ∨
      phase pid = .running c ∨ phase pid = .preempted c) :
    Accounted { k with bpf, phase } where
  flag pid t c hpid := h.flag pid t c (by rwa [← hf.ttOf])
  tt c pid hpid := by
    rw [hf.ttOf, hf.isolated]
    exact h.tt c pid hpid
  phase := hp
  count c hc := by
    rw [hf.isolated] at hc
    change ∃ n, bpf.ttRunnableCountMap.lookup c = some n ∧ _
    rw [hf.counts]
    exact h.count c hc
  idle c hc hempty := by
    rw [hf.isolated] at hc
    change bpf.ttActiveUntilMap.lookup c = some 0
    rw [hf.active]
    exact h.idle c hc hempty

/-- The tasks that count on a CPU have entries in `task_meta_map`, so the count does not wrap. -/
theorem Accounted.card_le (h : Accounted k) (c : UInt32) : (k.runnableOn c).card ≤ 4096 := by
  refine k.bpf.taskMetaMap.card_le fun pid hpid => ?_
  have := (h.tt c pid hpid).1
  rw [ttOf, Option.map_eq_some_iff] at this
  obtain ⟨m, hm, -⟩ := this
  rw [hm]
  rfl

theorem mem_update_insert {R : UInt32 → Finset UInt32} {c c' pid' : UInt32} :
    pid' ∈ Function.update R c (insert pid (R c)) c' ↔ c' = c ∧ pid' = pid ∨ pid' ∈ R c' := by
  by_cases hc : c' = c
  · subst hc
    simp
  · simp [hc]

theorem Accounted.eq_of_mem {m : TaskMeta} {c : UInt32} (h : Accounted k)
    (hm : k.bpf.taskMetaMap.lookup pid = some m) (hmem : pid ∈ k.runnableOn c) :
    c = m.assignedCpu ∧ m.ttRunnable = true := by
  have htt := (h.tt c pid hmem).1
  rw [ttOf, hm, Option.map_some, Option.some.injEq, Prod.mk.injEq, Prod.mk.injEq] at htt
  exact ⟨htt.2.1.symm, htt.2.2⟩

/-- The count of the CPU of a TT task that is enqueued: it goes up unless the task is flagged. -/
theorem Accounted.card_noteEnqueue {m : TaskMeta} {n : UInt32} (h : Accounted k)
    (hm : k.bpf.taskMetaMap.lookup pid = some m) (ht : m.schedulingType = .tt)
    (hcard : n.toNat = (k.runnableOn m.assignedCpu).card) :
    (if m.ttRunnable then n else n + 1).toNat =
      (k.noteEnqueue pid (.localOn m.assignedCpu) m.assignedCpu).card := by
  rw [noteEnqueue, Function.update_self]
  split_ifs with hflag
  · have hmem : pid ∈ k.runnableOn m.assignedCpu :=
      h.flag pid .tt _ (by rw [ttOf, hm, Option.map_some, ht, hflag])
    rw [Finset.insert_eq_of_mem hmem, hcard]
  · have hnew : pid ∉ k.runnableOn m.assignedCpu := fun hmem =>
      hflag (h.eq_of_mem hm hmem).2
    have hroom := h.card_le m.assignedCpu
    rw [← hcard] at hroom
    rw [Finset.card_insert_of_notMem hnew, UInt32.toNat_add, UInt32.toNat_one, ← hcard]
    exact Nat.mod_eq_of_lt (by omega)

theorem Accounted.enqueueTt {m : TaskMeta} (h : Accounted k)
    (hm : k.bpf.taskMetaMap.lookup pid = some m) (ht : m.schedulingType = .tt)
    (hi : k.bpf.isolated m.assignedCpu = true) :
    Accounted
      { bpf := k.bpf.markTtRunnable pid m m.assignedCpu
        phase := Function.update k.phase pid (.queued (.localOn m.assignedCpu))
        runnableOn := k.noteEnqueue pid (.localOn m.assignedCpu) } := by
  obtain ⟨n, hn, hcard⟩ := h.count _ hi
  have hmark := markedRunnable hm (lt_of_isolated hi) hn
  have hiso : ∀ c, (k.bpf.markTtRunnable pid m m.assignedCpu).isolated c = k.bpf.isolated c :=
    fun c => by rw [isolated, hmark.mask, isolated]
  refine ⟨fun pid' t c hpid => ?_, fun c pid' hpid => ?_, fun c pid' hpid => ?_, fun c hc => ?_,
    fun c hc hempty => ?_⟩
  · rw [hmark.ttOf] at hpid
    rw [noteEnqueue, mem_update_insert]
    split_ifs at hpid with heq
    · cases hpid
      exact Or.inl ⟨rfl, heq.symm⟩
    · exact Or.inr (h.flag pid' t c hpid)
  · rw [hiso, hmark.ttOf]
    rcases mem_update_insert.1 hpid with ⟨rfl, rfl⟩ | hold
    · rw [if_pos rfl, ht]
      exact ⟨rfl, hi⟩
    · refine ⟨?_, (h.tt c pid' hold).2⟩
      split_ifs with heq
      · subst heq
        rw [ht, (h.eq_of_mem hm hold).1]
      · exact (h.tt c pid' hold).1
  · rcases mem_update_insert.1 hpid with ⟨rfl, rfl⟩ | hold
    · exact Or.inl (Function.update_self ..)
    · by_cases heq : pid' = pid
      · subst heq
        rw [(h.eq_of_mem hm hold).1]
        exact Or.inl (Function.update_self ..)
      · dsimp only
        rw [Function.update_of_ne heq]
        exact h.phase c pid' hold
  · rw [hiso] at hc
    dsimp only
    rw [hmark.counts]
    by_cases heq : m.assignedCpu = c
    · subst heq
      rw [if_pos rfl]
      exact ⟨_, rfl, h.card_noteEnqueue hm ht hcard⟩
    · rw [if_neg heq, noteEnqueue, Function.update_of_ne (Ne.symm heq)]
      exact h.count c hc
  · rw [hiso] at hc
    have hne : c ≠ m.assignedCpu := by
      rintro rfl
      have hmem : pid ∈ k.noteEnqueue pid (.localOn m.assignedCpu) m.assignedCpu :=
        mem_update_insert.2 (Or.inl ⟨rfl, rfl⟩)
      change k.noteEnqueue pid (.localOn m.assignedCpu) m.assignedCpu = ∅ at hempty
      rw [hempty] at hmem
      cases hmem
    dsimp only [noteEnqueue] at hempty ⊢
    rw [Function.update_of_ne hne] at hempty
    rw [hmark.active c hne]
    exact h.idle c hc hempty

theorem Accounted.phase_update (h : Accounted k) (hnot : ∀ c, pid ∉ k.runnableOn c) (p : Phase) :
    ∀ c, ∀ pid' ∈ k.runnableOn c, Function.update k.phase pid p pid' = .queued (.localOn c) ∨
      Function.update k.phase pid p pid' = .running c ∨
      Function.update k.phase pid p pid' = .preempted c := by
  intro c pid' hpid
  have hne : pid' ≠ pid := fun heq => hnot c (heq ▸ hpid)
  rw [Function.update_of_ne hne]
  exact h.phase c pid' hpid

theorem erase_of_not_counted (hnot : ∀ c, pid ∉ k.runnableOn c) :
    (fun c => (k.runnableOn c).erase pid) = k.runnableOn :=
  funext fun c => Finset.erase_eq_of_notMem (hnot c)

theorem Accounted.stopTt {m : TaskMeta} {cpu : UInt32} (h : Accounted k)
    (hm : k.bpf.taskMetaMap.lookup pid = some m) (ht : m.schedulingType = .tt)
    (hflag : m.ttRunnable = true) (hrun : k.phase pid = .running cpu) :
    Accounted
      { bpf := k.bpf.markTtNotRunnable pid m cpu
        phase := Function.update k.phase pid .sleeping
        runnableOn := fun c => (k.runnableOn c).erase pid } := by
  have htt : k.bpf.ttOf pid = some (.tt, m.assignedCpu, true) := by
    rw [ttOf, hm, Option.map_some, ht, hflag]
  have honly : ∀ c, pid ∈ k.runnableOn c → c = m.assignedCpu := fun c hmem =>
    (h.eq_of_mem hm hmem).1
  have hmem := h.flag pid .tt _ htt
  -- it runs on the CPU it is counted for
  obtain rfl : m.assignedCpu = cpu := by
    have := h.phase _ pid hmem
    simpa [hrun, eq_comm] using this
  have hi := (h.tt _ pid hmem).2
  obtain ⟨n, hn, hcard⟩ := h.count _ hi
  have hpos : 0 < n := by
    rw [UInt32.lt_iff_toNat_lt, hcard]
    exact Finset.card_pos.2 ⟨pid, hmem⟩
  have hmark := markedNotRunnable hm hflag (lt_of_isolated hi) hn hpos
  have hiso : ∀ c, (k.bpf.markTtNotRunnable pid m m.assignedCpu).isolated c = k.bpf.isolated c :=
    fun c => by rw [isolated, hmark.mask, isolated]
  have hpred : (n - 1).toNat = n.toNat - 1 :=
    UInt32.toNat_sub_of_le _ _ (UInt32.le_iff_toNat_le.2 (UInt32.lt_iff_toNat_lt.1 hpos))
  refine ⟨fun pid' t c hpid => ?_, fun c pid' hpid => ?_, fun c pid' hpid => ?_, fun c hc => ?_,
    fun c hc hempty => ?_⟩
  · rw [hmark.ttOf] at hpid
    split_ifs at hpid with heq
    · cases hpid
    · exact Finset.mem_erase.2 ⟨Ne.symm heq, h.flag pid' t c hpid⟩
  · obtain ⟨hne, hold⟩ := Finset.mem_erase.1 hpid
    rw [hiso, hmark.ttOf, if_neg hne.symm]
    exact h.tt c pid' hold
  · obtain ⟨hne, hold⟩ := Finset.mem_erase.1 hpid
    dsimp only
    rw [Function.update_of_ne hne]
    exact h.phase c pid' hold
  · rw [hiso] at hc
    dsimp only
    rw [hmark.counts]
    split_ifs with heq
    · subst heq
      exact ⟨n - 1, rfl, by rw [Finset.card_erase_of_mem hmem, hpred, hcard]⟩
    · rw [Finset.erase_eq_of_notMem fun hp => heq (honly c hp).symm]
      exact h.count c hc
  · rw [hiso] at hc
    dsimp only at hempty ⊢
    rw [hmark.active]
    split_ifs with heq
    · rfl
    · by_cases hcpu : m.assignedCpu = c
      · -- the count of this CPU has become zero
        subst hcpu
        refine absurd ⟨rfl, ?_⟩ heq
        rw [← UInt32.toNat_inj, hpred, hcard, ← Finset.card_erase_of_mem hmem, hempty]
        rfl
      · rw [Finset.erase_eq_of_notMem fun hp => hcpu (honly c hp).symm] at hempty
        exact h.idle c hc hempty

theorem Accounted.stopping {cpu : UInt32} (h : Accounted k) (hrun : k.phase pid = .running cpu)
    (runnable : Bool) :
    Accounted
      { bpf := k.bpf.stopping pid cpu runnable now
        phase := Function.update k.phase pid (if runnable then .preempted cpu else .sleeping)
        runnableOn := if runnable then k.runnableOn
          else fun c => (k.runnableOn c).erase pid } := by
  rcases k.bpf.stopping_cases pid cpu runnable now with ⟨hf, hnot⟩ | ⟨m, hm, ht, rfl, hf⟩
  · cases runnable with
    | true =>
      refine h.of_frame hf fun c pid' hpid => ?_
      by_cases heq : pid' = pid
      · subst heq
        rw [Function.update_self]
        have := h.phase c pid' hpid
        simp [hrun] at this
        simp [this]
      · rw [Function.update_of_ne heq]
        exact h.phase c pid' hpid
    | false =>
      have hnone : ∀ c, pid ∉ k.runnableOn c := fun c hmem => hnot rfl c true (h.tt c pid hmem).1
      simp only [Bool.false_eq_true, if_false, erase_of_not_counted hnone]
      exact h.of_frame hf (h.phase_update hnone _)
  · simp only [Bool.false_eq_true, if_false]
    cases hflag : m.ttRunnable with
    | true =>
      have hstop := h.stopTt hm ht hflag hrun
      exact hstop.of_frame hf hstop.phase
    | false =>
      have hnone : ∀ c, pid ∉ k.runnableOn c := fun c hmem => by
        have := (h.tt c pid hmem).1
        rw [ttOf, hm, Option.map_some, hflag] at this
        simp at this
      rw [markTtNotRunnable_of_not hflag] at hf
      rw [erase_of_not_counted hnone]
      exact h.of_frame hf (h.phase_update hnone _)

theorem Accounted.enqueue (h : Accounted k) :
    Accounted
      { bpf := (k.bpf.enqueue pid now).1
        phase := Function.update k.phase pid (.queued (k.bpf.enqueue pid now).2.1)
        runnableOn := k.noteEnqueue pid (k.bpf.enqueue pid now).2.1 } := by
  rcases k.bpf.enqueue_cases pid now with ⟨hf, hdsq, hnot⟩ |
    ⟨m, hm, ht, hi, hdsq, hbpf⟩
  · have hsame : k.noteEnqueue pid (k.bpf.enqueue pid now).2.1 = k.runnableOn := by
      unfold noteEnqueue
      split
      · next c hc => exact absurd hc (hdsq c)
      · rfl
    rw [hsame]
    refine h.of_frame hf (h.phase_update (fun c hmem => ?_) _)
    exact hnot c true (h.tt c pid hmem).1 (h.tt c pid hmem).2
  · rw [hdsq, hbpf]
    exact h.enqueueTt hm ht hi

theorem Accounted.setMeta {metas : BpfHash 4096 UInt32 TaskMeta} (h : Accounted k)
    (hnot : ∀ c, pid ∉ k.runnableOn c)
    (hother : ∀ pid' ≠ pid, metas.lookup pid' = k.bpf.taskMetaMap.lookup pid')
    (hflag : ∀ m, metas.lookup pid = some m → m.ttRunnable = false ∨
      k.bpf.taskMetaMap.lookup pid = some m) :
    Accounted { k with bpf := { k.bpf with taskMetaMap := metas } } where
  flag pid' t c hpid := by
    by_cases heq : pid' = pid
    · subst heq
      rw [ttOf, Option.map_eq_some_iff] at hpid
      obtain ⟨m, hm, hmt⟩ := hpid
      rw [Prod.mk.injEq, Prod.mk.injEq] at hmt
      rcases hflag m hm with hfalse | hold
      · rw [hmt.2.2] at hfalse
        cases hfalse
      · exact h.flag pid' t c (by rw [ttOf, hold, Option.map_some, hmt.1, hmt.2.1, hmt.2.2])
    · exact h.flag pid' t c (by rwa [ttOf, hother pid' heq] at hpid)
  tt c pid' hpid := by
    have hne : pid' ≠ pid := fun heq => hnot c (heq ▸ hpid)
    rw [ttOf, hother pid' hne]
    exact h.tt c pid' hpid
  phase := h.phase
  count := h.count
  idle := h.idle

theorem Accounted.next {a : Action} (h : Accounted k) (hok : Quiescent k a)
    (hn : machine.next k a = some k') : Accounted k' := by
  cases a with
  | selectCpu pid prevCpu now => cases hn; exact h.of_frame ttFrame_selectCpu h.phase
  | dispatch cpu now => cases hn; exact h.of_frame ttFrame_dispatch h.phase
  | enqueue pid now =>
    dsimp only [machine] at hn
    split at hn
    · cases hn
    · cases hn; exact h.enqueue
  | running pid cpu now =>
    dsimp only [machine] at hn
    split_ifs at hn with hmay
    cases hn
    refine h.of_frame ttFrame_running fun c pid' hpid => ?_
    by_cases heq : pid' = pid
    · -- a counted task runs on the CPU it is counted for
      subst heq
      rw [Function.update_self]
      rcases h.phase c pid' hpid with hp | hp | hp <;>
        simp [hp, Phase.mayRun] at hmay <;> simp [hmay]
    · rw [Function.update_of_ne heq]
      exact h.phase c pid' hpid
  | stopping pid runnable now =>
    dsimp only [machine] at hn
    split at hn
    · next cpu hrun => cases hn; exact h.stopping hrun runnable
    · cases hn
  | updateTaskMeta pid r =>
    cases hn
    refine h.setMeta hok (fun pid' hne => ?_) fun m hm => ?_
    · rw [BpfHash.lookup_update, if_neg fun hp => hne hp.1.symm]
    · rw [BpfHash.lookup_update] at hm
      split_ifs at hm
      · cases hm; exact Or.inl rfl
      · exact Or.inr hm
  | deleteTaskMeta pid =>
    cases hn
    refine h.setMeta hok (fun pid' hne => ?_) fun m hm => ?_
    · rw [BpfHash.lookup_delete, if_neg hne.symm]
    · rw [BpfHash.lookup_delete, if_pos rfl] at hm
      cases hm

/-! ### Main results -/

theorem ttFrame_stopping_of_not {s : BpfState}
    (h : ∀ m, s.taskMetaMap.lookup pid = some m → m.ttRunnable = false) (cpu : UInt32)
    (runnable : Bool) (now : UInt64) :
    TtFrame s (s.stopping pid cpu runnable now) := by
  rcases s.stopping_cases pid cpu runnable now with ⟨hf, -⟩ | ⟨m, hm, -, -, hf⟩
  · exact hf
  · rwa [markTtNotRunnable_of_not (h m hm)] at hf

theorem Accounted.not_counted_of_stop {c : UInt32} {metas : BpfHash 4096 UInt32 TaskMeta}
    (h : Accounted k) (hmem : pid ∈ k.runnableOn c)
    (hflag : ∀ m, metas.lookup pid = some m → m.ttRunnable = false)
    (hn : machine.next { k with bpf := { k.bpf with taskMetaMap := metas } }
      (.stopping pid false now) = some k') : ¬ Counted k' := by
  dsimp only [machine] at hn
  split at hn
  · next cpu hrun =>
    cases hn
    intro hcounted
    have hf := ttFrame_stopping_of_not (s := { k.bpf with taskMetaMap := metas }) hflag cpu false now
    have hi := (h.tt c pid hmem).2
    obtain ⟨n, hcount, hcard⟩ := h.count c hi
    obtain ⟨⟨n', hcount', hcard'⟩, -⟩ := hcounted c (by rw [hf.isolated]; exact hi)
    rw [hf.counts] at hcount'
    obtain rfl : n = n' := Option.some.inj (hcount.symm.trans hcount')
    have hpos := Finset.card_pos.2 ⟨pid, hmem⟩
    have herase : ((k.runnableOn c).erase pid).card = n.toNat := hcard'.symm
    rw [Finset.card_erase_of_mem hmem] at herase
    omega
  · cases hn

/-- **The counts are exact** in every state of a run in which the daemon writes the metadata of
tasks only while they are not counted; if it writes that of a counted task, the count is wrong as
soon as the task falls asleep. -/
theorem counted_of_quiescent {k : Kernel} (hk : machine.ReachableIf Quiescent k) :
    Counted k ∧
    ∀ a k₁ now k₂ pid, ¬ Quiescent k a →
      (a = .deleteTaskMeta pid ∨ ∃ r, a = .updateTaskMeta pid r) → machine.next k a = some k₁ →
      machine.next k₁ (.stopping pid false now) = some k₂ → ¬ Counted k₂ := by
  have hinv : Accounted k :=
    hk.invariant (fun _ => accounted_init) fun _ _ _ h hok hn => h.next hok hn
  refine ⟨hinv.counted, ?_⟩
  rintro a k₁ now k₂ pid hnot (rfl | ⟨r, rfl⟩) hn₁ hn₂
  · obtain ⟨c, hmem⟩ : ∃ c, pid ∈ k.runnableOn c := by simpa [Quiescent] using hnot
    cases hn₁
    refine hinv.not_counted_of_stop hmem (fun m hm => ?_) hn₂
    rw [BpfHash.lookup_delete, if_pos rfl] at hm
    cases hm
  · obtain ⟨c, hmem⟩ : ∃ c, pid ∈ k.runnableOn c := by simpa [Quiescent] using hnot
    cases hn₁
    refine hinv.not_counted_of_stop hmem (fun m hm => ?_) hn₂
    -- the entry of a counted task exists, so it is overwritten even if the map is full
    have hsome : (k.bpf.taskMetaMap.lookup pid).isSome := by
      have := (hinv.tt c pid hmem).1
      rw [ttOf, Option.map_eq_some_iff] at this
      obtain ⟨m, hm, -⟩ := this
      rw [hm]
      rfl
    rw [BpfHash.lookup_update, if_pos ⟨rfl, BpfHash.update_eq_true hsome⟩] at hm
    cases hm
    rfl

/-- A freshly loaded scheduler with the isolated CPU 2. -/
def booted : Kernel where
  bpf :=
    { isolatedCpuMask := 4
      ttTableMap := .empty
      cbsMap := .empty
      currentSlotMap := .replicate 128 0
      ttActiveUntilMap := .replicate 128 0
      nextTtStartMap := .replicate 128 0
      ttRunnableCountMap := .replicate 128 0
      taskMetaMap := .empty
      dsqCbs := []
      dsqThrottled := []
      faultRingbuf := [] }
  phase := fun _ => .sleeping
  runnableOn := fun _ => ∅

/-- A TT task of CPU 2. -/
def ttTask : Registration := ⟨1, 2, 2, 1000, .tt, 1⟩

theorem init_booted : machine.init booted := ⟨rfl, rfl, rfl, rfl, rfl⟩

/-- A running TT task is counted. -/
theorem counted_while_running :
    ∃ k, machine.ReachableIf Quiescent k ∧ k.runnableOn 2 = {7} ∧ Counted k := by
  have hstart : machine.ReachableIf Quiescent
      { booted with bpf := { booted.bpf with
        taskMetaMap := (booted.bpf.taskMetaMap.update 7 ttTask.toMeta).1 } } :=
    .next (a := .updateTaskMeta 7 ttTask) (.of_init init_booted) (fun c hc => by cases hc) rfl
  have heval : (machine.exec { booted with bpf := { booted.bpf with
      taskMetaMap := (booted.bpf.taskMetaMap.update 7 ttTask.toMeta).1 } }
      [.enqueue 7 100, .running 7 2 200]).any (fun k => decide (k.runnableOn 2 = {7})) = true := by
    decide +kernel
  obtain ⟨k, hk, hrun⟩ := (Option.any_eq_true _ _).1 heval
  have hreach := hstart.leads (Machine.leads_of_exec (by
    simp only [List.mem_cons, List.not_mem_nil, or_false]
    rintro a (rfl | rfl) k <;> trivial) hk)
  exact ⟨k, hreach, of_decide_eq_true hrun, (counted_of_quiescent hreach).1⟩

/-- The table is applied again while the task runs. -/
def updateWhileRunning : List Action :=
  [.updateTaskMeta 7 ttTask, .enqueue 7 100, .running 7 2 200, .updateTaskMeta 7 ttTask,
    .stopping 7 false 300]

/-- The task is asleep, but the count of its CPU stays 1 and CBS is not served there any more. -/
theorem cbs_blocked_after_update :
    ∃ k, machine.Reachable k ∧ k.bpf.isolated 2 = true ∧ k.runnableOn 2 = ∅ ∧
      k.bpf.ttRunnableCountMap.lookup 2 = some 1 ∧ (∀ now, (k.bpf.dispatch 2 now).2 = none) ∧
      ¬ Counted k := by
  have heval : (machine.exec booted updateWhileRunning).any (fun k => decide
      (k.bpf.isolated 2 = true ∧ k.runnableOn 2 = ∅ ∧
        k.bpf.ttRunnableCountMap.lookup 2 = some 1)) = true := by decide +kernel
  obtain ⟨k, hk, hall⟩ := (Option.any_eq_true _ _).1 heval
  obtain ⟨hi, hempty, hcount⟩ := of_decide_eq_true hall
  refine ⟨k, Machine.reachable_of_exec init_booted hk, hi, hempty, hcount, fun now => ?_, ?_⟩
  · rw [dispatch, if_pos (by simp [ttActiveOnCpu, hcount])]
  · intro hcounted
    obtain ⟨⟨n, hn, hcard⟩, -⟩ := hcounted 2 hi
    rw [hcount] at hn
    cases hn
    rw [hempty] at hcard
    cases hcard

end Kernel

end Timpani
