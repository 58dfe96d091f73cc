import Timpani.Bpf.Map
import Timpani.Cpp.Text

/-!
# The callbacks of the BPF scheduler

`timpani.bpf.c` is a `sched_ext` scheduler: the kernel calls `select_cpu` and `enqueue` when a task
wakes up, `running` and `stopping` when it gets and leaves a CPU, and `dispatch` when a CPU has
nothing to run.  The callbacks keep their state in BPF maps, which the daemon Timpani-N fills from
the schedule table.

A callback is a function on `BpfState`; its other arguments are what it asks the kernel for (the
clock, the CPU it runs on).  Of the dispatch queues, the shared ones that callbacks read back are
part of the state.  Enqueue flags are left out: they only move a task within a queue.

* `CbsState.lazyReplenish`, `CbsState.stop` : the two places that move `replenish_at_ns`;
* `lookup_cbsMap_enqueue`, `lookup_cbsMap_running`, `lookup_cbsMap_stopping` : a callback touches
  the server of its own task only.
-/

namespace Timpani

/-! ### Map values -/

inductive SchedulingType where
  | tt
  | cbs
  | bestEffort
  deriving DecidableEq, Repr

structure TtSlotKey where
  cpu : UInt32
  slotIdx : UInt32
  deriving DecidableEq, Repr

instance : Ord TtSlotKey :=
  ⟨compareLex (compareOn TtSlotKey.cpu) (compareOn TtSlotKey.slotIdx)⟩

instance : Std.TransOrd TtSlotKey := inferInstanceAs
  (Std.TransCmp (compareLex (compareOn TtSlotKey.cpu) (compareOn TtSlotKey.slotIdx)))

instance : Std.LawfulEqOrd TtSlotKey where
  eq_of_compare {a b} h := by
    have hlex : (compare a.cpu b.cpu).then (compare a.slotIdx b.slotIdx) = .eq := h
    obtain ⟨hcpu, hidx⟩ := Ordering.then_eq_eq.1 hlex
    cases a
    cases b
    rw [TtSlotKey.mk.injEq]
    exact ⟨Std.LawfulEqOrd.eq_of_compare hcpu, Std.LawfulEqOrd.eq_of_compare hidx⟩

structure TtSlotBpf where
  workloadIdHash : UInt64
  taskIdHash : UInt64
  offsetUs : UInt32
  durationUs : UInt32
  deadlineUs : UInt32
  cpu : UInt32
  deriving DecidableEq, Repr

/-- The constant-bandwidth server of a task. -/
structure CbsState where
  taskIdHash : UInt64
  budgetUs : UInt32
  periodUs : UInt32
  remainingUs : UInt32
  /-- When the task got its CPU; `0` while it does not run. -/
  execStartNs : UInt64
  replenishAtNs : UInt64
  deadlineUs : UInt32
  deriving DecidableEq, Repr

structure TaskMeta where
  workloadIdHash : UInt64
  taskIdHash : UInt64
  assignedCpu : UInt32
  slotDurationUs : UInt32
  schedulingType : SchedulingType
  layer : UInt8
  ttRunnable : Bool
  /-- The last wake-up. -/
  activationNs : UInt64
  deriving DecidableEq, Repr

/-- What the daemon registers about a task; the rest of the `TaskMeta` is zero-initialised. -/
structure Registration where
  workloadIdHash : UInt64
  taskIdHash : UInt64
  assignedCpu : UInt32
  slotDurationUs : UInt32
  schedulingType : SchedulingType
  layer : UInt8

def Registration.toMeta (r : Registration) : TaskMeta where
  workloadIdHash := r.workloadIdHash
  taskIdHash := r.taskIdHash
  assignedCpu := r.assignedCpu
  slotDurationUs := r.slotDurationUs
  schedulingType := r.schedulingType
  layer := r.layer
  ttRunnable := false
  activationNs := 0

inductive FaultType where
  | dmiss
  | budgetExceed
  deriving DecidableEq, Repr

structure FaultEvent where
  workloadIdHash : UInt64
  taskIdHash : UInt64
  cpu : UInt32
  expectedDeadlineNs : UInt64
  /-- Not written by a `budgetExceed` event. -/
  actualCompletionNs : Option UInt64
  faultType : FaultType
  deriving DecidableEq, Repr

/-! ### State -/

/-- The maps, the shared dispatch queues (of pids) and the ring buffer. -/
structure BpfState where
  isolatedCpuMask : UInt64
  ttTableMap : BpfHash 2048 TtSlotKey TtSlotBpf
  cbsMap : BpfHash 1024 UInt64 CbsState
  currentSlotMap : BpfArray 128 UInt32
  ttActiveUntilMap : BpfArray 128 UInt64
  nextTtStartMap : BpfArray 128 UInt64
  ttRunnableCountMap : BpfArray 128 UInt32
  taskMetaMap : BpfHash 4096 UInt32 TaskMeta
  dsqCbs : List UInt32
  dsqThrottled : List UInt32
  faultRingbuf : List FaultEvent

/-- Where `enqueue` puts a task. -/
inductive Dsq where
  | global
  | localOn (cpu : UInt32)
  | cbs
  | throttled
  | be
  deriving DecidableEq, Repr

/-- `cbs_key_from_meta` -/
def TaskMeta.cbsKey (m : TaskMeta) : UInt64 := m.workloadIdHash ^^^ m.taskIdHash

/-! ### Constant-bandwidth servers -/

namespace CbsState

/-- `replenish_at_ns` moved behind `now` by whole periods. -/
def nextReplenish (c : CbsState) (now : UInt64) : UInt64 :=
  let periodNs := c.periodUs.toUInt64 * 1000
  c.replenishAtNs + ((now - c.replenishAtNs) / periodNs + 1) * periodNs

/-- `cbs_lazy_replenish` -/
def lazyReplenish (c : CbsState) (now : UInt64) : CbsState :=
  if c.periodUs = 0 ∨ now < c.replenishAtNs then c
  else { c with remainingUs := c.budgetUs, replenishAtNs := c.nextReplenish now }

/-- `running`: the server is replenished and the start noted. -/
def start (c : CbsState) (now : UInt64) : CbsState :=
  { c.lazyReplenish now with execStartNs := now }

/-- What is left of the budget when the task stops. -/
def remainingAt (c : CbsState) (now : UInt64) : UInt32 :=
  let elapsedUs := ((now - c.execStartNs) / 1000).toUInt32
  if elapsedUs ≥ c.remainingUs then 0 else c.remainingUs - elapsedUs

/-- `stopping` exhausts the budget. -/
def exhausts (c : CbsState) (now : UInt64) : Bool :=
  0 < c.execStartNs && c.remainingAt now = 0

/-- `stopping`: the run is charged, and `replenish_at_ns` set if the budget is exhausted. -/
def stop (c : CbsState) (now : UInt64) : CbsState :=
  if 0 < c.execStartNs then
    { c with
      remainingUs := c.remainingAt now
      execStartNs := 0
      replenishAtNs :=
        if c.remainingAt now = 0 ∧ 0 < c.periodUs then
          if c.replenishAtNs = 0 then now + c.periodUs.toUInt64 * 1000
          else if c.replenishAtNs ≤ now then c.nextReplenish now
          else c.replenishAtNs
        else c.replenishAtNs }
  else c

end CbsState

namespace BpfState

/-- Submit an event; 1170 of them fit into the ring buffer. -/
def submitFault (s : BpfState) (e : FaultEvent) : BpfState :=
  { s with faultRingbuf :=
      if s.faultRingbuf.length < 1170 then s.faultRingbuf ++ [e] else s.faultRingbuf }

/-! ### TT bookkeeping -/

/-- The CPU is below 64 and in `isolated_cpu_mask`. -/
def isolated (s : BpfState) (cpu : UInt32) : Bool :=
  cpu < 64 && s.isolatedCpuMask &&& (1 <<< cpu.toUInt64) ≠ 0

/-- `tt_active_on_cpu` -/
def ttActiveOnCpu (s : BpfState) (cpu : UInt32) (now : UInt64) : Bool :=
  (s.ttRunnableCountMap.lookup cpu).any (0 < ·) || (s.ttActiveUntilMap.lookup cpu).any (now < ·)

/-- `mark_tt_runnable` -/
def markTtRunnable (s : BpfState) (pid : UInt32) (m : TaskMeta) (cpu : UInt32) : BpfState :=
  let s := if m.ttRunnable then s else
    { s with
      ttRunnableCountMap := match s.ttRunnableCountMap.lookup cpu with
        | some count => s.ttRunnableCountMap.store cpu (count + 1)
        | none => s.ttRunnableCountMap
      taskMetaMap := s.taskMetaMap.modify pid ({ · with ttRunnable := true }) }
  { s with ttActiveUntilMap := s.ttActiveUntilMap.store cpu 0xffffffffffffffff }

/-- `mark_tt_not_runnable` -/
def markTtNotRunnable (s : BpfState) (pid : UInt32) (m : TaskMeta) (cpu : UInt32) : BpfState :=
  if m.ttRunnable then
    let counts := match s.ttRunnableCountMap.lookup cpu with
      | some count => if 0 < count then s.ttRunnableCountMap.store cpu (count - 1)
          else s.ttRunnableCountMap
      | none => s.ttRunnableCountMap
    { s with
      ttRunnableCountMap := counts
      taskMetaMap := s.taskMetaMap.modify pid ({ · with ttRunnable := false })
      ttActiveUntilMap :=
        if (counts.lookup cpu).getD 0 = 0 then s.ttActiveUntilMap.store cpu 0
        else s.ttActiveUntilMap }
  else s

/-- `us_until_next_tt` -/
def usUntilNextTt (s : BpfState) (cpu : UInt32) (now : UInt64) : UInt32 :=
  match s.nextTtStartMap.lookup cpu with
  | none => 0xffffffff
  | some next =>
    if next = 0 then 0xffffffff
    else if next ≤ now then 1
    else
      let deltaUs := (next - now) / 1000
      if deltaUs = 0 then 1 else if deltaUs > 0xffffffff then 0xffffffff else deltaUs.toUInt32

/-! ### Callbacks -/

/-- The server of a CBS task, with its key. -/
def serverOf (s : BpfState) (pid : UInt32) : Option (UInt64 × CbsState) := do
  let m ← s.taskMetaMap.lookup pid
  if m.schedulingType = .cbs then
    let c ← s.cbsMap.lookup m.cbsKey
    return (m.cbsKey, c)
  else none

/-- `select_cpu` -/
def selectCpu (s : BpfState) (pid prevCpu : UInt32) (now : UInt64) : BpfState × UInt32 :=
  match s.taskMetaMap.lookup pid with
  | some m =>
    if m.schedulingType = .bestEffort then (s, prevCpu)
    else ({ s with taskMetaMap := s.taskMetaMap.modify pid ({ · with activationNs := now }) },
      if s.isolated m.assignedCpu then m.assignedCpu else prevCpu)
  | none => (s, prevCpu)

/-- `enqueue`: the queue the task is put into, and the CPU that is kicked with preemption. -/
def enqueue (s : BpfState) (pid : UInt32) (now : UInt64) : BpfState × Dsq × Option UInt32 :=
  match s.taskMetaMap.lookup pid with
  | none => (s, .global, none)
  | some m =>
    match m.schedulingType with
    | .tt =>
      if s.isolated m.assignedCpu then
        (s.markTtRunnable pid m m.assignedCpu, .localOn m.assignedCpu, some m.assignedCpu)
      else (s, .global, none)
    | .cbs =>
      match s.cbsMap.lookup m.cbsKey with
      | some c =>
        let c := c.lazyReplenish now
        let s := { s with cbsMap := s.cbsMap.modify m.cbsKey fun _ => c }
        if c.remainingUs = 0 then
          ({ s with dsqThrottled := s.dsqThrottled ++ [pid] }, .throttled, none)
        else ({ s with dsqCbs := s.dsqCbs ++ [pid] }, .cbs, none)
      | none => (s, .global, none)
    | .bestEffort => (s, .be, none)

/-- One task of `promote_throttled_if_replenished`; also the CPUs kicked so far. -/
def promoteOne (now : UInt64) (acc : BpfState × List UInt32) (pid : UInt32) :
    BpfState × List UInt32 :=
  let (s, kicks) := acc
  match s.taskMetaMap.lookup pid with
  | none => acc
  | some m =>
    if m.schedulingType ≠ .cbs then acc
    else
      match s.cbsMap.lookup m.cbsKey with
      | none => acc
      | some c =>
        let c := c.lazyReplenish now
        let s := { s with cbsMap := s.cbsMap.modify m.cbsKey fun _ => c }
        if 0 < c.remainingUs then
          ({ s with dsqThrottled := s.dsqThrottled.erase pid, dsqCbs := s.dsqCbs ++ [pid] },
            kicks ++ [m.assignedCpu])
        else (s, kicks)

/-- `promote_throttled_if_replenished`: the first 16 tasks of the throttled queue. -/
def promoteThrottledIfReplenished (s : BpfState) (now : UInt64) : BpfState × List UInt32 :=
  (s.dsqThrottled.take 16).foldl (promoteOne now) (s, [])

/-- `dispatch`: the CBS task the CPU takes, if any. -/
def dispatch (s : BpfState) (cpu : UInt32) (now : UInt64) : BpfState × Option UInt32 :=
  if s.ttActiveOnCpu cpu now then (s, none)
  else
    let (s, _) := s.promoteThrottledIfReplenished now
    match s.dsqCbs with
    | pid :: rest => ({ s with dsqCbs := rest }, some pid)
    | [] => (s, none)

/-- `running`: the slice the task is given, in nanoseconds. -/
def running (s : BpfState) (pid cpu : UInt32) (now : UInt64) : BpfState × Option UInt64 :=
  match s.serverOf pid with
  | some (key, c) =>
    let c := c.start now
    let nextTtUs := s.usUntilNextTt cpu now
    let effectiveUs := if nextTtUs < c.remainingUs then nextTtUs else c.remainingUs
    let effectiveUs := if effectiveUs = 0 then 1 else effectiveUs
    ({ s with cbsMap := s.cbsMap.modify key fun _ => c }, some (effectiveUs.toUInt64 * 1000))
  | none => (s, none)

/-- `stopping`, the CBS part: charge the server and report a missed deadline and an exhausted
budget. -/
def stoppingCbs (s : BpfState) (pid : UInt32) (m : TaskMeta) (cpu : UInt32) (now : UInt64) :
    BpfState :=
  match s.cbsMap.lookup m.cbsKey with
  | none => s
  | some c =>
    if 0 < c.execStartNs then
      let s := { s with cbsMap := s.cbsMap.modify m.cbsKey fun _ => c.stop now }
      let absDeadline := m.activationNs + c.deadlineUs.toUInt64 * 1000
      let s := if 0 < m.activationNs ∧ 0 < c.deadlineUs ∧ absDeadline < now then
          { s.submitFault ⟨m.workloadIdHash, m.taskIdHash, cpu, absDeadline, some now, .dmiss⟩ with
            -- cleared to avoid duplicate faults
            taskMetaMap := s.taskMetaMap.modify pid ({ · with activationNs := 0 }) }
        else s
      if (c.stop now).remainingUs = 0 then
        s.submitFault
          ⟨m.workloadIdHash, m.taskIdHash, cpu, (c.stop now).replenishAtNs, none, .budgetExceed⟩
      else s
    else s

/-- The relative deadline of the slot that is current on the CPU, in nanoseconds; 10 ms if there is
none. -/
def slotDeadlineNs (s : BpfState) (cpu : UInt32) : UInt64 :=
  match s.currentSlotMap.lookup cpu with
  | some slotIdx =>
    match s.ttTableMap.lookup ⟨cpu, slotIdx⟩ with
    | some slot => if 0 < slot.deadlineUs then slot.deadlineUs.toUInt64 * 1000 else 10000000
    | none => 10000000
  | none => 10000000

/-- `stopping`, the TT part. -/
def stoppingTt (s : BpfState) (pid : UInt32) (m : TaskMeta) (cpu : UInt32) (now : UInt64) :
    BpfState :=
  let s := s.markTtNotRunnable pid m cpu
  let deadline := m.activationNs + s.slotDeadlineNs cpu
  if deadline < now then
    s.submitFault ⟨m.workloadIdHash, m.taskIdHash, cpu, deadline, some now, .dmiss⟩
  else s

/-- `stopping` -/
def stopping (s : BpfState) (pid cpu : UInt32) (runnable : Bool) (now : UInt64) : BpfState :=
  match s.taskMetaMap.lookup pid with
  | none => s
  | some m =>
    match m.schedulingType with
    | .cbs => s.stoppingCbs pid m cpu now
    | .tt => if runnable then s else s.stoppingTt pid m cpu now
    | .bestEffort => s

/-! ### What the callbacks do to the servers -/

/-- The task is a CBS task and the key is that of its server. -/
def serves (s : BpfState) (pid : UInt32) (key : UInt64) : Bool :=
  (s.taskMetaMap.lookup pid).any fun m => m.schedulingType = .cbs && m.cbsKey = key

/-- The server of a key after `f` was applied to the server of a task. -/
def onServer (s : BpfState) (pid : UInt32) (f : CbsState → CbsState) (key : UInt64) :
    Option CbsState :=
  if s.serves pid key then (s.cbsMap.lookup key).map f else s.cbsMap.lookup key

variable {s : BpfState} {pid cpu : UInt32} {m : TaskMeta} {key : UInt64} {now : UInt64}
  {f : CbsState → CbsState}

@[simp] theorem cbsMap_submitFault (e : FaultEvent) : (s.submitFault e).cbsMap = s.cbsMap := rfl

@[simp] theorem taskMetaMap_submitFault (e : FaultEvent) :
    (s.submitFault e).taskMetaMap = s.taskMetaMap := rfl

@[simp] theorem cbsMap_markTtRunnable : (s.markTtRunnable pid m cpu).cbsMap = s.cbsMap := by
  unfold markTtRunnable
  split_ifs <;> rfl

@[simp] theorem cbsMap_markTtNotRunnable : (s.markTtNotRunnable pid m cpu).cbsMap = s.cbsMap := by
  unfold markTtNotRunnable
  split_ifs <;> rfl

@[simp] theorem cbsMap_stoppingTt : (s.stoppingTt pid m cpu now).cbsMap = s.cbsMap := by
  unfold stoppingTt
  dsimp only
  split_ifs <;> simp

theorem serves_of_lookup (h : s.taskMetaMap.lookup pid = some m) :
    s.serves pid key = true ↔ m.schedulingType = .cbs ∧ m.cbsKey = key := by
  simp [serves, h]

theorem onServer_of_not_cbs (h : ∀ m, s.taskMetaMap.lookup pid = some m → m.schedulingType ≠ .cbs) :
    s.onServer pid f key = s.cbsMap.lookup key := by
  refine if_neg fun hs => ?_
  cases hm : s.taskMetaMap.lookup pid with
  | none => simp [serves, hm] at hs
  | some m => exact h m hm ((serves_of_lookup hm).1 hs).1

theorem onServer_of_none (hm : s.taskMetaMap.lookup pid = some m)
    (hc : s.cbsMap.lookup m.cbsKey = none) : s.onServer pid f key = s.cbsMap.lookup key := by
  unfold onServer
  split_ifs with h
  · rw [← ((serves_of_lookup hm).1 h).2, hc]
    rfl
  · rfl

theorem onServer_of_some {c : CbsState} (hm : s.taskMetaMap.lookup pid = some m)
    (ht : m.schedulingType = .cbs) (hc : s.cbsMap.lookup m.cbsKey = some c) :
    s.onServer pid f key = (s.cbsMap.modify m.cbsKey fun _ => f c).lookup key := by
  rw [BpfHash.lookup_modify, onServer]
  by_cases hk : m.cbsKey = key
  · subst hk
    rw [if_pos rfl, if_pos ((serves_of_lookup hm).2 ⟨ht, rfl⟩), hc, Option.map_some, Option.map_some]
  · rw [if_neg hk, if_neg fun h => hk ((serves_of_lookup hm).1 h).2]

/-- `enqueue` replenishes the server of its task. -/
theorem lookup_cbsMap_enqueue : (s.enqueue pid now).1.cbsMap.lookup key =
    s.onServer pid (·.lazyReplenish now) key := by
  unfold enqueue
  cases hm : s.taskMetaMap.lookup pid with
  | none => rw [onServer_of_not_cbs (by simp [hm])]
  | some m =>
    dsimp only
    cases ht : m.schedulingType with
    | tt =>
      rw [onServer_of_not_cbs (by simp [hm, ht])]
      dsimp only
      split_ifs
      · rw [cbsMap_markTtRunnable]
      · rfl
    | bestEffort => rw [onServer_of_not_cbs (by simp [hm, ht])]
    | cbs =>
      dsimp only
      cases hc : s.cbsMap.lookup m.cbsKey with
      | none => rw [onServer_of_none hm hc]
      | some c =>
        rw [onServer_of_some hm ht hc]
        dsimp only
        split_ifs <;> rfl

theorem lookup_cbsMap_promoteOne {acc : BpfState × List UInt32} :
    (promoteOne now acc pid).1.cbsMap.lookup key = acc.1.onServer pid (·.lazyReplenish now) key := by
  obtain ⟨s, kicks⟩ := acc
  unfold promoteOne
  dsimp only
  cases hm : s.taskMetaMap.lookup pid with
  | none => rw [onServer_of_not_cbs (by simp [hm])]
  | some m =>
    dsimp only
    split_ifs with ht
    · rw [onServer_of_not_cbs (by simp [hm, ht])]
    · cases hc : s.cbsMap.lookup m.cbsKey with
      | none => rw [onServer_of_none hm hc]
      | some c =>
        rw [onServer_of_some hm (not_not.1 ht) hc]
        dsimp only
        split_ifs <;> rfl

/-- **An invariant of `dispatch`** is one of its parts: a throttled task is promoted, a CBS task is
taken. -/
theorem dispatch_induction {P : BpfState → Prop} (hs : P s)
    (hpromote : ∀ acc pid, P acc.1 → P (promoteOne now acc pid).1)
    (htake : ∀ s rest, P s → P { s with dsqCbs := rest }) : P (s.dispatch cpu now).1 := by
  have hpromoted : P (s.promoteThrottledIfReplenished now).1 :=
    List.foldlRecOn (motive := fun acc : BpfState × List UInt32 => P acc.1) _ _ hs
      fun acc h pid _ => hpromote acc pid h
  unfold dispatch
  split_ifs
  · exact hs
  · dsimp only
    split
    · exact htake _ _ hpromoted
    · exact hpromoted

theorem exists_promoteOne_eq (acc : BpfState × List UInt32) (pid : UInt32) :
    ∃ cbsMap dsqThrottled dsqCbs, (promoteOne now acc pid).1 =
      { acc.1 with cbsMap := cbsMap, dsqThrottled := dsqThrottled, dsqCbs := dsqCbs } := by
  obtain ⟨s, kicks⟩ := acc
  unfold promoteOne
  dsimp only
  split
  · exact ⟨_, _, _, rfl⟩
  · split_ifs
    · exact ⟨_, _, _, rfl⟩
    · split
      · exact ⟨_, _, _, rfl⟩
      · split_ifs <;> exact ⟨_, _, _, rfl⟩

theorem exists_dispatch_eq (s : BpfState) (cpu : UInt32) (now : UInt64) :
    ∃ cbsMap dsqThrottled dsqCbs, (s.dispatch cpu now).1 =
      { s with cbsMap := cbsMap, dsqThrottled := dsqThrottled, dsqCbs := dsqCbs } := by
  refine dispatch_induction (P := fun t => ∃ cbsMap dsqThrottled dsqCbs, t =
    { s with cbsMap := cbsMap, dsqThrottled := dsqThrottled, dsqCbs := dsqCbs })
    ⟨_, _, _, rfl⟩ ?_ ?_
  · rintro acc pid ⟨_, _, _, h⟩
    obtain ⟨cbsMap, dsqThrottled, dsqCbs, hone⟩ := @exists_promoteOne_eq now acc pid
    exact ⟨cbsMap, dsqThrottled, dsqCbs, by rw [hone, h]⟩
  · rintro _ rest ⟨cbsMap, dsqThrottled, _, rfl⟩
    exact ⟨cbsMap, dsqThrottled, rest, rfl⟩

/-- `running` replenishes the server of its task and notes the start. -/
theorem lookup_cbsMap_running : (s.running pid cpu now).1.cbsMap.lookup key =
    s.onServer pid (·.start now) key := by
  unfold running serverOf
  cases hm : s.taskMetaMap.lookup pid with
  | none => rw [onServer_of_not_cbs (by simp [hm])]; rfl
  | some m =>
    dsimp only [Option.bind_eq_bind, Option.bind_some]
    split_ifs with ht
    · cases hc : s.cbsMap.lookup m.cbsKey with
      | none => rw [onServer_of_none hm hc]; rfl
      | some c => rw [onServer_of_some hm ht hc]; rfl
    · rw [onServer_of_not_cbs (by simp [hm, ht])]

theorem cbsMap_stoppingCbs {c : CbsState} (hc : s.cbsMap.lookup m.cbsKey = some c) :
    (s.stoppingCbs pid m cpu now).cbsMap.lookup key =
      (s.cbsMap.modify m.cbsKey fun _ => c.stop now).lookup key := by
  unfold stoppingCbs
  rw [hc]
  dsimp only
  split_ifs with hstart
  all_goals try rfl
  -- nothing to charge: the server is as it was
  rw [BpfHash.lookup_modify, CbsState.stop, if_neg hstart]
  split_ifs with hk
  · rw [← hk, hc]
    rfl
  · rfl

/-- `stopping` charges the server of its task. -/
theorem lookup_cbsMap_stopping {runnable : Bool} :
    (s.stopping pid cpu runnable now).cbsMap.lookup key = s.onServer pid (·.stop now) key := by
  unfold stopping
  cases hm : s.taskMetaMap.lookup pid with
  | none => rw [onServer_of_not_cbs (by simp [hm])]
  | some m =>
    dsimp only
    cases ht : m.schedulingType with
    | tt =>
      rw [onServer_of_not_cbs (by simp [hm, ht])]
      dsimp only
      split_ifs <;> simp
    | bestEffort => rw [onServer_of_not_cbs (by simp [hm, ht])]
    | cbs =>
      dsimp only
      cases hc : s.cbsMap.lookup m.cbsKey with
      | none =>
        rw [onServer_of_none hm hc, stoppingCbs, hc]
      | some c => rw [onServer_of_some hm ht hc, cbsMap_stoppingCbs hc]

end BpfState

end Timpani
