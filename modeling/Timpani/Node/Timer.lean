import Timpani.Node.Exact
import Timpani.Node.Writes

/-!
# TimerMaster

TimerMaster has a thread for every CPU with TT slots.  A thread sleeps until the next of its slots
starts, makes it the current slot of the CPU, and announces in `next_tt_start_map` when the slot
after it starts; `running` ends the slices of CBS tasks there.  A new slot table stops all threads
and starts new ones.  A thread is only stopped while it sleeps, so each of them may fire once more
before it is gone.

Nothing takes an announcement back.  A CPU that loses its last slot loses its thread with it, and the
last announcement stays: once that time has passed, CBS tasks get slices of a microsecond.

* `TimedDaemon.machine` : tables, STOPs and the firings of the threads, in any order;
* `TimedDaemon.exists_reachable_daemon` : apart from what the threads write, its runs are those of
  `Daemon.machine`;
* `TimedDaemon.unlimited_iff` : slices are not limited by slots that are gone, in every run in which
  no CPU loses its last slot;
* `TimedDaemon.limited_by_old_slot` : a table without slots leaves the announcement of the one before.
-/

namespace Timpani

/-! ### Slices -/

namespace BpfState

variable {s : BpfState} {cpu : UInt32}

/-- No TT slot limits the slices of the CBS tasks on the CPU: a task gets what is left of its budget,
or a microsecond if nothing is. -/
def FullSlices (s : BpfState) (cpu : UInt32) : Prop :=
  ∀ now, s.usUntilNextTt cpu now = 0xffffffff ∧ ∀ pid key c, s.serverOf pid = some (key, c) →
    (s.running pid cpu now).2 = some ((if (c.start now).remainingUs = 0 then 1
      else (c.start now).remainingUs).toUInt64 * 1000)

theorem fullSlices_iff : s.FullSlices cpu ↔
    ∀ next, s.nextTtStartMap.lookup cpu = some next → next = 0 := by
  constructor
  · intro h next hnext
    by_contra hne
    -- at the announced time the limit is a microsecond
    have hone : s.usUntilNextTt cpu next = 1 := by
      simp [usUntilNextTt, hnext, hne]
    exact absurd ((h next).1.symm.trans hone) (by decide)
  · intro h now
    have hmax : s.usUntilNextTt cpu now = 0xffffffff := by
      unfold usUntilNextTt
      split
      · rfl
      · next next hnext => rw [if_pos (h next hnext)]
    refine ⟨hmax, fun pid key c hserver => ?_⟩
    have hnot : ¬ (0xffffffff : UInt32) < (c.start now).remainingUs := by
      rw [UInt32.lt_iff_toNat_lt]
      have := (c.start now).remainingUs.toNat_lt
      simp only [UInt32.reduceToNat]
      omega
    simp only [running, hserver, hmax, if_neg hnot]

end BpfState

/-! ### Threads -/

namespace TimerMaster

/-- `compute_next_tt_start_for_cpu` -/
def computeNextTtStartForCpu (cpuSlots : List SlotEntry) (currentSlotIdx : ℕ)
    (currentHyperperiodStart hyperperiodNs : UInt64) : UInt64 :=
  if cpuSlots = [] ∨ hyperperiodNs = 0 then 0
  else
    let nextIdx := (currentSlotIdx + 1) % cpuSlots.length
    let nextHyperperiodStart :=
      if nextIdx ≤ currentSlotIdx then currentHyperperiodStart + hyperperiodNs
      else currentHyperperiodStart
    nextHyperperiodStart + ((cpuSlots[nextIdx]?).map (·.offsetNs)).getD 0

/-- A thread asleep in `cpu_thread_loop`; without a hyperperiod it stays asleep. -/
structure CpuThread where
  cpuSlots : List SlotEntry
  hyperperiodNs : UInt64
  nextSlotIdx : Fin cpuSlots.length
  currentHyperperiodStart : UInt64

/-- The first hyperperiod of a thread: an epoch that is over moves behind the present by whole
hyperperiods. -/
def firstHyperperiodStart (epochNs hyperperiodNs nowNs : UInt64) : UInt64 :=
  if epochNs = 0 then nowNs
  else if epochNs < nowNs then
    epochNs + ((nowNs - epochNs) / hyperperiodNs + 1) * hyperperiodNs
  else epochNs

/-- The thread `start` spawns for a CPU, which first reads the clock. -/
def spawn (stdSort : StdSort) (slotTable : List SlotEntry) (hyperperiodNs epochNs : UInt64)
    (clock : UInt32 → UInt64) (cpu : UInt32) : Option CpuThread :=
  let cpuSlots := stdSort.sort (fun a b => a.offsetNs < b.offsetNs)
    (slotTable.filter fun e => e.cpu = cpu)
  if h : 0 < cpuSlots.length then
    some ⟨cpuSlots, hyperperiodNs, ⟨0, h⟩, firstHyperperiodStart epochNs hyperperiodNs (clock cpu)⟩
  else none

namespace CpuThread

/-- The maps after the next slot was fired at a time of the monotonic clock. -/
def fire (th : CpuThread) (nowMonoNs : UInt64) (s : BpfState) : BpfState :=
  let slot := th.cpuSlots.get th.nextSlotIdx
  let targetNs := th.currentHyperperiodStart + slot.offsetNs
  let nextTtRealtimeNs := computeNextTtStartForCpu th.cpuSlots th.nextSlotIdx
    th.currentHyperperiodStart th.hyperperiodNs
  { s with
    currentSlotMap := s.currentSlotMap.store slot.cpu slot.slotIdx
    nextTtStartMap :=
      if nextTtRealtimeNs > targetNs then
        s.nextTtStartMap.store slot.cpu (nowMonoNs + (nextTtRealtimeNs - targetNs))
      else s.nextTtStartMap }

/-- The thread goes on to the slot after it. -/
def advance (th : CpuThread) : CpuThread :=
  if h : th.nextSlotIdx + 1 < th.cpuSlots.length then
    { th with nextSlotIdx := ⟨th.nextSlotIdx + 1, h⟩ }
  else
    { th with
      nextSlotIdx := ⟨0, Nat.zero_lt_of_lt th.nextSlotIdx.isLt⟩
      currentHyperperiodStart := th.currentHyperperiodStart + th.hyperperiodNs }

@[simp] theorem cpuSlots_advance (th : CpuThread) : th.advance.cpuSlots = th.cpuSlots := by
  unfold advance
  split_ifs <;> rfl

end CpuThread

end TimerMaster

open TimerMaster (SlotEntry CpuThread)

/-- The hashes of the workloads a table evicts; their slots are removed one workload at a time. -/
def Node.evictedHashes (n : Node) (table : HierarchicalScheduleTable) : List UInt64 :=
  (n.workloadToPids.toList.filter fun (wid, _) => wid ∉ table.workloads).filterMap
    fun (wid, _) => n.workloadToHash[wid]?

/-! ### The daemon and its threads -/

/-- The daemon, and TimerMaster with its threads. -/
structure TimedDaemon where
  daemon : Daemon
  hyperperiodNs : UInt64
  epochNs : UInt64
  threads : UInt32 → Option CpuThread

/-- A restart of the threads: which of them fire before they are gone, and when, and the readings of
the clock by the new ones. -/
structure Restart where
  firings : List (UInt32 × UInt64)
  clock : UInt32 → UInt64

namespace TimedDaemon

/-- The thread of a CPU fires. -/
def fire (t : TimedDaemon) (cpu : UInt32) (nowMonoNs : UInt64) : Option TimedDaemon :=
  match t.threads cpu with
  | none => none
  | some th =>
    if th.hyperperiodNs = 0 then none
    else some { t with
      daemon.node.bpf := th.fire nowMonoNs t.daemon.node.bpf
      threads := Function.update t.threads cpu (some th.advance) }

/-- Threads fire one after the other. -/
def fireAll (t : TimedDaemon) (firings : List (UInt32 × UInt64)) : TimedDaemon :=
  firings.foldl (fun t f => (t.fire f.1 f.2).getD t) t

/-- `start` -/
def start (stdSort : StdSort) (t : TimedDaemon) (clock : UInt32 → UInt64) : TimedDaemon :=
  { t with
    threads := TimerMaster.spawn stdSort t.daemon.slotTable t.hyperperiodNs t.epochNs clock }

/-- `remove_workload`: the threads are restarted if a slot is removed. -/
def removeWorkload (stdSort : StdSort) (t : TimedDaemon) (workloadIdHash : UInt64) (r : Restart) :
    TimedDaemon :=
  let t := t.fireAll r.firings
  let slots := TimerMaster.removeWorkload workloadIdHash t.daemon.slotTable
  if slots = t.daemon.slotTable then t
  else start stdSort { t with daemon.slotTable := slots } r.clock

/-- `recovery_callback` with `ACTION_STOP` -/
def recoveryCallback (stdSort : StdSort) (t : TimedDaemon) (wid : Text) (r : Restart) :
    Option TimedDaemon := do
  let wid ← t.daemon.node.resolve wid
  let t := match t.daemon.node.workloadToHash[wid]? with
    | some hash => t.removeWorkload stdSort hash r
    | none => t
  return { t with daemon.node := t.daemon.node.stopWorkload wid }

/-- The slots of the evicted workloads are removed, with a restart for each. -/
def evict (stdSort : StdSort) (t : TimedDaemon) (hashes : List UInt64) (restarts : ℕ → Restart) :
    TimedDaemon :=
  hashes.zipIdx.foldl (fun t x => t.removeWorkload stdSort x.1 (restarts x.2)) t

/-- `table_callback` -/
def tableCallback (stdSort : StdSort) (t : TimedDaemon) (findPid : ℕ → Option UInt32)
    (clock : ℕ → UInt64) (table : HierarchicalScheduleTable) (restarts : ℕ → Restart) :
    TimedDaemon :=
  let hashes := t.daemon.node.evictedHashes table
  let t := t.evict stdSort hashes restarts
  let t := t.fireAll (restarts hashes.length).firings
  start stdSort
    { t with
      daemon := t.daemon.tableCallback stdSort findPid clock table
      hyperperiodNs := table.hyperperiodUs.toUInt64 * 1000
      epochNs := table.epochNs }
    (restarts hashes.length).clock

inductive Action where
  | table (findPid : ℕ → Option UInt32) (clock : ℕ → UInt64) (table : HierarchicalScheduleTable)
      (restarts : ℕ → Restart)
  | stop (wid : Text) (restart : Restart)
  | fire (cpu : UInt32) (nowMonoNs : UInt64)

/-- A time is announced for the next slot on the CPU. -/
def Announced (t : TimedDaemon) (cpu : UInt32) : Prop :=
  ∃ next, t.daemon.node.bpf.nextTtStartMap.lookup cpu = some next ∧ next ≠ 0

/-- TimerMaster has a slot on the CPU. -/
def HasSlot (t : TimedDaemon) (cpu : UInt32) : Prop := ∃ e ∈ t.daemon.slotTable, e.cpu = cpu

/-- Any history of tables, STOPs and firings. -/
def machine (stdSort : StdSort) : Machine TimedDaemon Action where
  init t := t.daemon.Fresh ∧ (∀ cpu, ¬ t.Announced cpu) ∧ t.threads = fun _ => none
  next t
    | .table findPid clock table restarts =>
        some (t.tableCallback stdSort findPid clock table restarts)
    | .stop wid restart => t.recoveryCallback stdSort wid restart
    | .fire cpu nowMonoNs => t.fire cpu nowMonoNs

end TimedDaemon

/-! ### Tables and STOPs do not look at what the threads write -/

/-- The node with other current slots and announcements. -/
def Node.withClocks (n : Node) (slots : BpfArray 128 UInt32) (starts : BpfArray 128 UInt64) : Node :=
  { n with bpf.currentSlotMap := slots, bpf.nextTtStartMap := starts }

section WithClocks

variable {n : Node} {slots slots' : BpfArray 128 UInt32} {starts starts' : BpfArray 128 UInt64}
  {findPid : ℕ → Option UInt32} {clock : ℕ → UInt64}

@[simp] theorem Node.withClocks_withClocks :
    (n.withClocks slots starts).withClocks slots' starts' = n.withClocks slots' starts' := rfl

namespace Applying

/-- The walk at a node with other current slots and announcements. -/
def withClocks (a : Applying) (slots : BpfArray 128 UInt32) (starts : BpfArray 128 UInt64) :
    Applying :=
  { a with node := a.node.withClocks slots starts }

variable {a : Applying} {pid : Option UInt32} {now : UInt64}

theorem registerTt_withClocks {slot : TtSlot} {layer : UInt8} :
    (a.withClocks slots starts).registerTt pid slot layer =
      (a.registerTt pid slot layer).withClocks slots starts := by
  cases pid with
  | none => rfl
  | some pid =>
    unfold registerTt updateTaskMeta
    dsimp only [withClocks, Node.withClocks]
    split_ifs <;> rfl

theorem writeTtSlot_withClocks {slot : TtSlot} :
    (a.withClocks slots starts).writeTtSlot slot =
      (a.writeTtSlot slot).withClocks slots starts := by
  unfold writeTtSlot
  dsimp only [withClocks, Node.withClocks]
  split_ifs <;> rfl

theorem trackTt_withClocks {slot : TtSlot} :
    (a.withClocks slots starts).trackTt pid slot = (a.trackTt pid slot).withClocks slots starts := by
  cases pid <;> rfl

theorem applyCbs_withClocks {e : CbsConfig} {layer : UInt8} {cpu : UInt32} :
    (a.withClocks slots starts).applyCbs pid now e layer cpu =
      (a.applyCbs pid now e layer cpu).withClocks slots starts := by
  cases pid with
  | none => rfl
  | some pid =>
    unfold applyCbs updateTaskMeta
    dsimp only [withClocks, Node.withClocks]
    split_ifs <;> rfl

theorem applyItem_withClocks {item : Item} :
    (a.withClocks slots starts).applyItem pid now item =
      (a.applyItem pid now item).withClocks slots starts := by
  cases item with
  | tt slot layer =>
    unfold applyItem applyTt
    dsimp only
    rw [registerTt_withClocks, writeTtSlot_withClocks, trackTt_withClocks]
    rfl
  | cbs e layer cpu => exact applyCbs_withClocks
  | noCpu partitionId => rfl

theorem walk_withClocks (items : List (Item × ℕ)) :
    walk findPid clock (a.withClocks slots starts) items =
      (walk findPid clock a items).withClocks slots starts := by
  induction items generalizing a with
  | nil => rfl
  | cons x items ih =>
    rw [walk, List.foldl_cons, applyItem_withClocks]
    exact ih

end Applying

theorem Node.tableCallback_withClocks (table : HierarchicalScheduleTable) :
    ((n.withClocks slots starts).tableCallback findPid clock table).1 =
      (n.tableCallback findPid clock table).1.withClocks slots starts :=
  congrArg Applying.node
    (Applying.walk_withClocks (a := ⟨n.evict table, 0, []⟩) table.items.zipIdx)

end WithClocks

/-- The daemon with other current slots and announcements. -/
def Daemon.withClocks (d : Daemon) (slots : BpfArray 128 UInt32) (starts : BpfArray 128 UInt64) :
    Daemon :=
  { d with node := d.node.withClocks slots starts }

namespace TimedDaemon

variable {stdSort : StdSort} {t t' : TimedDaemon} {cpu : UInt32} {now : UInt64} {a : Action}

theorem fire_eq_some (h : t.fire cpu now = some t') :
    ∃ th, t.threads cpu = some th ∧ t' = { t with
      daemon.node.bpf := th.fire now t.daemon.node.bpf
      threads := Function.update t.threads cpu (some th.advance) } := by
  unfold fire at h
  split at h
  · cases h
  · next th hth =>
    split_ifs at h
    cases h
    exact ⟨th, hth, rfl⟩

/-- The second daemon differs from the first in what the threads write. -/
def Ticks (d d' : Daemon) : Prop := ∃ slots starts, d' = d.withClocks slots starts

variable {d d' d'' : Daemon}

theorem Ticks.refl (d : Daemon) : Ticks d d := ⟨_, _, rfl⟩

theorem Ticks.trans (h : Ticks d d') (h' : Ticks d' d'') : Ticks d d'' := by
  obtain ⟨slots, starts, rfl⟩ := h
  obtain ⟨slots', starts', rfl⟩ := h'
  exact ⟨slots', starts', rfl⟩

theorem Ticks.slotTable (h : Ticks d d') : d'.slotTable = d.slotTable := by
  obtain ⟨slots, starts, rfl⟩ := h
  rfl

theorem Ticks.withSlotTable (h : Ticks d d') (l : List SlotEntry) :
    Ticks { d with slotTable := l } { d' with slotTable := l } := by
  obtain ⟨slots, starts, rfl⟩ := h
  exact ⟨slots, starts, rfl⟩

theorem Ticks.tableCallback {l : List SlotEntry} (h : Ticks { d with slotTable := l } d')
    (findPid : ℕ → Option UInt32) (clock : ℕ → UInt64) (table : HierarchicalScheduleTable) :
    Ticks (d.tableCallback stdSort findPid clock table)
      (d'.tableCallback stdSort findPid clock table) := by
  obtain ⟨slots, starts, rfl⟩ := h
  exact ⟨slots, starts, congrArg (fun n => Daemon.mk n _ _) (Node.tableCallback_withClocks table)⟩

theorem Ticks.recoveryCallback {wid : Text} (h : Ticks d d')
    (hstop : d'.recoveryCallback wid = some d'') :
    ∃ d₁, d.recoveryCallback wid = some d₁ ∧ Ticks d₁ d'' := by
  obtain ⟨slots, starts, rfl⟩ := h
  obtain ⟨name, hname, hstep⟩ := Option.bind_eq_some_iff.1 hstop
  cases hstep
  have hresolve : d.node.resolve wid = some name := hname
  exact ⟨_, by rw [Daemon.recoveryCallback, hresolve]; rfl, slots, starts, rfl⟩

theorem ticks_fire (h : t.fire cpu now = some t') : Ticks t.daemon t'.daemon := by
  obtain ⟨th, -, rfl⟩ := fire_eq_some h
  exact ⟨_, _, rfl⟩

theorem fireAll_induction {motive : TimedDaemon → Prop} (h : motive t)
    (hfire : ∀ t cpu now t', motive t → t.fire cpu now = some t' → motive t')
    (firings : List (UInt32 × UInt64)) : motive (t.fireAll firings) := by
  unfold fireAll
  induction firings generalizing t with
  | nil => exact h
  | cons f firings ih =>
    refine ih ?_
    dsimp only
    cases hf : t.fire f.1 f.2 with
    | none => exact h
    | some t' => exact hfire t f.1 f.2 t' h hf

theorem ticks_fireAll (firings : List (UInt32 × UInt64)) :
    Ticks t.daemon (t.fireAll firings).daemon :=
  fireAll_induction (motive := fun t' => Ticks t.daemon t'.daemon) (.refl _)
    (fun _ _ _ _ h hf => h.trans (ticks_fire hf)) firings

/-- `remove_workload` removes the slots of the workload; the rest of the daemon only ticks. -/
theorem ticks_removeWorkload {hash : UInt64} {r : Restart} :
    Ticks { t.daemon with slotTable := TimerMaster.removeWorkload hash t.daemon.slotTable }
      (t.removeWorkload stdSort hash r).daemon := by
  have hticks := @ticks_fireAll t r.firings
  have hfired := hticks.withSlotTable (TimerMaster.removeWorkload hash t.daemon.slotTable)
  unfold removeWorkload
  dsimp only
  rw [hticks.slotTable]
  split_ifs with hsame
  · rw [hsame] at hfired ⊢
    exact hticks
  · exact hfired

theorem ticks_evict (restarts : ℕ → Restart) (hashes : List UInt64) :
    ∃ l, Ticks { t.daemon with slotTable := l } (t.evict stdSort hashes restarts).daemon := by
  unfold evict
  generalize hashes.zipIdx = hashes
  induction hashes generalizing t with
  | nil => exact ⟨_, .refl _⟩
  | cons x hashes ih =>
    obtain ⟨l, h⟩ := @ih (t.removeWorkload stdSort x.1 (restarts x.2))
    exact ⟨l, (ticks_removeWorkload.withSlotTable l).trans h⟩

theorem ticks_tableCallback (findPid : ℕ → Option UInt32) (clock : ℕ → UInt64)
    (table : HierarchicalScheduleTable) (restarts : ℕ → Restart) :
    Ticks (t.daemon.tableCallback stdSort findPid clock table)
      (t.tableCallback stdSort findPid clock table restarts).daemon := by
  obtain ⟨l, h⟩ := @ticks_evict stdSort t restarts (t.daemon.node.evictedHashes table)
  exact (h.trans (ticks_fireAll _)).tableCallback findPid clock table

theorem ticks_recoveryCallback {wid : Text} {r : Restart}
    (h : t.recoveryCallback stdSort wid r = some t') :
    ∃ d, t.daemon.recoveryCallback wid = some d ∧ Ticks d t'.daemon := by
  obtain ⟨name, hname, hstep⟩ := Option.bind_eq_some_iff.1 h
  cases hstep
  refine ⟨_, by rw [Daemon.recoveryCallback, hname]; rfl, ?_⟩
  cases hhash : t.daemon.node.workloadToHash[name]? with
  | none => exact .refl _
  | some hash =>
    obtain ⟨slots, starts, hremove⟩ := @ticks_removeWorkload stdSort t hash r
    refine ⟨slots, starts, ?_⟩
    dsimp only
    rw [hremove]
    rfl

/-- **Every run is a run of tables and STOPs**, apart from what the threads write. -/
theorem exists_reachable_daemon (h : (machine stdSort).Reachable t) :
    ∃ d, (Daemon.machine stdSort).Reachable d ∧ Ticks d t.daemon := by
  refine h.invariant (I := fun t => ∃ d, (Daemon.machine stdSort).Reachable d ∧ Ticks d t.daemon)
    ?_ ?_
  · rintro t ⟨hfresh, -⟩
    exact ⟨t.daemon, .of_init hfresh, .refl _⟩
  · rintro t a t' ⟨d, hd, hticks⟩ - hn
    cases a with
    | fire cpu now => exact ⟨d, hd, hticks.trans (ticks_fire hn)⟩
    | table findPid clock table restarts =>
      cases hn
      exact ⟨_, hd.next (a := .table findPid clock table) trivial rfl,
        (hticks.tableCallback findPid clock table).trans
          (ticks_tableCallback findPid clock table restarts)⟩
    | stop wid r =>
      obtain ⟨d', hstop, hticks'⟩ := ticks_recoveryCallback hn
      obtain ⟨d₁, hstop₁, hticks₁⟩ := hticks.recoveryCallback hstop
      exact ⟨d₁, hd.next (a := .stop wid) trivial hstop₁, hticks₁.trans hticks'⟩

/-! ### Main results -/

/-- Slots that are gone do not limit slices. -/
def Unlimited (t : TimedDaemon) : Prop :=
  ∀ cpu, ¬ t.HasSlot cpu → t.daemon.node.bpf.FullSlices cpu

theorem unlimited_iff_announced : t.Unlimited ↔ ∀ cpu, t.Announced cpu → t.HasSlot cpu := by
  refine forall_congr' fun cpu => ?_
  rw [BpfState.fullSlices_iff, Announced, not_imp_comm]
  simp only [not_forall, exists_prop]

/-- No table or STOP takes the last slot of a CPU away. -/
def KeepsCpus (t : TimedDaemon) : Action → Prop
  | .table _ _ table _ => ∀ e ∈ t.daemon.slotTable, ∃ slot ∈ table.ttSlots, slot.cpu = e.cpu
  | .stop wid _ => ∀ d, t.daemon.recoveryCallback wid = some d →
      ∀ e ∈ t.daemon.slotTable, ∃ e' ∈ d.slotTable, e'.cpu = e.cpu
  | .fire _ _ => True

/-- Slots, threads and announcements are about CPUs of a set only. -/
structure Within (P : UInt32 → Prop) (t : TimedDaemon) : Prop where
  slots : ∀ e ∈ t.daemon.slotTable, P e.cpu
  threads : ∀ cpu th, t.threads cpu = some th → P cpu ∧ ∀ e ∈ th.cpuSlots, e.cpu = cpu
  announced : ∀ cpu, t.Announced cpu → P cpu

variable {P Q : UInt32 → Prop}

theorem Within.mono (h : Within P t) (hPQ : ∀ cpu, P cpu → Q cpu) : Within Q t where
  slots e he := hPQ _ (h.slots e he)
  threads cpu th hth := ⟨hPQ _ (h.threads cpu th hth).1, (h.threads cpu th hth).2⟩
  announced cpu hcpu := hPQ _ (h.announced cpu hcpu)

theorem Within.fire (h : Within P t) (hf : t.fire cpu now = some t') : Within P t' := by
  obtain ⟨th, hth, rfl⟩ := fire_eq_some hf
  obtain ⟨hcpu, hslots⟩ := h.threads cpu th hth
  refine ⟨h.slots, fun cpu' th' hth' => ?_, fun cpu' => ?_⟩
  · dsimp only at hth'
    rw [Function.update_apply] at hth'
    split_ifs at hth' with heq
    · subst heq
      cases hth'
      exact ⟨hcpu, by rwa [CpuThread.cpuSlots_advance]⟩
    · exact h.threads cpu' th' hth'
  · have hown : (th.cpuSlots.get th.nextSlotIdx).cpu = cpu := hslots _ (List.get_mem _ _)
    rintro ⟨next, hnext, hne⟩
    dsimp only [CpuThread.fire] at hnext
    split_ifs at hnext
    · rw [BpfArray.lookup_store, hown] at hnext
      split_ifs at hnext with heq
      · exact heq ▸ hcpu
      · exact h.announced cpu' ⟨next, hnext, hne⟩
    · exact h.announced cpu' ⟨next, hnext, hne⟩

theorem Within.fireAll (h : Within P t) (firings : List (UInt32 × UInt64)) :
    Within P (t.fireAll firings) :=
  fireAll_induction h (fun _ _ _ _ h hf => h.fire hf) firings

theorem spawn_eq_some {slotTable : List SlotEntry} {hyperperiodNs epochNs : UInt64}
    {clock : UInt32 → UInt64} {th : CpuThread}
    (h : TimerMaster.spawn stdSort slotTable hyperperiodNs epochNs clock cpu = some th) :
    (∃ e ∈ slotTable, e.cpu = cpu) ∧ ∀ e ∈ th.cpuSlots, e.cpu = cpu := by
  have hmem : ∀ e, e ∈ TimerMaster.setScheduleTable stdSort
      (slotTable.filter fun e => e.cpu = cpu) ↔ e ∈ slotTable ∧ e.cpu = cpu := by
    intro e
    rw [(Daemon.perm_setScheduleTable _).mem_iff, List.mem_filter, decide_eq_true_eq]
  obtain ⟨hpos, heq⟩ := Option.dite_none_right_eq_some.1 h
  cases heq
  exact ⟨⟨_, (hmem _).1 (List.get_mem _ ⟨0, hpos⟩)⟩, fun e he => ((hmem e).1 he).2⟩

theorem Within.start (hslots : ∀ e ∈ t.daemon.slotTable, P e.cpu)
    (hannounced : ∀ cpu, t.Announced cpu → P cpu) (clock : UInt32 → UInt64) :
    Within P (t.start stdSort clock) where
  slots := hslots
  threads cpu th hth := by
    obtain ⟨⟨e, he, rfl⟩, hth⟩ := spawn_eq_some hth
    exact ⟨hslots e he, hth⟩
  announced := hannounced

theorem Within.removeWorkload (h : Within P t) (hash : UInt64) (r : Restart) :
    Within P (t.removeWorkload stdSort hash r) := by
  have hfired := h.fireAll r.firings
  have hslots : ∀ e ∈ TimerMaster.removeWorkload hash (t.fireAll r.firings).daemon.slotTable,
      P e.cpu := fun e he => hfired.slots e (List.mem_of_mem_filter he)
  unfold TimedDaemon.removeWorkload
  dsimp only
  split_ifs
  · exact hfired
  · exact Within.start (t := { t.fireAll r.firings with daemon.slotTable := _ }) hslots
      hfired.announced _

theorem Within.evict (h : Within P t) (hashes : List UInt64) (restarts : ℕ → Restart) :
    Within P (t.evict stdSort hashes restarts) := by
  unfold TimedDaemon.evict
  generalize hashes.zipIdx = hashes
  induction hashes generalizing t with
  | nil => exact h
  | cons x hashes ih => exact ih (h.removeWorkload x.1 (restarts x.2))

theorem nextTtStartMap_tableCallback {findPid : ℕ → Option UInt32} {clock : ℕ → UInt64}
    {table : HierarchicalScheduleTable} :
    (d.tableCallback stdSort findPid clock table).node.bpf.nextTtStartMap =
      d.node.bpf.nextTtStartMap := by
  obtain ⟨ws, hws⟩ := d.node.written_tableCallback findPid clock table
  rw [Daemon.tableCallback, hws]
  generalize d.node.bpf = s
  clear hws
  induction ws generalizing s with
  | nil => rfl
  | cons w ws ih =>
    rw [List.foldl_cons, ih]
    cases w <;> rfl

theorem hasSlot_tableCallback {findPid : ℕ → Option UInt32} {clock : ℕ → UInt64}
    {table : HierarchicalScheduleTable} {restarts : ℕ → Restart} :
    (t.tableCallback stdSort findPid clock table restarts).HasSlot cpu ↔
      ∃ slot ∈ table.ttSlots, slot.cpu = cpu := by
  have hslots : (t.tableCallback stdSort findPid clock table restarts).daemon.slotTable =
      TimerMaster.setScheduleTable stdSort table.slotEntries := rfl
  simp only [HasSlot, hslots, (Daemon.perm_setScheduleTable _).mem_iff,
    HierarchicalScheduleTable.slotEntries, List.mem_map, Prod.exists]
  constructor
  · rintro ⟨_, ⟨slot, i, hslot, rfl⟩, hcpu⟩
    exact ⟨slot, List.fst_mem_of_mem_zipIdx hslot, hcpu⟩
  · rintro ⟨slot, hslot, hcpu⟩
    obtain ⟨i, hi⟩ := List.mem_iff_getElem?.1 hslot
    exact ⟨_, ⟨slot, i, List.mem_zipIdx_iff_getElem?.2 hi, rfl⟩, hcpu⟩

/-- Slots, threads and announcements stay within the CPUs that have slots as long as none loses its
last one. -/
theorem Within.next (h : Within t.HasSlot t) (hok : KeepsCpus t a)
    (hn : (machine stdSort).next t a = some t') : Within t'.HasSlot t' := by
  have hown : ∀ t' : TimedDaemon, ∀ e ∈ t'.daemon.slotTable, t'.HasSlot e.cpu :=
    fun _ e he => ⟨e, he, rfl⟩
  cases a with
  | fire cpu now =>
    obtain ⟨th, -, heq⟩ := fire_eq_some hn
    have hslots : t'.HasSlot = t.HasSlot := by rw [heq]; rfl
    rw [hslots]
    exact h.fire hn
  | table findPid clock table restarts =>
    cases hn
    have hkept : ∀ cpu, t.HasSlot cpu →
        (t.tableCallback stdSort findPid clock table restarts).HasSlot cpu := by
      rintro _ ⟨e, he, rfl⟩
      exact hasSlot_tableCallback.2 (hok e he)
    have hevicted : Within _ (t.evict stdSort (t.daemon.node.evictedHashes table) restarts) :=
      h.evict _ restarts
    have hfired := hevicted.fireAll (restarts (t.daemon.node.evictedHashes table).length).firings
    have hstarts : (t.tableCallback stdSort findPid clock table
        restarts).daemon.node.bpf.nextTtStartMap = _ := nextTtStartMap_tableCallback
    refine .start (hown (t.tableCallback stdSort findPid clock table restarts)) ?_ _
    rintro cpu ⟨next, hnext, hne⟩
    rw [hstarts] at hnext
    exact hkept cpu (hfired.announced cpu ⟨next, hnext, hne⟩)
  | stop wid r =>
    obtain ⟨d, hstop, hticks⟩ := ticks_recoveryCallback hn
    have hkept : ∀ cpu, t.HasSlot cpu → t'.HasSlot cpu := by
      rintro _ ⟨e, he, rfl⟩
      rw [HasSlot, hticks.slotTable]
      exact hok d hstop e he
    obtain ⟨name, -, hstep⟩ := Option.bind_eq_some_iff.1 hn
    have hremoved : Within t.HasSlot (match t.daemon.node.workloadToHash[name]? with
        | some hash => t.removeWorkload stdSort hash r
        | none => t) := by
      split
      · exact h.removeWorkload _ r
      · exact h
    cases hstep
    exact Within.mono ⟨hremoved.slots, hremoved.threads, hremoved.announced⟩ hkept

/-- The threads do not fire during the step. -/
def Quiet : Action → Prop
  | .table _ _ _ restarts => ∀ i, (restarts i).firings = []
  | .stop _ restart => restart.firings = []
  | .fire _ _ => False

theorem nextTtStartMap_removeWorkload {hash : UInt64} {r : Restart} (h : r.firings = []) :
    (t.removeWorkload stdSort hash r).daemon.node.bpf.nextTtStartMap =
      t.daemon.node.bpf.nextTtStartMap := by
  unfold removeWorkload
  rw [h]
  dsimp only
  split_ifs <;> rfl

theorem nextTtStartMap_next (h : Quiet a) (hn : (machine stdSort).next t a = some t') :
    t'.daemon.node.bpf.nextTtStartMap = t.daemon.node.bpf.nextTtStartMap := by
  cases a with
  | fire cpu now => exact h.elim
  | table findPid clock table restarts =>
    cases hn
    have hevict : ∀ (hashes : List (UInt64 × ℕ)) (t : TimedDaemon),
        (hashes.foldl (fun t x => t.removeWorkload stdSort x.1 (restarts x.2))
          t).daemon.node.bpf.nextTtStartMap = t.daemon.node.bpf.nextTtStartMap := by
      intro hashes
      induction hashes with
      | nil => exact fun _ => rfl
      | cons x hashes ih => exact fun t => (ih _).trans (nextTtStartMap_removeWorkload (h x.2))
    unfold tableCallback
    dsimp only
    rw [h]
    exact nextTtStartMap_tableCallback.trans (hevict _ t)
  | stop wid r =>
    obtain ⟨name, -, hstep⟩ := Option.bind_eq_some_iff.1 hn
    cases hstep
    dsimp only [Node.stopWorkload]
    split
    · exact nextTtStartMap_removeWorkload h
    · rfl

/-- **When slices are not limited by slots that are gone**: in every run in which no table or STOP
takes the last slot of a CPU away.  In a step during which no thread fires, it is taken away safely
iff nothing was announced for the CPU. -/
theorem unlimited_iff (stdSort : StdSort) (t : TimedDaemon)
    (h : (machine stdSort).ReachableIf KeepsCpus t) :
    t.Unlimited ∧ ∀ a t', Quiet a → (machine stdSort).next t a = some t' →
      (t'.Unlimited ↔ ∀ cpu, t.HasSlot cpu → ¬ t'.HasSlot cpu → ¬ t.Announced cpu) := by
  have hwithin : Within t.HasSlot t := by
    refine h.invariant (I := fun t => Within t.HasSlot t) ?_ fun t a t' ht hok hn => ht.next hok hn
    rintro t ⟨hfresh, hnone, hthreads⟩
    refine ⟨fun e he => ⟨e, he, rfl⟩, fun cpu th hth => ?_, fun cpu hcpu => absurd hcpu (hnone cpu)⟩
    rw [hthreads] at hth
    cases hth
  refine ⟨unlimited_iff_announced.2 hwithin.announced, fun a t' hquiet hn => ?_⟩
  have hsame : ∀ cpu, t'.Announced cpu ↔ t.Announced cpu := by
    simp only [Announced, nextTtStartMap_next hquiet hn, implies_true]
  rw [unlimited_iff_announced]
  constructor
  · intro hall cpu _ hgone hann
    exact hgone (hall cpu ((hsame cpu).2 hann))
  · intro hlost cpu hann
    rw [hsame] at hann
    by_contra hgone
    exact hlost cpu (hwithin.announced cpu hann) hgone hann

/-! ### A slot that is gone -/

open Daemon (started fresh_started tableOf sampleSlot finding)

/-- The daemon after its start. -/
def idle : TimedDaemon := ⟨started, 0, 0, fun _ => none⟩

/-- No thread fires, and the new ones start at time 1. -/
def swift : ℕ → Restart := fun _ => ⟨[], fun _ => 1⟩

theorem init_idle : (machine insertionStdSort).init idle := by
  refine ⟨fresh_started, ?_, rfl⟩
  rintro cpu ⟨next, hnext, hne⟩
  have hzero : (Vector.replicate 128 (0 : UInt64))[cpu.toNat]? = some next := hnext
  rw [Vector.getElem?_replicate] at hzero
  split_ifs at hzero
  exact hne (Option.some.inj hzero).symm

/-- A table with a slot on CPU 2, which fires, and then one without slots. -/
theorem exists_old_slot :
    ∃ t, (machine insertionStdSort).Reachable t ∧ t.daemon.slotTable = [] ∧
      t.daemon.node.bpf.usUntilNextTt 2 20000000 = 1 := by
  have heval : ((machine insertionStdSort).exec idle
      [.table (finding [some 7]) (fun _ => 0) (tableOf [sampleSlot "a" "t"] []) swift,
        .fire 2 1000, .table (finding []) (fun _ => 0) (tableOf [] []) swift]).any (fun t =>
      decide (t.daemon.slotTable = [] ∧ t.daemon.node.bpf.usUntilNextTt 2 20000000 = 1)) = true := by
    decide +kernel
  obtain ⟨t, ht, hall⟩ := (Option.any_eq_true _ _).1 heval
  exact ⟨t, Machine.reachable_of_exec init_idle ht, of_decide_eq_true hall⟩

theorem limited_by_old_slot :
    ∃ t, (machine insertionStdSort).Reachable t ∧ t.daemon.slotTable = [] ∧
      t.daemon.node.bpf.usUntilNextTt 2 20000000 = 1 ∧ ¬ t.Unlimited := by
  obtain ⟨t, ht, hslots, hlimit⟩ := exists_old_slot
  refine ⟨t, ht, hslots, hlimit, fun hunlimited => ?_⟩
  have hgone : ¬ t.HasSlot 2 := by simp [HasSlot, hslots]
  exact absurd (hlimit.symm.trans (hunlimited 2 hgone 20000000).1) (by decide)

theorem reachable_daemon_old_slot :
    ∃ t, (machine insertionStdSort).Reachable t ∧ t.daemon.node.bpf.usUntilNextTt 2 20000000 = 1 ∧
      ∃ d, (Daemon.machine insertionStdSort).Reachable d ∧ Ticks d t.daemon := by
  obtain ⟨t, ht, -, hlimit⟩ := exists_old_slot
  exact ⟨t, ht, hlimit, exists_reachable_daemon ht⟩

/-- A table that has a slot on every CPU that has one, or a firing. -/
def keepsCpus (t : TimedDaemon) : Action → Bool
  | .table _ _ table _ => t.daemon.slotTable.all fun e => table.ttSlots.any fun slot => slot.cpu = e.cpu
  | .stop _ _ => false
  | .fire _ _ => true

theorem keepsCpus_of_eq_true (h : keepsCpus t a = true) : KeepsCpus t a := by
  cases a with
  | table findPid clock table restarts => simpa [keepsCpus, KeepsCpus] using h
  | stop wid r => cases h
  | fire cpu now => trivial

/-- The second table has a slot on CPU 2 as well. -/
theorem unlimited_same_cpu :
    ∃ t, (machine insertionStdSort).ReachableIf KeepsCpus t ∧ t.daemon.slotTable.length = 1 ∧
      (t.Unlimited ∧ ∀ a t', Quiet a → (machine insertionStdSort).next t a = some t' →
        (t'.Unlimited ↔ ∀ cpu, t.HasSlot cpu → ¬ t'.HasSlot cpu → ¬ t.Announced cpu)) := by
  have heval : ((machine insertionStdSort).execIf keepsCpus idle
      [.table (finding [some 7]) (fun _ => 0) (tableOf [sampleSlot "a" "t"] []) swift,
        .fire 2 1000, .table (finding [some 8]) (fun _ => 0) (tableOf [sampleSlot "b" "u"] []) swift]).any
      (fun t => decide (t.daemon.slotTable.length = 1)) = true := by decide +kernel
  obtain ⟨t, ht, hslots⟩ := (Option.any_eq_true _ _).1 heval
  have hreach : (machine insertionStdSort).ReachableIf KeepsCpus t :=
    (Machine.ReachableIf.of_init init_idle).leads
      (Machine.leads_of_execIf (fun _ _ => keepsCpus_of_eq_true) ht)
  exact ⟨t, hreach, of_decide_eq_true hslots, unlimited_iff insertionStdSort t hreach⟩

end TimedDaemon

end Timpani
