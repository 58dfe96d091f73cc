import Timpani.Node.Deadlines
import Timpani.Node.FaultMonitor
import Timpani.Node.Stop
import Timpani.Orchestrator.FaultClient
import Timpani.Orchestrator.ReplayLoop
import Timpani.Store.Resolution

/-!
# The fault loop

A fault event of the BPF scheduler goes through the ring buffer to FaultMonitor, from there over the
node's stream to the orchestrator, and from there to the workload manager, which answers with a STOP
for the workload.  Events carry hashes; the node replaces the hash of a workload by its name if it
knows it at that moment, and the orchestrator writes the hash in decimal if it has got no name.

The thread that polls the ring buffer does not wait for the one that applies a table, so a table may
be half applied when a fault is sent: the names are forgotten first, then the counts are cleared and
the limits set, and then the names are entered again one by one.

* `FaultLoop.machine` : callbacks, polling, tables, STOPs, and the stream, in any order;
* `FaultLoop.forwarded_once` : **every fault is forwarded at most once**, under the name or the hash
  of its workload and with its count, and at most one deadline miss per workload and table;
* `FaultLoop.stop_of_fault` : **a STOP for a fault hits the workload of the task that faulted**, and
  no other.
-/

namespace Timpani

open GlobalScheduler (fnv1aHash)
open FaultMonitor (Call)

/-! ### Messages -/

/-- `timpani.node.v1.FaultType` -/
inductive NodeFaultType where
  | unknown
  | dmiss
  | budgetExceed
  | watchdog
  deriving DecidableEq, Repr

/-- `to_proto_fault_type` -/
def FaultType.toProtoFaultType : FaultType → NodeFaultType
  | .dmiss => .dmiss
  | .budgetExceed => .budgetExceed

/-- `timpani.node.v1.FaultInfo` -/
structure NodeFaultInfo where
  workloadId : Text
  taskId : Text
  faultType : NodeFaultType
  dmissCount : UInt32
  workloadIdHash : UInt64
  taskIdHash : UInt64
  currentLimit : UInt32
  deriving DecidableEq, Repr

/-- The callback of FaultMonitor: what it sends. -/
def Node.faultCallback (n : Node) (event : FaultEvent) (currentDmiss : UInt32) :
    NodeFaultInfo where
  workloadId := n.workloadHashToId.getD event.workloadIdHash []
  taskId := []
  faultType := event.faultType.toProtoFaultType
  dmissCount := currentDmiss
  workloadIdHash := event.workloadIdHash
  taskIdHash := event.taskIdHash
  currentLimit := 0

/-- `handle_fault_info`: what `NotifyFault` is called with. -/
def handleFaultInfo (nodeId : Text) (fault : NodeFaultInfo) : FaultInfo where
  workloadId :=
    if fault.workloadId = [] then natText fault.workloadIdHash.toNat else fault.workloadId
  nodeId := nodeId
  taskName := if fault.taskId = [] then natText fault.taskIdHash.toNat else fault.taskId
  type := match fault.faultType with
    | .dmiss => .dmiss
    | _ => .unknown
  cumulativeDmiss := fault.dmissCount

/-! ### Limits -/

/-- The task of an item, and its limit. -/
def Item.limit? : Item → Option (TaskKey × UInt32)
  | .tt slot _ => some (⟨slot.workloadIdHash, slot.taskIdHash⟩, slot.currentLimit)
  | .cbs e _ _ => some (⟨e.workloadIdHash, e.taskIdHash⟩, e.currentLimit)
  | .noCpu _ => none

/-- The limits of a table: the first pass of `table_callback`. -/
def HierarchicalScheduleTable.currentLimits (t : HierarchicalScheduleTable) : CurrentLimits :=
  (t.items.filterMap Item.limit?).foldl
    (fun limits x => if 0 < x.2 then limits.insert x.1 x.2 else limits) ∅

/-! ### Events -/

/-- A callback of the BPF scheduler. -/
inductive Callback where
  | selectCpu (pid prevCpu : UInt32) (now : UInt64)
  | enqueue (pid : UInt32) (now : UInt64)
  | dispatch (cpu : UInt32) (now : UInt64)
  | running (pid cpu : UInt32) (now : UInt64)
  | stopping (pid cpu : UInt32) (runnable : Bool) (now : UInt64)

namespace BpfState

/-- The state after a callback. -/
def call (s : BpfState) : Callback → BpfState
  | .selectCpu pid prevCpu now => (s.selectCpu pid prevCpu now).1
  | .enqueue pid now => (s.enqueue pid now).1
  | .dispatch cpu now => (s.dispatch cpu now).1
  | .running pid cpu now => (s.running pid cpu now).1
  | .stopping pid cpu runnable now => s.stopping pid cpu runnable now

variable {s s' s'' : BpfState} {pid cpu : UInt32} {m : TaskMeta} {now : UInt64}

/-- The event is about a task that is registered. -/
def About (s : BpfState) (e : FaultEvent) : Prop :=
  ∃ pid r, s.registration pid = some r ∧ e.workloadIdHash = r.workloadIdHash ∧
    e.taskIdHash = r.taskIdHash

/-- Events about registered tasks were added. -/
def Raises (s s' : BpfState) : Prop :=
  ∃ new, s'.faultRingbuf = s.faultRingbuf ++ new ∧ ∀ e ∈ new, s.About e

theorem raises_of_eq (h : s'.faultRingbuf = s.faultRingbuf) : Raises s s' :=
  ⟨[], by rw [h, List.append_nil], by simp⟩

theorem Raises.submitFault {e : FaultEvent} (h : Raises s s') (he : s.About e) :
    Raises s (s'.submitFault e) := by
  obtain ⟨new, hnew, habout⟩ := h
  unfold BpfState.submitFault
  split_ifs
  · refine ⟨new ++ [e], ?_, ?_⟩
    · rw [hnew, List.append_assoc]
    · simpa [or_imp, forall_and] using ⟨habout, he⟩
  · exact ⟨new, hnew, habout⟩

theorem faultRingbuf_markTtRunnable :
    (s.markTtRunnable pid m cpu).faultRingbuf = s.faultRingbuf := by
  unfold markTtRunnable
  split_ifs <;> rfl

theorem faultRingbuf_enqueue : (s.enqueue pid now).1.faultRingbuf = s.faultRingbuf := by
  unfold enqueue
  split
  · rfl
  · split
    · split_ifs
      · exact faultRingbuf_markTtRunnable
      · rfl
    · split
      · dsimp only
        split_ifs <;> rfl
      · rfl
    · rfl

theorem raises_stoppingCbs (h : s.taskMetaMap.lookup pid = some m) :
    Raises s (s.stoppingCbs pid m cpu now) := by
  have habout : ∀ e : FaultEvent, e.workloadIdHash = m.workloadIdHash →
      e.taskIdHash = m.taskIdHash → s.About e :=
    fun e hw ht => ⟨pid, m.registration, by rw [registration, h]; rfl, hw, ht⟩
  unfold stoppingCbs
  split
  · exact raises_of_eq rfl
  · next c _ =>
    have hcharged : Raises s { s with cbsMap := s.cbsMap.modify m.cbsKey fun _ => c.stop now } :=
      raises_of_eq rfl
    dsimp only
    split_ifs
    · obtain ⟨new, hnew, hall⟩ := hcharged.submitFault (habout
        ⟨m.workloadIdHash, m.taskIdHash, cpu, m.activationNs + c.deadlineUs.toUInt64 * 1000, some now,
          .dmiss⟩ rfl rfl)
      exact Raises.submitFault ⟨new, hnew, hall⟩ (habout _ rfl rfl)
    · exact hcharged.submitFault (habout _ rfl rfl)
    · obtain ⟨new, hnew, hall⟩ := hcharged.submitFault (habout
        ⟨m.workloadIdHash, m.taskIdHash, cpu, m.activationNs + c.deadlineUs.toUInt64 * 1000, some now,
          .dmiss⟩ rfl rfl)
      exact ⟨new, hnew, hall⟩
    · exact hcharged
    · exact raises_of_eq rfl

theorem raises_stopping {runnable : Bool} : Raises s (s.stopping pid cpu runnable now) := by
  unfold stopping
  split
  · exact raises_of_eq rfl
  · next m hm =>
    split
    · exact raises_stoppingCbs hm
    · split_ifs
      · exact raises_of_eq rfl
      · unfold stoppingTt
        dsimp only
        split_ifs
        · refine (raises_of_eq faultRingbuf_markTtNotRunnable).submitFault ?_
          exact ⟨pid, m.registration, by rw [registration, hm]; rfl, rfl, rfl⟩
        · exact raises_of_eq faultRingbuf_markTtNotRunnable
    · exact raises_of_eq rfl

theorem raises_call (c : Callback) : Raises s (s.call c) := by
  cases c with
  | selectCpu pid prevCpu now =>
    refine raises_of_eq ?_
    unfold call selectCpu
    dsimp only
    split
    · split <;> rfl
    · rfl
  | enqueue pid now => exact raises_of_eq faultRingbuf_enqueue
  | dispatch cpu now =>
    obtain ⟨_, _, _, h⟩ := s.exists_dispatch_eq cpu now
    exact raises_of_eq (by rw [call, h])
  | running pid cpu now =>
    refine raises_of_eq ?_
    unfold call running
    dsimp only
    split <;> rfl
  | stopping pid cpu runnable now => exact raises_stopping

theorem frame_call (c : Callback) : Frame s (s.call c) := by
  cases c with
  | selectCpu pid prevCpu now => exact frame_selectCpu
  | enqueue pid now => exact frame_enqueue
  | dispatch cpu now => exact frame_dispatch
  | running pid cpu now => exact frame_running
  | stopping pid cpu runnable now => exact frame_stopping

end BpfState

/-! ### The loop -/

/-- How far `table_callback` has come, after the critical section in which it evicts. -/
inductive TableProgress where
  | clearing (table : HierarchicalScheduleTable)
  | limiting (table : HierarchicalScheduleTable)
  | walking (slotIdx : UInt32) (errors : List Text) (items : List Item)

/-- The items that are still to be applied. -/
def TableProgress.items : TableProgress → List Item
  | .clearing table => table.items
  | .limiting table => table.items
  | .walking _ _ items => items

structure FaultLoop where
  node : Node
  /-- The table that is being applied. -/
  progress : Option TableProgress
  monitor : FaultMonitor
  /-- The calls of FaultMonitor so far.  An event is known by its position among them. -/
  calls : List Call
  /-- The event FaultMonitor is about to report, with its position and its count. -/
  reporting : Option (ℕ × FaultEvent × UInt32)
  /-- The messages on the streams of the node, with the positions of their events. -/
  sent : List (ℕ × NodeFaultInfo)
  log : FaultLog
  /-- All events that were put into the ring buffer. -/
  raised : List FaultEvent
  /-- The positions of the events whose faults were submitted to the workload manager. -/
  forwarded : List ℕ

namespace FaultLoop

inductive Action where
  | callback (c : Callback)
  /-- TimerMaster starts a slot. -/
  | slotFires (cpu slotIdx : UInt32)
  | receiveTable (table : HierarchicalScheduleTable)
  | clearState
  | updateCurrentLimits
  /-- The next item; `pid` is the process found for its task. -/
  | applyItem (pid : Option UInt32) (now : UInt64)
  | tableDone
  /-- A STOP. -/
  | recover (wid : Text)
  /-- `ring_buf_callback` up to the call of the callback. -/
  | poll
  /-- The callback. -/
  | report (connected : Bool)
  /-- A message is lost with its stream. -/
  | lose (i : ℕ)
  /-- A message is read, and its fault submitted; `rpc` gives the outcomes of the RPCs. -/
  | handle (i : ℕ) (rpc : ℕ → RpcOutcome)

/-- The threads of the node and of the orchestrator, in any order.  Messages on different streams may
overtake each other. -/
def machine (nodeId : Text) : Machine FaultLoop Action where
  init x := x.node.bpf.taskMetaMap = .empty ∧ x.node.bpf.faultRingbuf = [] ∧
    x.node.workloadToPids = ∅ ∧ x.node.workloadHashToId = ∅ ∧ x.progress = none ∧
    x.monitor = FaultMonitor.new.setCallback ∧ x.calls = [] ∧ x.reporting = none ∧ x.sent = [] ∧
    FaultLog.machine.init x.log ∧ x.raised = [] ∧ x.forwarded = []
  next x
    | .callback c =>
      let bpf := x.node.bpf.call c
      some { x with
        node.bpf := bpf
        raised := x.raised ++ bpf.faultRingbuf.drop x.node.bpf.faultRingbuf.length }
    | .slotFires cpu slotIdx => some { x with
        node.bpf.currentSlotMap := x.node.bpf.currentSlotMap.store cpu slotIdx }
    | .receiveTable table =>
      match x.progress with
      | none => some { x with node := x.node.evict table, progress := some (.clearing table) }
      | some _ => none
    | .clearState =>
      match x.progress with
      | some (.clearing table) => some { x with
          monitor := x.monitor.clearState
          calls := x.calls ++ [.clearState]
          progress := some (.limiting table) }
      | _ => none
    | .updateCurrentLimits =>
      match x.progress with
      | some (.limiting table) => some { x with
          monitor := x.monitor.updateCurrentLimits table.currentLimits
          calls := x.calls ++ [.updateCurrentLimits table.currentLimits]
          progress := some (.walking 0 [] table.items) }
      | _ => none
    | .applyItem pid now =>
      match x.progress with
      | some (.walking slotIdx errors (item :: items)) =>
        let a := Applying.applyItem ⟨x.node, slotIdx, errors⟩ pid now item
        some { x with node := a.node, progress := some (.walking a.slotIdx a.errors items) }
      | _ => none
    | .tableDone =>
      match x.progress with
      | some (.walking _ _ []) => some { x with progress := none }
      | _ => none
    | .recover wid =>
      match x.progress with
      | none => (x.node.resolve wid).map fun wid => { x with node := x.node.stopWorkload wid }
      | some _ => none
    | .poll =>
      match x.reporting, x.node.bpf.faultRingbuf with
      | none, e :: rest =>
        let (monitor, report) := x.monitor.ringBufCallback e
        some { x with
          node.bpf.faultRingbuf := rest
          monitor
          calls := x.calls ++ [.event e]
          reporting := report.map fun r => (x.calls.length, r) }
      | _, _ => none
    | .report connected =>
      match x.reporting with
      | some (i, e, count) => some { x with
          reporting := none
          sent := if connected then x.sent ++ [(i, x.node.faultCallback e count)] else x.sent }
      | none => none
    | .lose i => if i < x.sent.length then some { x with sent := x.sent.eraseIdx i } else none
    | .handle i rpc =>
      match x.sent[i]? with
      | some (position, fault) => some { x with
          sent := x.sent.eraseIdx i
          log := (x.log.notifyFault rpc (handleFaultInfo nodeId fault)).1
          forwarded := x.forwarded ++ [position] }
      | none => none

/-- The tables carry the hashes of the names they use. -/
def Names (names : Set Text) (_ : FaultLoop) : Action → Prop
  | .receiveTable table => ∀ w ∈ table.items.filterMap Item.workload?,
      w.1 ∈ names ∧ w.2 = fnv1aHash w.1
  | _ => True

/-- The count FaultMonitor reports for an event that follows the calls.  A deadline miss has the
number of misses of its task since the last table, in 32 bits; it exceeds the positive limit of the
task, and no miss of the workload was reported since the table. -/
def Counts (before : List Call) (e : FaultEvent) (count : UInt32) : Prop :=
  if e.faultType = .dmiss then
    count = UInt32.ofNat (FaultMonitor.dmissCount (before ++ [.event e]) e.key) ∧
      (∃ limit, (FaultMonitor.limitsInForce before)[e.key]? = some limit ∧ 0 < limit ∧
        limit < count) ∧
      ¬ FaultMonitor.Reported before e.workloadIdHash
  else count = 0

/-- The fault is what becomes of the event that follows the calls: a deadline miss keeps its type, and
any other event is of an unknown one. -/
structure Forwards (names : Set Text) (nodeId : Text) (before : List Call) (e : FaultEvent)
    (f : FaultInfo) : Prop where
  workload : ∃ w ∈ names, e.workloadIdHash = fnv1aHash w ∧
    (f.workloadId = w ∨ f.workloadId = natText e.workloadIdHash.toNat)
  nodeId : f.nodeId = nodeId
  taskName : f.taskName = natText e.taskIdHash.toNat
  type : f.type = if e.faultType = .dmiss then .dmiss else .unknown
  count : Counts before e f.cumulativeDmiss

/-- The event of a call. -/
def event? : Call → Option FaultEvent
  | .event e => some e
  | _ => none

/-- The number of the table that is in force at a position: none at first. -/
def tableAt (calls : List Call) (i : ℕ) : ℕ := (calls.take i).countP Call.isClear

/-- There is a deadline miss of the workload at the position. -/
def isMissAt (calls : List Call) (hash : UInt64) (i : ℕ) : Bool :=
  (calls[i]?.bind event?).any fun e => e.faultType = .dmiss && e.workloadIdHash = hash

/-! ### What the node knows -/

/-- The names and the hashes a node works with. -/
structure Known (names : Set Text) (n : Node) : Prop where
  metas : ∀ pid r, n.bpf.registration pid = some r →
    ∃ w ∈ names, r.workloadIdHash = fnv1aHash w
  entries : ∀ (h : UInt64) (w : Text), n.workloadHashToId[h]? = some w →
    w ∈ names ∧ h = fnv1aHash w
  pids : ∀ w ∈ n.workloadToPids, w ∈ names ∧ fnv1aHash w ∈ n.workloadHashToId

variable {names : Set Text} {n : Node}

theorem Known.frame {bpf : BpfState} (h : Known names n)
    (hf : ∀ pid, bpf.registration pid = n.bpf.registration pid) :
    Known names { n with bpf := bpf } where
  metas pid r hr := h.metas pid r (hf pid ▸ hr)
  entries := h.entries
  pids := h.pids

theorem Known.evict (h : Known names n) (t : HierarchicalScheduleTable) :
    Known names (n.evict t) where
  metas pid r hr := by
    obtain ⟨m, hm, rfl⟩ := Option.map_eq_some_iff.1 hr
    refine h.metas pid _ ?_
    rw [BpfState.registration, (Node.lookup_taskMetaMap_evict.1 hm).2]
    rfl
  entries hash w hget := by simp [Node.evict] at hget
  pids w hw := by simp [Node.evict] at hw

theorem Known.stopWorkload (h : Known names n) (wid : Text) :
    Known names (n.stopWorkload wid) where
  metas pid r hr := by
    obtain ⟨m, hm, rfl⟩ := Option.map_eq_some_iff.1 hr
    simp only [Node.stopWorkload, BpfHash.lookup_foldl_delete] at hm
    split_ifs at hm
    exact h.metas pid _ (by rw [BpfState.registration, hm]; rfl)
  entries := h.entries
  pids w hw := h.pids w (Std.ExtTreeMap.mem_of_mem_erase hw)

/-- What one item does to the node: it registers at most its own process, and enters at most its own
workload. -/
structure Applied (item : Item) (n n' : Node) : Prop where
  metas : ∀ pid r, n'.bpf.registration pid = some r → n.bpf.registration pid = some r ∨
    ∃ w, item.workload? = some (w, r.workloadIdHash)
  faultRingbuf : n'.bpf.faultRingbuf = n.bpf.faultRingbuf
  entered : n'.workloadToPids = n.workloadToPids ∧ n'.workloadHashToId = n.workloadHashToId ∨
    ∃ w h pid, item.workload? = some (w, h) ∧
      n'.workloadToPids = Applying.push n.workloadToPids w pid ∧
      n'.workloadHashToId = n.workloadHashToId.insert h w

theorem registration_of_update {bpf : BpfState} {metas : BpfHash 4096 UInt32 TaskMeta}
    {pid pid' : UInt32} {reg r : Registration}
    (hmetas : metas = (bpf.taskMetaMap.update pid reg.toMeta).1)
    (hr : (metas.lookup pid').map (·.registration) = some r) :
    bpf.registration pid' = some r ∨ r.workloadIdHash = reg.workloadIdHash := by
  obtain ⟨m, hm, rfl⟩ := Option.map_eq_some_iff.1 hr
  rw [hmetas, BpfHash.lookup_update] at hm
  split_ifs at hm with hcond
  · cases hm
    exact Or.inr rfl
  · exact Or.inl (by rw [BpfState.registration, hm]; rfl)

theorem applied_applyItem (a : Applying) (pid : Option UInt32) (now : UInt64) (item : Item) :
    Applied item a.node (a.applyItem pid now item).node := by
  cases item with
  | noCpu partitionId => exact ⟨fun _ _ h => Or.inl h, rfl, Or.inl ⟨rfl, rfl⟩⟩
  | tt slot layer =>
    cases pid with
    | none =>
      have hnode : (a.applyTt none slot layer).node = { a.node with
          bpf := { a.node.bpf with ttTableMap :=
            (a.node.bpf.ttTableMap.update ⟨slot.cpu, a.slotIdx⟩ slot.toBpf).1 } } := by
        simp only [Applying.applyTt, Applying.trackTt, Applying.node_writeTtSlot,
          Applying.registerTt]
        rfl
      rw [Applying.applyItem, hnode]
      exact ⟨fun _ _ h => Or.inl h, rfl, Or.inl ⟨rfl, rfl⟩⟩
    | some pid =>
      rw [Applying.applyItem, Applying.node_applyTt]
      refine ⟨fun pid' r hr => ?_, rfl, Or.inr ⟨_, _, pid, rfl, rfl, rfl⟩⟩
      refine (registration_of_update rfl hr).imp_right fun heq => ⟨slot.workloadId, ?_⟩
      rw [heq]
      rfl
  | cbs e layer cpu =>
    cases pid with
    | none => exact ⟨fun _ _ h => Or.inl h, rfl, Or.inl ⟨rfl, rfl⟩⟩
    | some pid =>
      have hmetas : ∀ pid' r, ((a.node.bpf.taskMetaMap.update pid
          (e.registration layer cpu).toMeta).1.lookup pid').map (·.registration) = some r →
            a.node.bpf.registration pid' = some r ∨
              ∃ w, Item.workload? (.cbs e layer cpu) = some (w, r.workloadIdHash) := by
        intro pid' r hr
        refine (registration_of_update rfl hr).imp_right fun heq => ⟨e.workloadId, ?_⟩
        rw [heq]
        rfl
      have hnode := Applying.node_applyCbs a pid now e layer cpu
      dsimp only at hnode
      rw [Applying.applyItem, hnode]
      split_ifs
      · exact ⟨hmetas, rfl, Or.inr ⟨_, _, pid, rfl, rfl, rfl⟩⟩
      · exact ⟨hmetas, rfl, Or.inl ⟨rfl, rfl⟩⟩
      · exact ⟨hmetas, rfl, Or.inl ⟨rfl, rfl⟩⟩

theorem Known.applied {item : Item} {n' : Node} (h : Known names n) (ha : Applied item n n')
    (hitem : ∀ w ∈ item.workload?, w.1 ∈ names ∧ w.2 = fnv1aHash w.1) : Known names n' := by
  have hmetas : ∀ pid r, n'.bpf.registration pid = some r →
      ∃ w ∈ names, r.workloadIdHash = fnv1aHash w := by
    intro pid r hr
    rcases ha.metas pid r hr with hold | ⟨w, hw⟩
    · exact h.metas pid r hold
    · exact ⟨w, hitem _ hw⟩
  rcases ha.entered with ⟨hpids, hentries⟩ | ⟨w, hash, pid, hw, hpids, hentries⟩
  · exact ⟨hmetas, hentries ▸ h.entries, hpids ▸ hentries ▸ h.pids⟩
  · obtain ⟨hname, hhash⟩ := hitem _ hw
    refine ⟨hmetas, fun hash' w' hget => ?_, fun w' hw' => ?_⟩
    · rw [hentries] at hget
      simp only [Std.ExtTreeMap.getElem?_insert, Std.LawfulEqOrd.compare_eq_iff_eq] at hget
      split_ifs at hget with heq
      · cases hget
        exact ⟨hname, heq ▸ hhash⟩
      · exact h.entries hash' w' hget
    · rw [hpids] at hw'
      rw [hentries]
      simp only [Applying.push, Std.ExtTreeMap.mem_insert,
        Std.LawfulEqOrd.compare_eq_iff_eq] at hw' ⊢
      rcases hw' with rfl | hw'
      · exact ⟨hname, Or.inl hhash⟩
      · exact ⟨(h.pids w' hw').1, Or.inr (h.pids w' hw').2⟩

/-! ### Reports -/

section Reports

variable {calls : List Call} {i j : ℕ} {e : FaultEvent} {count : UInt32}

/-- At the position there is an event that FaultMonitor has reported with the count. -/
def Reports (calls : List Call) (i : ℕ) (e : FaultEvent) (count : UInt32) : Prop :=
  calls[i]? = some (.event e) ∧ FaultMonitor.report (calls.take i) e = some (e, count)

theorem Reports.lt (h : Reports calls i e count) : i < calls.length :=
  (List.getElem?_eq_some_iff.1 h.1).1

theorem Reports.append (h : Reports calls i e count) (more : List Call) :
    Reports (calls ++ more) i e count := by
  rw [Reports, List.getElem?_append_left h.lt, List.take_append_of_le_length h.lt.le]
  exact h

theorem reports_concat {r : FaultEvent × UInt32} (h : FaultMonitor.report calls e = some r) :
    Reports (calls ++ [.event e]) calls.length r.1 r.2 := by
  have heq : r.1 = e := by
    by_cases hdmiss : e.faultType = .dmiss
    · rw [FaultMonitor.report_dmiss (FaultMonitor.tracks_run calls) hdmiss] at h
      dsimp only at h
      split_ifs at h
      rw [← Option.some.inj h]
    · rw [FaultMonitor.report, FaultMonitor.ringBufCallback_other hdmiss, FaultMonitor.invoke] at h
      dsimp only at h
      split_ifs at h
      rw [← Option.some.inj h]
  refine ⟨?_, ?_⟩
  · rw [heq]
    exact List.getElem?_concat_length
  · rw [List.take_left' rfl, heq, h, ← heq]

theorem Reports.counts (h : Reports calls i e count) : Counts (calls.take i) e count := by
  unfold Counts
  split_ifs with hdmiss
  · have hreport := h.2
    rw [FaultMonitor.report_dmiss (FaultMonitor.tracks_run _) hdmiss] at hreport
    dsimp only at hreport
    split_ifs at hreport with hdue
    obtain rfl := (Prod.ext_iff.1 (Option.some.inj hreport)).2
    exact ⟨rfl, (FaultMonitor.due_run_iff _ _ _).1 hdue⟩
  · have hreport := h.2
    rw [FaultMonitor.report, FaultMonitor.ringBufCallback_other hdmiss, FaultMonitor.invoke] at hreport
    dsimp only at hreport
    split_ifs at hreport
    exact ((Prod.ext_iff.1 (Option.some.inj hreport)).2).symm

theorem Reports.tableAt_lt {e' : FaultEvent} {count' : UInt32} (h : Reports calls i e count)
    (h' : Reports calls j e' count') (hlt : i < j) (hdmiss : e.faultType = .dmiss)
    (hdmiss' : e'.faultType = .dmiss) (hhash : e.workloadIdHash = e'.workloadIdHash) :
    tableAt calls i < tableAt calls j := by
  have hcounts := h'.counts
  rw [Counts, if_pos hdmiss'] at hcounts
  obtain ⟨hi, hget⟩ := List.getElem?_eq_some_iff.1 h.1
  have hsplit : calls.take j = calls.take i ++ .event e :: (calls.take j).drop (i + 1) := by
    have hi' : i < (calls.take j).length := by
      rw [List.length_take]
      exact lt_min hlt hi
    have htake : (calls.take j).take i = calls.take i := by
      rw [List.take_take, min_eq_left hlt.le]
    have hget' : (calls.take j)[i] = .event e := by rw [List.getElem_take, hget]
    rw [← htake, ← hget', List.cons_getElem_drop_succ, List.take_append_drop]
  by_contra hle
  refine hcounts.2.2 ⟨calls.take i, e, (calls.take j).drop (i + 1), hsplit, ?_, hdmiss, hhash, ?_⟩
  · intro c hc
    by_contra hclear
    have hpos : 0 < ((calls.take j).drop (i + 1)).countP Call.isClear :=
      List.countP_pos_iff.2 ⟨c, hc, by simpa using hclear⟩
    rw [tableAt, tableAt, hsplit, List.countP_append, List.countP_cons] at hle
    omega
  · rw [h.2]
    rfl

theorem exists_limits?_of_limitsInForce {key : TaskKey} {limit : UInt32}
    (h : (FaultMonitor.limitsInForce calls)[key]? = some limit) :
    ∃ c ∈ calls, c.limits? ≠ none := by
  unfold FaultMonitor.limitsInForce at h
  cases hlast : ((FaultMonitor.sinceClear calls).filterMap Call.limits?).getLast? with
  | none => simp [hlast] at h
  | some limits =>
    obtain ⟨c, hc, hlimits⟩ := List.mem_filterMap.1 (List.mem_of_getLast? hlast)
    refine ⟨c, (List.rtakeWhile_suffix _ _).subset hc, ?_⟩
    rw [hlimits]
    exact Option.some_ne_none _

end Reports

/-! ### The invariant -/

/-- The message is about the event. -/
structure Carries (names : Set Text) (e : FaultEvent) (count : UInt32) (f : NodeFaultInfo) :
    Prop where
  workload : f.workloadId = [] ∨
    f.workloadId ∈ names ∧ e.workloadIdHash = fnv1aHash f.workloadId
  taskId : f.taskId = []
  faultType : f.faultType = e.faultType.toProtoFaultType
  workloadIdHash : f.workloadIdHash = e.workloadIdHash
  taskIdHash : f.taskIdHash = e.taskIdHash
  count : f.dmissCount = count

/-- The positions of the events that FaultMonitor has decided to report. -/
def reported (x : FaultLoop) : List ℕ :=
  x.forwarded ++ x.sent.map Prod.fst ++ x.reporting.toList.map Prod.fst

/-- What is left of a table is well named, and the limits are set after the clearing. -/
def Pending (names : Set Text) (calls : List Call) (progress : Option TableProgress) : Prop :=
  ∀ p, progress = some p →
    (∀ w ∈ p.items.filterMap Item.workload?, w.1 ∈ names ∧ w.2 = fnv1aHash w.1) ∧
      ∀ table, p = .limiting table → ∃ c ∈ calls, c.isClear = true

/-- Limits are only set after a clearing. -/
def LimitsLater (calls : List Call) : Prop :=
  ∀ before c after, calls = before ++ c :: after → c.limits? ≠ none →
    ∃ c' ∈ before, c'.isClear = true

theorem LimitsLater.concat {calls : List Call} {c : Call} (h : LimitsLater calls)
    (hc : c.limits? ≠ none → ∃ c' ∈ calls, c'.isClear = true) : LimitsLater (calls ++ [c]) := by
  intro before c' after heq hlimits
  rcases List.eq_nil_or_concat after with rfl | ⟨after, last, rfl⟩
  · obtain ⟨rfl, hlast⟩ := List.append_inj' heq rfl
    exact hc (List.singleton_inj.1 hlast ▸ hlimits)
  · rw [List.concat_eq_append, ← List.cons_append, ← List.append_assoc] at heq
    exact h before c' after (List.append_inj' heq rfl).1 hlimits

structure Inv (names : Set Text) (nodeId : Text) (x : FaultLoop) : Prop where
  known : Known names x.node
  pending : Pending names x.calls x.progress
  named : ∀ e ∈ x.raised, ∃ w ∈ names, e.workloadIdHash = fnv1aHash w
  /-- An event is polled, or it waits in the ring buffer. -/
  raised : x.raised = x.calls.filterMap event? ++ x.node.bpf.faultRingbuf
  monitor : x.monitor = FaultMonitor.run x.calls
  limits : LimitsLater x.calls
  /-- No event is reported twice. -/
  nodup : x.reported.Nodup
  reporting : ∀ r, x.reporting = some r → Reports x.calls r.1 r.2.1 r.2.2
  sent : ∀ m ∈ x.sent, ∃ e count, Reports x.calls m.1 e count ∧ Carries names e count m.2
  forwarded : List.Forall₂ (fun i f => ∃ e, Reports x.calls i e f.cumulativeDmiss ∧
    Forwards names nodeId (x.calls.take i) e f) x.forwarded (x.log.submitted.map Prod.snd)
  log : x.log.Inv

variable {nodeId : Text} {x x' : FaultLoop}

theorem inv_of_init (h : (machine nodeId).init x) : Inv names nodeId x := by
  obtain ⟨hmeta, hring, hpids, hentries, hprogress, hmonitor, hcalls, hreporting, hsent, hlog,
    hraised, hforwarded⟩ := h
  have hsubmitted := (FaultLog.client_of_init hlog).2.1
  refine ⟨⟨?_, ?_, ?_⟩, ?_, ?_, ?_, ?_, ?_, ?_, ?_, ?_, ?_, FaultLog.inv_of_init hlog⟩
  · intro pid r hr
    simp [BpfState.registration, hmeta] at hr
  · intro hash w hget
    simp [hentries] at hget
  · intro w hw
    simp [hpids] at hw
  · intro p hp
    rw [hprogress] at hp
    cases hp
  · simp [hraised]
  · rw [hraised, hcalls, hring]
    rfl
  · rw [hmonitor, hcalls]
    rfl
  · intro before c after heq
    rw [hcalls] at heq
    simp at heq
  · simp [reported, hforwarded, hsent, hreporting]
  · simp [hreporting]
  · simp [hsent]
  · rw [hforwarded, hsubmitted]
    exact .nil

theorem Inv.lt_length (h : Inv names nodeId x) : ∀ i ∈ x.reported, i < x.calls.length := by
  intro i hi
  rcases List.mem_append.1 hi with hi | hi
  · rcases List.mem_append.1 hi with hi | hi
    · obtain ⟨f, -, e, hreports, -⟩ := exists_of_forall₂_left h.forwarded hi
      exact hreports.lt
    · obtain ⟨m, hm, rfl⟩ := List.mem_map.1 hi
      obtain ⟨e, count, hreports, -⟩ := h.sent m hm
      exact hreports.lt
  · obtain ⟨r, hr, rfl⟩ := List.mem_map.1 hi
    exact (h.reporting r (Option.mem_toList.1 hr)).lt

theorem Inv.ofNode {node : Node} {progress : Option TableProgress} (h : Inv names nodeId x)
    (hknown : Known names node) (hring : node.bpf.faultRingbuf = x.node.bpf.faultRingbuf)
    (hpending : Pending names x.calls progress) : Inv names nodeId { x with node, progress } :=
  { h with
    known := hknown
    pending := hpending
    raised := hring ▸ h.raised }

theorem Inv.callback (h : Inv names nodeId x) (c : Callback) :
    Inv names nodeId { x with
      node.bpf := x.node.bpf.call c
      raised := x.raised ++
        (x.node.bpf.call c).faultRingbuf.drop x.node.bpf.faultRingbuf.length } := by
  obtain ⟨new, hring, hnew⟩ := BpfState.raises_call (s := x.node.bpf) c
  have hdrop : (x.node.bpf.call c).faultRingbuf.drop x.node.bpf.faultRingbuf.length = new := by
    rw [hring, List.drop_left]
  refine { h with
    known := h.known.frame (BpfState.frame_call c).registration
    named := fun e he => ?_
    raised := ?_ }
  · rw [hdrop, List.mem_append] at he
    rcases he with he | he
    · exact h.named e he
    · obtain ⟨pid, r, hr, hhash, -⟩ := hnew e he
      rw [hhash]
      exact h.known.metas pid r hr
  · change x.raised ++ _ = _ ++ (x.node.bpf.call c).faultRingbuf
    rw [hdrop, hring, h.raised, List.append_assoc]

theorem Inv.call {c : Call} {progress : Option TableProgress} (h : Inv names nodeId x)
    (hevent : event? c = none) (hc : c.limits? ≠ none → ∃ c' ∈ x.calls, c'.isClear = true)
    (hpending : Pending names (x.calls ++ [c]) progress) :
    Inv names nodeId { x with
      monitor := x.monitor.step c
      calls := x.calls ++ [c]
      progress } :=
  { h with
    pending := hpending
    raised := by
      change x.raised = _
      rw [h.raised, List.filterMap_append, List.filterMap_cons_none hevent, List.filterMap_nil,
        List.append_nil]
    monitor := by
      change x.monitor.step c = _
      rw [h.monitor, FaultMonitor.run_concat]
    limits := h.limits.concat hc
    reporting := fun r hr => (h.reporting r hr).append _
    sent := fun m hm => by
      obtain ⟨e, count, hreports, hcarries⟩ := h.sent m hm
      exact ⟨e, count, hreports.append _, hcarries⟩
    forwarded := h.forwarded.imp fun i f ⟨e, hreports, hforwards⟩ =>
      ⟨e, hreports.append _, (List.take_append_of_le_length hreports.lt.le).symm ▸ hforwards⟩ }

theorem Inv.lose (h : Inv names nodeId x) (i : ℕ) :
    Inv names nodeId { x with sent := x.sent.eraseIdx i } := by
  have hsub : (x.forwarded ++ (x.sent.eraseIdx i).map Prod.fst ++
      x.reporting.toList.map Prod.fst).Sublist x.reported :=
    (((List.Sublist.refl _).append ((List.eraseIdx_sublist _ _).map _))).append (.refl _)
  exact { h with
    nodup := hsub.nodup h.nodup
    sent := fun m hm => h.sent m (List.mem_of_mem_eraseIdx hm) }

theorem Inv.report {r : ℕ × FaultEvent × UInt32} (h : Inv names nodeId x)
    (hr : x.reporting = some r) (connected : Bool) :
    Inv names nodeId { x with
      reporting := none
      sent := if connected then x.sent ++ [(r.1, x.node.faultCallback r.2.1 r.2.2)]
        else x.sent } := by
  have hsub : (x.forwarded ++ ((if connected then
      x.sent ++ [(r.1, x.node.faultCallback r.2.1 r.2.2)] else x.sent).map Prod.fst) ++
        (none : Option (ℕ × FaultEvent × UInt32)).toList.map Prod.fst).Sublist x.reported := by
    unfold reported
    rw [hr]
    cases connected <;> simp
  refine { h with
    nodup := hsub.nodup h.nodup
    reporting := fun r hnone => by cases hnone
    sent := fun m hm => ?_ }
  cases connected with
  | false => exact h.sent m hm
  | true =>
    rcases List.mem_append.1 hm with hm | hm
    · exact h.sent m hm
    · cases List.mem_singleton.1 hm
      refine ⟨r.2.1, r.2.2, h.reporting r hr, ?_, rfl, rfl, rfl, rfl, rfl⟩
      cases hget : x.node.workloadHashToId[r.2.1.workloadIdHash]? with
      | none => exact Or.inl (by simp [Node.faultCallback, Std.ExtTreeMap.getD_eq_getD_getElem?, hget])
      | some w =>
        have hid : (x.node.faultCallback r.2.1 r.2.2).workloadId = w := by
          simp [Node.faultCallback, Std.ExtTreeMap.getD_eq_getD_getElem?, hget]
        rw [hid]
        exact Or.inr (h.known.entries _ w hget)

theorem Carries.forwards {before : List Call} {e : FaultEvent} {count : UInt32} {f : NodeFaultInfo}
    (h : Carries names e count f) (hcount : Counts before e count)
    (he : ∃ w ∈ names, e.workloadIdHash = fnv1aHash w) :
    Forwards names nodeId before e (handleFaultInfo nodeId f) := by
  have hsame : (handleFaultInfo nodeId f).cumulativeDmiss = count := h.count
  refine ⟨?_, rfl, ?_, ?_, hsame ▸ hcount⟩
  · unfold handleFaultInfo
    dsimp only
    split_ifs with hempty
    · obtain ⟨w, hw, hhash⟩ := he
      exact ⟨w, hw, hhash, Or.inr (h.workloadIdHash ▸ rfl)⟩
    · obtain ⟨hname, hhash⟩ := h.workload.resolve_left hempty
      exact ⟨f.workloadId, hname, hhash, Or.inl rfl⟩
  · rw [← h.taskIdHash]
    exact if_pos h.taskId
  · unfold handleFaultInfo
    rw [h.faultType]
    cases e.faultType <;> rfl

theorem Inv.mem_raised (h : Inv names nodeId x) {i : ℕ} {e : FaultEvent}
    (he : x.calls[i]? = some (.event e)) : e ∈ x.raised := by
  rw [h.raised]
  exact List.mem_append_left _ (List.mem_filterMap.2 ⟨_, List.mem_of_getElem? he, rfl⟩)

theorem Inv.handle {i : ℕ} {m : ℕ × NodeFaultInfo} (h : Inv names nodeId x)
    (hm : x.sent[i]? = some m) (rpc : ℕ → RpcOutcome) :
    Inv names nodeId { x with
      sent := x.sent.eraseIdx i
      log := (x.log.notifyFault rpc (handleFaultInfo nodeId m.2)).1
      forwarded := x.forwarded ++ [m.1] } := by
  obtain ⟨hi, hget⟩ := List.getElem?_eq_some_iff.1 hm
  have hmem : m ∈ x.sent := List.mem_of_getElem? hm
  -- the event moves from the messages to the faults
  have hperm : (x.forwarded ++ [m.1] ++ (x.sent.eraseIdx i).map Prod.fst ++
      x.reporting.toList.map Prod.fst).Perm x.reported := by
    have hmap := ((List.getElem_cons_eraseIdx_perm hi).map Prod.fst)
    rw [hget] at hmap
    unfold reported
    rw [List.append_assoc x.forwarded]
    exact (hmap.append_left _).append_right _
  obtain ⟨e, count, hreports, hcarries⟩ := h.sent m hmem
  have hforwards : Forwards names nodeId (x.calls.take m.1) e (handleFaultInfo nodeId m.2) :=
    hcarries.forwards hreports.counts (h.named e (h.mem_raised hreports.1))
  refine { h with
    nodup := hperm.nodup_iff.2 h.nodup
    sent := fun m' hm' => h.sent m' (List.mem_of_mem_eraseIdx hm')
    forwarded := ?_
    log := h.log.notifyFault rpc _ }
  have hsubmitted : (x.log.notifyFault rpc (handleFaultInfo nodeId m.2)).1.submitted.map Prod.snd =
      x.log.submitted.map Prod.snd ++ [handleFaultInfo nodeId m.2] := by
    simp [FaultLog.notifyFault, FaultLog.fault]
  rw [hsubmitted]
  have hsame : (handleFaultInfo nodeId m.2).cumulativeDmiss = count := hcarries.count
  exact List.rel_append h.forwarded (.cons ⟨e, hsame ▸ hreports, hforwards⟩ .nil)

theorem Inv.poll {e : FaultEvent} {rest : List FaultEvent} (h : Inv names nodeId x)
    (hnone : x.reporting = none) (hring : x.node.bpf.faultRingbuf = e :: rest) :
    Inv names nodeId { x with
      node.bpf.faultRingbuf := rest
      monitor := (x.monitor.ringBufCallback e).1
      calls := x.calls ++ [.event e]
      reporting := (x.monitor.ringBufCallback e).2.map fun r => (x.calls.length, r) } := by
  have hold : x.reported = x.forwarded ++ x.sent.map Prod.fst := by
    simp [reported, hnone]
  have hreport : (x.monitor.ringBufCallback e).2 = FaultMonitor.report x.calls e := by
    rw [h.monitor]
    rfl
  refine { h with
    known := h.known.frame fun _ => rfl
    pending := fun p hp => ⟨(h.pending p hp).1, fun table heq => ?_⟩
    raised := ?_
    monitor := ?_
    limits := h.limits.concat fun hlimits => absurd rfl hlimits
    nodup := ?_
    reporting := fun r hr => ?_
    sent := fun m hm => ?_
    forwarded := h.forwarded.imp fun i f ⟨e, hreports, hforwards⟩ =>
      ⟨e, hreports.append _, (List.take_append_of_le_length hreports.lt.le).symm ▸ hforwards⟩ }
  · obtain ⟨c, hc, hclear⟩ := (h.pending p hp).2 table heq
    exact ⟨c, List.mem_append_left _ hc, hclear⟩
  · change x.raised = _
    rw [h.raised, hring, List.filterMap_append]
    simp [event?]
  · change (x.monitor.ringBufCallback e).1 = _
    rw [FaultMonitor.run_concat, ← h.monitor]
    rfl
  · -- the position of the event is a new one
    change (x.forwarded ++ x.sent.map Prod.fst ++ _).Nodup
    rw [← hold]
    refine List.Nodup.append h.nodup ?_ ?_
    · cases (x.monitor.ringBufCallback e).2 <;> simp
    · intro i hi hi'
      obtain ⟨r, hr, rfl⟩ := List.mem_map.1 hi'
      obtain ⟨r, -, rfl⟩ := Option.map_eq_some_iff.1 (Option.mem_toList.1 hr)
      exact absurd (h.lt_length _ hi) (lt_irrefl _)
  · obtain ⟨r, hsome, rfl⟩ := Option.map_eq_some_iff.1 hr
    exact reports_concat (hreport ▸ hsome)
  · obtain ⟨e', count, hreports, hcarries⟩ := h.sent m hm
    exact ⟨e', count, hreports.append _, hcarries⟩

theorem Inv.next {a : Action} (h : Inv names nodeId x) (hok : Names names x a)
    (hn : (machine nodeId).next x a = some x') : Inv names nodeId x' := by
  cases a with
  | callback c =>
    cases hn
    exact h.callback c
  | slotFires cpu slotIdx =>
    cases hn
    exact @Inv.ofNode _ _ _ _ x.progress h (h.known.frame fun _ => rfl) rfl h.pending
  | receiveTable table =>
    simp only [machine] at hn
    split at hn
    · cases hn
      refine h.ofNode (h.known.evict table) rfl ?_
      rintro p ⟨⟩
      exact ⟨hok, by rintro t ⟨⟩⟩
    · cases hn
  | clearState =>
    simp only [machine] at hn
    split at hn
    · next table hp =>
      cases hn
      refine h.call (c := .clearState) rfl (fun hlimits => absurd rfl hlimits) ?_
      rintro p ⟨⟩
      exact ⟨(h.pending (.clearing table) hp).1, fun _ _ => ⟨.clearState, by simp, rfl⟩⟩
    · cases hn
  | updateCurrentLimits =>
    simp only [machine] at hn
    split at hn
    · next table hp =>
      cases hn
      obtain ⟨hnames, hcleared⟩ := h.pending (.limiting table) hp
      refine h.call (c := .updateCurrentLimits table.currentLimits) rfl
        (fun _ => hcleared table rfl) ?_
      rintro p ⟨⟩
      exact ⟨hnames, by rintro t ⟨⟩⟩
    · cases hn
  | applyItem pid now =>
    simp only [machine] at hn
    split at hn
    · next slotIdx errors item items hp =>
      cases hn
      have hitems := (h.pending _ hp).1
      have ha := applied_applyItem ⟨x.node, slotIdx, errors⟩ pid now item
      refine h.ofNode (h.known.applied ha fun w hw => hitems w ?_) ha.faultRingbuf ?_
      · exact List.mem_filterMap.2 ⟨item, List.mem_cons_self, hw⟩
      · rintro p ⟨⟩
        refine ⟨fun w hw => ?_, by rintro t ⟨⟩⟩
        obtain ⟨item', hmem, hw⟩ := List.mem_filterMap.1 hw
        exact hitems w (List.mem_filterMap.2 ⟨item', List.mem_cons_of_mem _ hmem, hw⟩)
    · cases hn
  | tableDone =>
    simp only [machine] at hn
    split at hn
    · cases hn
      exact h.ofNode h.known rfl fun p hp => by cases hp
    · cases hn
  | recover wid =>
    simp only [machine] at hn
    split at hn
    · next hp =>
      obtain ⟨wid', -, rfl⟩ := Option.map_eq_some_iff.1 hn
      exact @Inv.ofNode _ _ _ _ x.progress h (h.known.stopWorkload wid') rfl h.pending
    · cases hn
  | poll =>
    simp only [machine] at hn
    split at hn
    · next e rest hnone hring =>
      cases hn
      exact h.poll hnone hring
    · cases hn
  | report connected =>
    simp only [machine] at hn
    split at hn
    · next i e count hr =>
      cases hn
      exact h.report hr connected
    · cases hn
  | lose i =>
    simp only [machine] at hn
    split_ifs at hn
    cases hn
    exact h.lose i
  | handle i rpc =>
    simp only [machine] at hn
    split at hn
    · next position fault hm =>
      cases hn
      exact h.handle hm rpc
    · cases hn

theorem inv_of_reachableIf (h : (machine nodeId).ReachableIf (Names names) x) :
    Inv names nodeId x :=
  h.invariant (fun _ => inv_of_init) fun _ _ _ hinv hok hn => hinv.next hok hn

theorem forwarded_sublist : x.forwarded.Sublist x.reported := by
  unfold reported
  rw [List.append_assoc]
  exact List.sublist_append_left _ _

theorem Inv.tableAt_pos (h : Inv names nodeId x) {i : ℕ} {e : FaultEvent} {count : UInt32}
    (hreports : Reports x.calls i e count) (hdmiss : e.faultType = .dmiss) :
    0 < tableAt x.calls i := by
  have hcounts := hreports.counts
  rw [Counts, if_pos hdmiss] at hcounts
  obtain ⟨limit, hlimit, -⟩ := hcounts.2.1
  obtain ⟨c, hc, hlimits⟩ := exists_limits?_of_limitsInForce hlimit
  obtain ⟨before, after, hsplit⟩ := List.append_of_mem hc
  obtain ⟨c', hc', hclear⟩ := h.limits before c (after ++ x.calls.drop i) (by
    rw [← List.cons_append, ← List.append_assoc, ← hsplit, List.take_append_drop]) hlimits
  exact List.countP_pos_iff.2 ⟨c', hsplit ▸ List.mem_append_left _ hc', hclear⟩

theorem Inv.countP_le (h : Inv names nodeId x) (hash : UInt64) (table : ℕ) :
    x.forwarded.countP (fun i => isMissAt x.calls hash i && tableAt x.calls i = table) ≤
      min 1 table := by
  have hmiss : ∀ i ∈ x.forwarded, isMissAt x.calls hash i = true → ∃ e count,
      Reports x.calls i e count ∧ e.faultType = .dmiss ∧ e.workloadIdHash = hash := by
    intro i hi hmissAt
    obtain ⟨f, -, e, hreports, -⟩ := exists_of_forall₂_left h.forwarded hi
    rw [isMissAt, hreports.1] at hmissAt
    simp only [Option.bind_some, event?, Option.any_some, Bool.and_eq_true,
      decide_eq_true_eq] at hmissAt
    exact ⟨e, _, hreports, hmissAt⟩
  have hsame : ∀ i ∈ x.forwarded, ∀ j ∈ x.forwarded, isMissAt x.calls hash i = true →
      isMissAt x.calls hash j = true → tableAt x.calls i = tableAt x.calls j → i = j := by
    intro i hi j hj hi' hj' htable
    obtain ⟨e, count, hreports, hdmiss, hhash⟩ := hmiss i hi hi'
    obtain ⟨e', count', hreports', hdmiss', hhash'⟩ := hmiss j hj hj'
    rcases lt_trichotomy i j with hlt | rfl | hlt
    · exact absurd htable (hreports.tableAt_lt hreports' hlt hdmiss hdmiss'
        (hhash.trans hhash'.symm)).ne
    · rfl
    · exact absurd htable (hreports'.tableAt_lt hreports hlt hdmiss' hdmiss
        (hhash'.trans hhash.symm)).ne'
  rw [List.countP_eq_length_filter]
  have hnodup := (forwarded_sublist.nodup h.nodup).filter
    (fun i => isMissAt x.calls hash i && tableAt x.calls i = table)
  match hfilter : x.forwarded.filter
      (fun i => isMissAt x.calls hash i && tableAt x.calls i = table) with
  | [] => exact Nat.zero_le _
  | i :: l =>
    have hmem : ∀ j ∈ i :: l, j ∈ x.forwarded ∧ isMissAt x.calls hash j = true ∧
        tableAt x.calls j = table := by
      intro j hj
      rw [← hfilter, List.mem_filter, Bool.and_eq_true, decide_eq_true_eq] at hj
      exact hj
    obtain ⟨hi, hmissAt, htable⟩ := hmem i List.mem_cons_self
    obtain ⟨e, count, hreports, hdmiss, -⟩ := hmiss i hi hmissAt
    have hpos := h.tableAt_pos hreports hdmiss
    have hl : l = [] := by
      refine List.eq_nil_iff_forall_not_mem.2 fun j hj => ?_
      obtain ⟨hj', hmissAt', htable'⟩ := hmem j (List.mem_cons_of_mem _ hj)
      rw [hfilter] at hnodup
      exact (List.nodup_cons.1 hnodup).1
        (hsame i hi j hj' hmissAt hmissAt' (htable.trans htable'.symm) ▸ hj)
    rw [hl, List.length_singleton]
    omega

/-- **Faults are forwarded at most once.**  In every run, the faults submitted to the workload manager
belong to different positions among the calls of FaultMonitor, one each, at which there are events
that were raised; a fault names the workload of its event, or gives the hash in decimal, and has the
count of the event.  While a table is in force, at most one deadline miss of a workload is forwarded,
and none before the first table. -/
theorem forwarded_once (h : (machine nodeId).ReachableIf (Names names) x) :
    List.Forall₂ (fun i f => ∃ e, x.calls[i]? = some (.event e) ∧
        Forwards names nodeId (x.calls.take i) e f) x.forwarded (x.log.submitted.map Prod.snd) ∧
      x.forwarded.Nodup ∧ (x.calls.filterMap event?) <+: x.raised ∧
      ∀ hash table, x.forwarded.countP
        (fun i => isMissAt x.calls hash i && tableAt x.calls i = table) ≤ min 1 table := by
  have hinv := inv_of_reachableIf h
  refine ⟨hinv.forwarded.imp fun i f ⟨e, hreports, hforwards⟩ => ⟨e, hreports.1, hforwards⟩,
    forwarded_sublist.nodup hinv.nodup, ?_, hinv.countP_le⟩
  rw [hinv.raised]
  exact List.prefix_append _ _

/-- A node that has just started, and an orchestrator. -/
def idle : FaultLoop where
  node := ⟨Kernel.booted.bpf, ∅, ∅, ∅, ∅, ∅⟩
  progress := none
  monitor := FaultMonitor.new.setCallback
  calls := []
  reporting := none
  sent := []
  log := FaultLog.initial
  raised := []
  forwarded := []

theorem init_idle : (machine nodeId).init idle :=
  ⟨rfl, rfl, rfl, rfl, rfl, rfl, rfl, rfl, rfl, FaultLog.initial_init, rfl, rfl⟩

/-- Task `t` of workload `a` may miss one deadline. -/
def tolerant : HierarchicalScheduleTable :=
  Daemon.tableOf [{ Daemon.sampleSlot "a" "t" with currentLimit := 1 }] []

/-- Process 7 misses two deadlines, and the second miss is forwarded. -/
def twoMisses : List Action :=
  [.receiveTable tolerant, .clearState, .updateCurrentLimits, .applyItem (some 7) 0, .tableDone,
    .callback (.selectCpu 7 2 1000000), .callback (.stopping 7 2 false 12000000), .poll,
    .callback (.selectCpu 7 2 21000000), .callback (.stopping 7 2 false 32000000), .poll,
    .report true, .handle 0 fun _ => ⟨true, 0⟩]

theorem names_twoMisses : ∀ a ∈ twoMisses, ∀ x, Names {text "a"} x a := by
  have htable : ∀ w ∈ tolerant.items.filterMap Item.workload?,
      w.1 ∈ ({text "a"} : Set Text) ∧ w.2 = fnv1aHash w.1 := by
    simp [tolerant, Daemon.tableOf, Daemon.sampleSlot, HierarchicalScheduleTable.items,
      PartitionConfig.items, Item.workload?]
  simp only [twoMisses, List.forall_mem_cons]
  exact ⟨fun _ => htable, fun _ => trivial, fun _ => trivial, fun _ => trivial, fun _ => trivial,
    fun _ => trivial, fun _ => trivial, fun _ => trivial, fun _ => trivial, fun _ => trivial,
    fun _ => trivial, fun _ => trivial, fun _ => trivial, fun _ h => absurd h List.not_mem_nil⟩

theorem exists_twoMisses : ∃ x, (machine (text "n")).ReachableIf (Names {text "a"}) x ∧
    x.log.submitted = [(0, ⟨text "a", text "n", natText (fnv1aHash (text "t")).toNat, .dmiss, 2⟩)] ∧
    x.raised.length = 2 ∧ x.progress = none ∧ x.node.workloadToPids.keys = [text "a"] := by
  have heval : ((machine (text "n")).exec idle twoMisses).any (fun x => decide
      (x.log.submitted =
          [(0, ⟨text "a", text "n", natText (fnv1aHash (text "t")).toNat, .dmiss, 2⟩)] ∧
        x.raised.length = 2 ∧ x.progress.isNone = true ∧
          x.node.workloadToPids.keys = [text "a"])) = true := by
    decide +kernel
  obtain ⟨x, hx, hall⟩ := (Option.any_eq_true _ _).1 heval
  obtain ⟨hsubmitted, hraised, hidle, hpids⟩ := of_decide_eq_true hall
  exact ⟨x, (Machine.ReachableIf.of_init init_idle).leads
    (Machine.leads_of_exec names_twoMisses hx), hsubmitted, hraised, Option.isNone_iff_eq_none.1 hidle,
    hpids⟩

/-- Of two misses one is forwarded. -/
theorem forwarded_once_of_two :
    ∃ x, (machine (text "n")).ReachableIf (Names {text "a"}) x ∧ x.raised.length = 2 ∧
      x.log.submitted.length = 1 ∧
      List.Forall₂ (fun i f => ∃ e, x.calls[i]? = some (.event e) ∧
        Forwards {text "a"} (text "n") (x.calls.take i) e f) x.forwarded
        (x.log.submitted.map Prod.snd) ∧
      x.forwarded.Nodup ∧ (x.calls.filterMap event?) <+: x.raised ∧
      ∀ hash table, x.forwarded.countP
        (fun i => isMissAt x.calls hash i && tableAt x.calls i = table) ≤ min 1 table := by
  obtain ⟨x, hx, hsubmitted, hraised, -⟩ := exists_twoMisses
  exact ⟨x, hx, hraised, by rw [hsubmitted]; rfl, forwarded_once hx⟩

/-! ### The answer -/

section Answer

variable {w id : Text} {entries : List (UInt64 × Text)}

theorem natText_injective : Function.Injective natText := fun m n h => by
  rw [← decimalValue_natText (n := m), h, decimalValue_natText]

theorem search_of_not_namesHash (h : ¬ NamesHash id) : search id entries = some none := by
  obtain ⟨hhex, hdec⟩ := not_or.1 h
  rw [search, if_neg hhex, List.find?_eq_none.2]
  · rfl
  · intro e _ heq
    exact hdec ⟨e.1, of_decide_eq_true heq⟩

theorem search_natText (hash : UInt64) : search (natText hash.toNat) entries =
    some ((entries.find? fun e => e.1 = hash).map Prod.snd) := by
  rw [search, if_neg fun hhex => natText_ne_of_hex hhex _ rfl]
  congr 3
  funext e
  rw [decide_eq_decide, natText_injective.eq_iff, UInt64.toNat_inj]

/-- The identifier a fault gives for the workload. -/
def Refers (id w : Text) : Prop := id = w ∨ id = natText (fnv1aHash w).toNat

theorem find?_eq (hinj : Set.InjOn fnv1aHash names) (hw : w ∈ names)
    (hentries : ∀ e ∈ entries, e.2 ∈ names ∧ e.1 = fnv1aHash e.2) :
    (entries.find? fun e => e.1 = fnv1aHash w).map Prod.snd =
      if (fnv1aHash w, w) ∈ entries then some w else none := by
  cases hfind : entries.find? fun e => e.1 = fnv1aHash w with
  | none =>
    rw [if_neg fun hmem => ?_]
    · rfl
    · exact absurd (List.find?_eq_none.1 hfind _ hmem) (by simp)
  | some e =>
    have hmem := List.mem_of_find?_eq_some hfind
    obtain ⟨hname, hhash⟩ := hentries e hmem
    have hfound : e.1 = fnv1aHash w := by simpa using List.find?_some hfind
    have heq : e.2 = w := hinj hname hw (hhash.symm.trans hfound)
    rw [if_pos (heq ▸ hhash ▸ hmem), Option.map_some, heq]

theorem resolve_of_refers {workloads : WorkloadMap} (hinj : Set.InjOn fnv1aHash names)
    (hplain : ∀ w ∈ names, ¬ NamesHash w) (hw : w ∈ names) (hstored : ∀ w ∈ workloads, w ∈ names)
    (hid : Refers id w) :
    SchedInfoService.resolve workloads id = .ok (if w ∈ workloads then some w else none) := by
  unfold SchedInfoService.resolve
  rcases hid with rfl | rfl
  · split_ifs with hmem
    · rfl
    · refine toOption_eq_some.1 ?_
      rw [findByHash_eq, search_of_not_namesHash (hplain id hw)]
  · rw [if_neg fun hmem => hplain _ (hstored _ hmem) (Or.inr ⟨_, rfl⟩)]
    refine toOption_eq_some.1 ?_
    rw [findByHash_eq, search_natText, find?_eq hinj hw]
    · congr 2
      simp only [List.mem_map, Prod.mk.injEq, Std.ExtTreeMap.mem_keys, eq_iff_iff]
      exact ⟨fun ⟨_, hmem, _, heq⟩ => heq ▸ hmem, fun hmem => ⟨w, hmem, rfl, rfl⟩⟩
    · intro e he
      obtain ⟨name, hname, rfl⟩ := List.mem_map.1 he
      exact ⟨hstored name (Std.ExtTreeMap.mem_keys.1 hname), rfl⟩

theorem exists_resolve_of_refers (hinj : Set.InjOn fnv1aHash names)
    (hplain : ∀ w ∈ names, ¬ NamesHash w) (hw : w ∈ names) (hknown : Known names n)
    (hid : Refers id w) :
    ∃ wid, n.resolve id = some wid ∧
      ∀ w', w' ∈ (n.stopWorkload wid).workloadToPids ↔ w' ∈ n.workloadToPids ∧ w' ≠ w := by
  have herase : ∀ wid w', w' ∈ (n.stopWorkload wid).workloadToPids ↔
      w' ∈ n.workloadToPids ∧ w' ≠ wid := by
    intro wid w'
    simp only [Node.stopWorkload, Std.ExtTreeMap.mem_erase, ne_eq,
      Std.LawfulEqOrd.compare_eq_iff_eq]
    rw [and_comm, eq_comm]
  unfold Node.resolve
  rcases hid with rfl | rfl
  · refine ⟨id, ?_, herase id⟩
    split_ifs
    · rfl
    · exact Daemon.resolveHash_of_not_namesHash (hplain id hw) _
  · have hnot : natText (fnv1aHash w).toNat ∉ n.workloadToPids := fun hmem =>
      hplain _ (hknown.pids _ hmem).1 (Or.inr ⟨_, rfl⟩)
    rw [if_neg hnot, resolveHash_eq, search_natText, find?_eq hinj hw]
    · split_ifs with hmem
      · exact ⟨w, rfl, herase w⟩
      · refine ⟨_, rfl, fun w' => ?_⟩
        rw [herase]
        refine and_congr_right fun hw' => iff_of_true (ne_of_mem_of_not_mem hw' hnot) ?_
        -- a workload the node runs has an entry
        rintro rfl
        have hentry := (hknown.pids w' hw').2
        have hget := Std.ExtTreeMap.getElem?_eq_some_getElem hentry
        have hsame := hknown.entries _ _ hget
        rw [hinj hsame.1 hw hsame.2.symm] at hget
        exact hmem (Std.ExtTreeMap.mem_toList_iff_getElem?_eq_some.2 hget)
    · intro e he
      exact hknown.entries _ _ (Std.ExtTreeMap.mem_toList_iff_getElem?_eq_some.1 he)

variable {U : Type} [Floating U]

/-- **A STOP for a fault hits the workload of the task that faulted.**  If the hashes of the names in
use differ, and no name looks like a hash, then for every fault that was submitted there is an event
about a task of a workload, and a STOP with the identifier from the fault takes this workload and no
other out of the store, and out of what the node runs. -/
theorem stop_of_fault (hinj : Set.InjOn fnv1aHash names) (hplain : ∀ w ∈ names, ¬ NamesHash w)
    (h : (machine nodeId).ReachableIf (Names names) x) {f : ℕ × FaultInfo}
    (hf : f ∈ x.log.submitted) (G : GlobalScheduler U) (clock : ℕ → UInt64) (o : SchedInfoService)
    (ho : ∀ w ∈ o.workloadTasks, w ∈ names) (nodes : ConnectedNodes) :
    ∃ w ∈ names, (∃ e ∈ x.raised, e.workloadIdHash = fnv1aHash w ∧
        f.2.taskName = natText e.taskIdHash.toNat) ∧
      ∃ o' id, enforceRecoveryPolicy G clock o nodes f.2.workloadId .stop =
          .ok (o', (nodes.broadcastRecoverySignal id .stop).1, 0) ∧
        (∀ w', w' ∈ o'.workloadTasks ↔ w' ∈ o.workloadTasks ∧ w' ≠ w) ∧
        (x.progress = none → ∃ x', (machine nodeId).next x (.recover id) = some x' ∧
          ∀ w', w' ∈ x'.node.workloadToPids ↔ w' ∈ x.node.workloadToPids ∧ w' ≠ w) := by
  have hinv := inv_of_reachableIf h
  obtain ⟨i, -, e, hreports, hforwards⟩ :=
    exists_of_forall₂_right hinv.forwarded (List.mem_map_of_mem (f := Prod.snd) hf)
  obtain ⟨w, hw, hhash, hid⟩ := hforwards.workload
  rw [hhash] at hid
  have hresolve := resolve_of_refers hinj hplain hw ho hid
  -- what the node does with the identifier it is sent
  have hnode : ∀ id, Refers id w → x.progress = none →
      ∃ x', (machine nodeId).next x (.recover id) = some x' ∧
        ∀ w', w' ∈ x'.node.workloadToPids ↔ w' ∈ x.node.workloadToPids ∧ w' ≠ w := by
    intro id hid hidle
    obtain ⟨wid, hwid, hgone⟩ := exists_resolve_of_refers hinj hplain hw hinv.known hid
    refine ⟨{ x with node := x.node.stopWorkload wid }, ?_, hgone⟩
    simp only [machine, hidle, hwid, Option.map_some]
  refine ⟨w, hw, ⟨e, hinv.mem_raised hreports.1, hhash, hforwards.taskName⟩, ?_⟩
  cases hremove : SchedInfoService.removeWorkload G clock o f.2.workloadId false with
  | error err =>
    have herror := SchedInfoService.resolve_of_removeWorkload_error hremove
    rw [hresolve] at herror
    cases herror
  | ok r =>
    refine ⟨r.service, r.resolvedId.getD f.2.workloadId,
      enforceRecoveryPolicy_stop hremove nodes, ?_⟩
    rcases SchedInfoService.removeWorkload_cases hremove with
      ⟨hnone, rfl⟩ | ⟨actualId, hsome, hactual, herased, -⟩
    · have hnot : w ∉ o.workloadTasks := by
        intro hmem
        rw [hresolve, if_pos hmem] at hnone
        cases hnone
      refine ⟨fun w' => ?_, hnode _ hid⟩
      exact (and_iff_left_of_imp fun hw' => ne_of_mem_of_not_mem hw' hnot).symm
    · have hactual' : actualId = w := by
        rw [hresolve] at hsome
        split_ifs at hsome <;> cases hsome
        rfl
      subst hactual'
      rw [hactual]
      refine ⟨fun w' => ?_, hnode _ (Or.inl rfl)⟩
      rw [herased.1, Std.ExtTreeMap.mem_erase, ne_eq, Std.LawfulEqOrd.compare_eq_iff_eq, and_comm,
        eq_comm]

/-- The answer to the fault of workload `a`. -/
theorem stop_of_fault_twoMisses :
    ∃ x f o' id x', (machine (text "n")).ReachableIf (Names {text "a"}) x ∧ f ∈ x.log.submitted ∧
      enforceRecoveryPolicy GlobalScheduler.unconfigured (fun _ => 0) storeOfA ∅ f.2.workloadId .stop =
        .ok (o', ((∅ : ConnectedNodes).broadcastRecoverySignal id .stop).1, 0) ∧
      text "a" ∈ storeOfA.workloadTasks ∧ text "a" ∉ o'.workloadTasks ∧
      (machine (text "n")).next x (.recover id) = some x' ∧
      text "a" ∈ x.node.workloadToPids ∧ text "a" ∉ x'.node.workloadToPids := by
  obtain ⟨x, hx, hsubmitted, -, hidle, hpids⟩ := exists_twoMisses
  obtain ⟨f, hf⟩ : ∃ f, f ∈ x.log.submitted := ⟨_, hsubmitted ▸ List.mem_singleton_self _⟩
  have hkeys : storeOfA.workloadTasks.keys = [text "a"] := by decide +kernel
  have hstored : ∀ w, w ∈ storeOfA.workloadTasks ↔ w = text "a" := fun w => by
    rw [← Std.ExtTreeMap.mem_keys, hkeys, List.mem_singleton]
  have hplain : ∀ w ∈ ({text "a"} : Set Text), ¬ NamesHash w := by
    rintro w rfl (hhex | ⟨hash, hdec⟩)
    · exact absurd hhex (by decide)
    · have hdigit : (97 : UInt8) ∈ natText hash.toNat := hdec ▸ by decide
      exact absurd (isDigit_of_mem_natText hdigit) (by decide)
  obtain ⟨w, rfl, -, o', id, hstop, hstore, hnode⟩ := stop_of_fault (Set.injOn_singleton _ _) hplain
    hx hf GlobalScheduler.unconfigured (fun _ => 0) storeOfA (fun w => (hstored w).1) ∅
  obtain ⟨x', hnext, hgone⟩ := hnode hidle
  refine ⟨x, f, o', id, x', hx, hf, hstop, (hstored _).2 rfl, fun h => ((hstore _).1 h).2 rfl, hnext,
    ?_, fun h => ((hgone _).1 h).2 rfl⟩
  rw [← Std.ExtTreeMap.mem_keys, hpids]
  exact List.mem_singleton_self _

end Answer

end FaultLoop

end Timpani
