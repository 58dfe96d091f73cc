import Timpani.Run.Basic
import Timpani.Store.Service

/-!
# The replay loop of Timpani-O

The `main` of Timpani-O polls the store: it takes a snapshot of the schedule tables, notices which
nodes came and went, and pushes the table of every node that is not marked as synced.  Meanwhile the
gRPC threads add workloads, and stop them: a STOP erases the workload from the store without raising
the change flag and tells all connected nodes directly.

An action is what happens under one lock.  `AddSchedInfo` is one action; a STOP is two, the removal
from the store and the broadcast, between which anything may happen.  A round of the loop is several:
`getScheduleTables` (the snapshot), `beginRound` (the connected nodes and the bookkeeping with local
variables), one `pushNext` per node, and `endRound`.  Writes on the stream of a connected node
succeed.

* `executed` : what a node runs after the commands on its stream;
* `getScheduleTables`, `beginRound`, `pushNext`, `endRound` : one round of the loop;
* `Orchestrator.machine` : the loop, the gRPC calls and the connections in any interleaving.
-/

namespace Timpani

open SchedInfoService (addSchedInfo removeWorkload)

/-! ### Node streams -/

/-- `RecoverySignal.Action` -/
inductive RecoveryAction where
  | stop
  | restart
  deriving DecidableEq, Repr

/-- The commands a node receives. -/
inductive ControlCommand where
  | fullTable (table : HierarchicalScheduleTable)
  | recovery (workloadId : Text) (action : RecoveryAction)
  deriving DecidableEq, Repr

/-- `connected_nodes_`: for each registered stream the commands written on it so far. -/
abbrev ConnectedNodes := Std.ExtTreeMap Text (List ControlCommand)

namespace ConnectedNodes

/-- `push_full_table` -/
def pushFullTable (nodes : ConnectedNodes) (nodeId : Text) (table : HierarchicalScheduleTable) :
    ConnectedNodes × Bool :=
  match nodes[nodeId]? with
  | some stream => (nodes.insert nodeId (stream ++ [.fullTable table]), true)
  | none => (nodes, false)

/-- `broadcast_recovery_signal` -/
def broadcastRecoverySignal (nodes : ConnectedNodes) (workloadId : Text) (action : RecoveryAction) :
    ConnectedNodes × Bool :=
  (nodes.map fun _ stream => stream ++ [.recovery workloadId action], true)

end ConnectedNodes

/-- The effect of a command on the (workload, task) pairs a node runs: a table replaces them, a STOP
evicts the workload. -/
def execute (running : Option (List (Text × Text))) : ControlCommand → Option (List (Text × Text))
  | .fullTable table => some table.pairs
  | .recovery workloadId .stop => running.map (·.filter (·.1 ≠ workloadId))
  | .recovery _ .restart => running

/-- What a node runs after the commands of its stream; nothing is known before the first table. -/
def executed (stream : List ControlCommand) : Option (List (Text × Text)) :=
  stream.foldl execute none

/-- The last table on a stream. -/
def lastTable (stream : List ControlCommand) : Option HierarchicalScheduleTable :=
  (stream.filterMap fun | .fullTable table => some table | .recovery _ _ => none).getLast?

/-- The node runs all of the last table: nothing of it was stopped since. -/
def Intact (stream : List ControlCommand) : Prop :=
  executed stream = (lastTable stream).map (·.pairs)

@[simp] theorem executed_nil : executed [] = none := rfl

@[simp] theorem executed_append_fullTable (stream : List ControlCommand)
    (table : HierarchicalScheduleTable) :
    executed (stream ++ [.fullTable table]) = some table.pairs := by
  simp [executed, execute]

@[simp] theorem executed_append_stop (stream : List ControlCommand) (workloadId : Text) :
    executed (stream ++ [.recovery workloadId .stop]) =
      (executed stream).map (·.filter (·.1 ≠ workloadId)) := by
  simp [executed, execute]

@[simp] theorem lastTable_append_fullTable (stream : List ControlCommand)
    (table : HierarchicalScheduleTable) : lastTable (stream ++ [.fullTable table]) = some table := by
  simp [lastTable]

@[simp] theorem lastTable_append_recovery (stream : List ControlCommand) (workloadId : Text)
    (action : RecoveryAction) :
    lastTable (stream ++ [.recovery workloadId action]) = lastTable stream := by
  simp [lastTable]

/-! ### Recovery -/

/-- `RecoveryPolicy`; protobuf enums are open. -/
inductive RecoveryPolicy where
  | unknown
  | stop
  | restart
  | terminate
  | other (value : Int32)
  deriving DecidableEq, Repr

variable {U : Type} [Floating U]

/-- `EnforceRecoveryPolicy` up to the broadcast: the store, and the name to broadcast. -/
def beginRecovery (G : GlobalScheduler U) (clock : ℕ → UInt64) (service : SchedInfoService)
    (workloadId : Text) (policy : RecoveryPolicy) :
    Except ConversionError (SchedInfoService × Option Text) :=
  if policy = .stop then do
    let r ← removeWorkload G clock service workloadId false
    return (r.service, some (r.resolvedId.getD workloadId))
  else .ok (service, none)

/-- `EnforceRecoveryPolicy`, where nothing happens in between: the store, the streams and the status
of the reply. -/
def enforceRecoveryPolicy (G : GlobalScheduler U) (clock : ℕ → UInt64) (service : SchedInfoService)
    (nodes : ConnectedNodes) (workloadId : Text) (policy : RecoveryPolicy) :
    Except ConversionError (SchedInfoService × ConnectedNodes × ℤ) := do
  match ← beginRecovery G clock service workloadId policy with
  | (service, some actualId) =>
    let (nodes, ok) := nodes.broadcastRecoverySignal actualId .stop
    return (service, nodes, if ok then 0 else -1)
  | (service, none) => return (service, nodes, 0)

/-- What the first half of a call does: nothing, or it removes the workload it is about to stop. -/
theorem beginRecovery_cases {G : GlobalScheduler U} {clock : ℕ → UInt64}
    {service service' : SchedInfoService} {workloadId : Text} {policy : RecoveryPolicy}
    {stop : Option Text}
    (h : beginRecovery G clock service workloadId policy = .ok (service', stop)) :
    (policy ≠ .stop ∧ service' = service ∧ stop = none) ∨
      ∃ r, policy = .stop ∧ removeWorkload G clock service workloadId false = .ok r ∧
        service' = r.service ∧ stop = some (r.resolvedId.getD workloadId) := by
  unfold beginRecovery at h
  split_ifs at h with hpolicy
  · obtain ⟨r, hr, h⟩ := bind_eq_ok.1 h
    cases h
    exact Or.inr ⟨r, hpolicy, hr, rfl, rfl⟩
  · cases h
    exact Or.inl ⟨hpolicy, rfl, rfl⟩

theorem enforceRecoveryPolicy_stop {G : GlobalScheduler U} {clock : ℕ → UInt64}
    {service : SchedInfoService} {workloadId : Text} {r : SchedInfoService.Removal}
    (h : removeWorkload G clock service workloadId false = .ok r) (nodes : ConnectedNodes) :
    enforceRecoveryPolicy G clock service nodes workloadId .stop = .ok
      (r.service, (nodes.broadcastRecoverySignal (r.resolvedId.getD workloadId) .stop).1, 0) := by
  have hbegin : beginRecovery G clock service workloadId .stop =
      .ok (r.service, some (r.resolvedId.getD workloadId)) := by
    rw [beginRecovery, if_pos rfl, h]
    rfl
  rw [enforceRecoveryPolicy, hbegin]
  rfl

/-! ### The local state of the loop -/

/-- The variables of the loop that live across rounds. -/
structure ReplayLoop where
  replayPending : Bool
  knownConnectedNodes : Std.ExtTreeSet Text
  syncedNodes : Std.ExtTreeSet Text
  replayFailures : Std.ExtTreeMap Text ℕ
  /-- Steady-clock times in nanoseconds. -/
  nextRetryTime : Std.ExtTreeMap Text ℕ
  lastPushedTables : ScheduleTableMap

namespace ReplayLoop

def new : ReplayLoop := ⟨false, ∅, ∅, ∅, ∅, ∅⟩

/-- Queue a push for a node. -/
def requeue (l : ReplayLoop) (nodeId : Text) : ReplayLoop :=
  { l with
    syncedNodes := l.syncedNodes.erase nodeId
    replayFailures := l.replayFailures.erase nodeId
    nextRetryTime := l.nextRetryTime.erase nodeId }

/-- Drop everything that is known about a node. -/
def forget (l : ReplayLoop) (nodeId : Text) : ReplayLoop :=
  { l.requeue nodeId with lastPushedTables := l.lastPushedTables.erase nodeId }

/-- Forget the nodes that left; queue a push for those that came. -/
def noteConnections (l : ReplayLoop) (connected : List Text) : ReplayLoop :=
  let gone := l.knownConnectedNodes.toList.filter (· ∉ connected)
  let arrived := connected.filter (· ∉ l.knownConnectedNodes)
  { arrived.foldl forget (gone.foldl forget l) with
    replayPending := l.replayPending || !arrived.isEmpty
    knownConnectedNodes := .ofList connected }

/-- The table a node without tasks is sent. -/
def emptyTable (nodeId : Text) : HierarchicalScheduleTable where
  tableId := text "table_v1"
  nodeId := nodeId
  hyperperiodUs := 10000
  epochNs := 0
  partitions := []

/-- The table of a node in a snapshot. -/
def tableFor (tables : ScheduleTableMap) (nodeId : Text) : HierarchicalScheduleTable :=
  tables[nodeId]?.getD (emptyTable nodeId)

/-- The table of the node differs from the one pushed last, apart from the epoch. -/
def nodeTableChanged (l : ReplayLoop) (tables : ScheduleTableMap) (nodeId : Text) : Bool :=
  match l.lastPushedTables[nodeId]? with
  | some last => (tableFor tables nodeId).sansEpoch ≠ last.sansEpoch
  | none => true

/-- React to the change flag: queue a push for the nodes whose table changed. -/
def noteChange (l : ReplayLoop) (tables : ScheduleTableMap) (connected : List Text) : ReplayLoop :=
  if tables.isEmpty then
    { l with
      replayPending := true
      syncedNodes := ∅
      replayFailures := ∅
      nextRetryTime := ∅
      lastPushedTables := ∅ }
  else
    let changed := connected.filter (l.nodeTableChanged tables)
    { changed.foldl requeue l with replayPending := l.replayPending || !changed.isEmpty }

/-- The bookkeeping at the begin of a round. -/
def takeStock (l : ReplayLoop) (changed : Bool) (tables : ScheduleTableMap)
    (connected : List Text) : ReplayLoop :=
  let l := l.noteConnections connected
  if changed then l.noteChange tables connected else l

/-- Record a push that succeeded. -/
def pushed (l : ReplayLoop) (nodeId : Text) (table : HierarchicalScheduleTable) : ReplayLoop :=
  { l with
    syncedNodes := l.syncedNodes.insert nodeId
    replayFailures := l.replayFailures.erase nodeId
    nextRetryTime := l.nextRetryTime.erase nodeId
    lastPushedTables := l.lastPushedTables.insert nodeId table }

/-- The delay before the next attempt, in milliseconds. -/
def retryDelay (failCount : ℕ) : ℕ := min (500 * 2 ^ min (failCount - 1) 4) 8000

/-- Record a push that failed, and back off. -/
def failed (l : ReplayLoop) (now : ℕ) (nodeId : Text) : ReplayLoop :=
  let failCount := l.replayFailures.getD nodeId 0 + 1
  { l with
    syncedNodes := l.syncedNodes.erase nodeId
    replayFailures := l.replayFailures.insert nodeId failCount
    nextRetryTime := l.nextRetryTime.insert nodeId (now + retryDelay failCount * 1000000) }

/-- The node is skipped in this round: it is synced, or its retry is not due. -/
def skips (l : ReplayLoop) (now : ℕ) (nodeId : Text) : Bool :=
  nodeId ∈ l.syncedNodes || (l.nextRetryTime[nodeId]?.any (now < ·))

/-! ### What the bookkeeping does to the marks of a node -/

variable {l : ReplayLoop} {n m : Text} {ns connected : List Text} {tables : ScheduleTableMap}

theorem compare_eq_iff : compare m n = .eq ↔ n = m := by
  rw [Std.LawfulEqOrd.compare_eq_iff_eq, eq_comm]

theorem mem_syncedNodes_pushed {table : HierarchicalScheduleTable} :
    n ∈ (l.pushed m table).syncedNodes ↔ n = m ∨ n ∈ l.syncedNodes := by
  rw [pushed, Std.ExtTreeSet.mem_insert, compare_eq_iff]

theorem mem_syncedNodes_failed {now : ℕ} :
    n ∈ (l.failed now m).syncedNodes ↔ n ≠ m ∧ n ∈ l.syncedNodes := by
  rw [failed, Std.ExtTreeSet.mem_erase, Ne, compare_eq_iff]

theorem mem_syncedNodes_foldl {f : ReplayLoop → Text → ReplayLoop}
    (hf : ∀ l m, (f l m).syncedNodes = l.syncedNodes.erase m) :
    n ∈ (ns.foldl f l).syncedNodes ↔ n ∈ l.syncedNodes ∧ n ∉ ns := by
  induction ns generalizing l with
  | nil => simp
  | cons m ns ih =>
    rw [List.foldl_cons, ih, hf, Std.ExtTreeSet.mem_erase, List.mem_cons, Ne, compare_eq_iff]
    tauto

theorem lastPushedTables_foldl_requeue :
    (ns.foldl requeue l).lastPushedTables = l.lastPushedTables := by
  induction ns generalizing l with
  | nil => rfl
  | cons m ns ih => rw [List.foldl_cons, ih]; rfl

theorem knownConnectedNodes_foldl_requeue :
    (ns.foldl requeue l).knownConnectedNodes = l.knownConnectedNodes := by
  induction ns generalizing l with
  | nil => rfl
  | cons m ns ih => rw [List.foldl_cons, ih]; rfl

theorem getElem?_lastPushedTables_foldl_forget (h : n ∉ ns) :
    (ns.foldl forget l).lastPushedTables[n]? = l.lastPushedTables[n]? := by
  induction ns generalizing l with
  | nil => rfl
  | cons m ns ih =>
    rw [List.mem_cons, not_or] at h
    rw [List.foldl_cons, ih h.2, forget, Std.ExtTreeMap.getElem?_erase,
      if_neg (compare_eq_iff.not.2 h.1)]

theorem mem_syncedNodes_noteConnections :
    n ∈ (l.noteConnections connected).syncedNodes ↔
      n ∈ l.syncedNodes ∧ (n ∈ l.knownConnectedNodes ↔ n ∈ connected) := by
  rw [noteConnections, mem_syncedNodes_foldl (f := forget) fun _ _ => rfl,
    mem_syncedNodes_foldl (f := forget) fun _ _ => rfl]
  simp only [List.mem_filter, Std.ExtTreeSet.mem_toList, decide_eq_true_eq]
  tauto

theorem getElem?_lastPushedTables_noteConnections (h : n ∈ l.knownConnectedNodes)
    (hc : n ∈ connected) :
    (l.noteConnections connected).lastPushedTables[n]? = l.lastPushedTables[n]? := by
  rw [noteConnections, getElem?_lastPushedTables_foldl_forget (by simp [h]),
    getElem?_lastPushedTables_foldl_forget (by simp [hc])]

theorem mem_knownConnectedNodes_noteConnections :
    n ∈ (l.noteConnections connected).knownConnectedNodes ↔ n ∈ connected := by
  simp [noteConnections]

theorem replayPending_noteConnections :
    (l.noteConnections connected).replayPending = true ↔
      l.replayPending = true ∨ ∃ m ∈ connected, m ∉ l.knownConnectedNodes := by
  simp [noteConnections]

theorem of_mem_syncedNodes_noteChange (h : n ∈ (l.noteChange tables connected).syncedNodes) :
    n ∈ l.syncedNodes ∧ (n ∈ connected → l.nodeTableChanged tables n = false) ∧
      (l.noteChange tables connected).lastPushedTables = l.lastPushedTables := by
  unfold noteChange at h ⊢
  split_ifs at h ⊢ with hempty
  · simp at h
  · obtain ⟨hn, hnot⟩ := (mem_syncedNodes_foldl (f := requeue) fun _ _ => rfl).1 h
    refine ⟨hn, fun hc => ?_, lastPushedTables_foldl_requeue⟩
    simpa [hc] using hnot

theorem knownConnectedNodes_noteChange :
    (l.noteChange tables connected).knownConnectedNodes = l.knownConnectedNodes := by
  unfold noteChange
  split_ifs
  · rfl
  · exact knownConnectedNodes_foldl_requeue

theorem replayPending_noteChange (h : n ∉ (l.noteChange tables connected).syncedNodes)
    (hn : n ∉ l.syncedNodes → l.replayPending = true) :
    (l.noteChange tables connected).replayPending = true := by
  unfold noteChange at h ⊢
  split_ifs at h ⊢ with hempty
  · rfl
  · rw [mem_syncedNodes_foldl (f := requeue) fun _ _ => rfl, not_and, not_not] at h
    by_cases hs : n ∈ l.syncedNodes
    · simp only [Bool.or_eq_true, Bool.not_eq_true', List.isEmpty_eq_false_iff]
      exact Or.inr (List.ne_nil_of_mem (h hs))
    · simp [hn hs]

variable {changed : Bool}

theorem mem_knownConnectedNodes_takeStock :
    n ∈ (l.takeStock changed tables connected).knownConnectedNodes ↔ n ∈ connected := by
  unfold takeStock
  split_ifs
  · rw [knownConnectedNodes_noteChange, mem_knownConnectedNodes_noteConnections]
  · exact mem_knownConnectedNodes_noteConnections

/-- A node that was and is connected is synced after the bookkeeping only if it was synced before
and a flagged change did not change its table. -/
theorem of_mem_syncedNodes_takeStock (hk : n ∈ l.knownConnectedNodes) (hc : n ∈ connected)
    (h : n ∈ (l.takeStock changed tables connected).syncedNodes) :
    n ∈ l.syncedNodes ∧ (changed = true → l.nodeTableChanged tables n = false) ∧
      (l.takeStock changed tables connected).lastPushedTables[n]? = l.lastPushedTables[n]? := by
  have hlast := getElem?_lastPushedTables_noteConnections (l := l) hk hc
  unfold takeStock at h ⊢
  split_ifs at h ⊢ with hchanged
  · obtain ⟨hs, hsame, hkeep⟩ := of_mem_syncedNodes_noteChange h
    refine ⟨(mem_syncedNodes_noteConnections.1 hs).1, fun _ => ?_, by rw [hkeep, hlast]⟩
    have := hsame hc
    rwa [nodeTableChanged, hlast] at this
  · exact ⟨(mem_syncedNodes_noteConnections.1 h).1, fun h => absurd h hchanged, hlast⟩

theorem replayPending_takeStock
    (hpending : n ∈ l.knownConnectedNodes → n ∉ l.syncedNodes → l.replayPending = true)
    (hc : n ∈ connected) (h : n ∉ (l.takeStock changed tables connected).syncedNodes) :
    (l.takeStock changed tables connected).replayPending = true := by
  have hnote : n ∉ (l.noteConnections connected).syncedNodes →
      (l.noteConnections connected).replayPending = true := by
    intro hs
    rw [replayPending_noteConnections]
    by_cases hk : n ∈ l.knownConnectedNodes
    · refine Or.inl (hpending hk fun hs' => hs ?_)
      exact mem_syncedNodes_noteConnections.2 ⟨hs', iff_of_true hk hc⟩
    · exact Or.inr ⟨n, hc, hk⟩
  unfold takeStock at h ⊢
  split_ifs at h ⊢
  · exact replayPending_noteChange h hnote
  · exact hnote h

end ReplayLoop

/-! ### The whole orchestrator -/

/-- What `GetScheduleTables` returns to the loop. -/
structure Snapshot where
  schedTables : ScheduleTableMap
  changed : Bool

/-- A round of the loop that is pushing tables. -/
structure Round where
  /-- The snapshot taken at the begin of the round. -/
  schedTables : ScheduleTableMap
  connectedNodes : List Text
  now : ℕ
  /-- The nodes the loop has not come to yet. -/
  todo : List Text
  allPushOk : Bool

/-- The store, the streams and the loop. -/
structure Orchestrator where
  service : SchedInfoService
  nodes : ConnectedNodes
  loop : ReplayLoop
  /-- The workloads of the STOPs that are yet to be broadcast. -/
  stops : List Text
  /-- The loop has taken a snapshot, and not yet looked at the connections. -/
  snapshot : Option Snapshot
  round : Option Round

namespace Orchestrator

open ReplayLoop (tableFor)

def new : Orchestrator := ⟨.new, ∅, .new, [], none, none⟩

/-- Take the snapshot and clear the change flag. -/
def getScheduleTables (o : Orchestrator) : Orchestrator :=
  { o with
    service := { o.service with scheduleChanged := false }
    snapshot := some ⟨o.service.scheduleTables, o.service.scheduleChanged⟩ }

/-- Look at the connections, and decide what to push. -/
def beginRound (o : Orchestrator) (s : Snapshot) (now : ℕ) : Orchestrator :=
  let connected := o.nodes.keys
  let loop := o.loop.takeStock s.changed s.schedTables connected
  { o with
    loop := loop
    snapshot := none
    round :=
      if loop.replayPending && !s.schedTables.isEmpty && !connected.isEmpty then
        some { schedTables := s.schedTables, connectedNodes := connected, now, todo := connected,
               allPushOk := true }
      else none }

/-- Come to the next node of a round; `wall` is the clock reading for an empty table. -/
def pushNext (o : Orchestrator) (r : Round) (wall : UInt64) (nodeId : Text) (rest : List Text) :
    Orchestrator :=
  if o.loop.skips r.now nodeId then { o with round := some { r with todo := rest } }
  else
    let table := r.schedTables[nodeId]?.getD { ReplayLoop.emptyTable nodeId with epochNs := wall }
    let (nodes, ok) := o.nodes.pushFullTable nodeId table
    if ok then
      { o with nodes, loop := o.loop.pushed nodeId table, round := some { r with todo := rest } }
    else
      { o with nodes, loop := o.loop.failed r.now nodeId,
               round := some { r with todo := rest, allPushOk := false } }

/-- Everything that can happen to a node in a round: it is skipped, it is gone, or it gets its
table. -/
theorem pushNext_cases (o : Orchestrator) (r : Round) (wall : UInt64) (m : Text)
    (rest : List Text) :
    o.loop.skips r.now m = true ∧
        o.pushNext r wall m rest = { o with round := some { r with todo := rest } } ∨
      o.loop.skips r.now m = false ∧ o.nodes[m]? = none ∧
        o.pushNext r wall m rest =
          { o with
            loop := o.loop.failed r.now m
            round := some { r with todo := rest, allPushOk := false } } ∨
      ∃ old table, o.loop.skips r.now m = false ∧ o.nodes[m]? = some old ∧
        table = r.schedTables[m]?.getD { ReplayLoop.emptyTable m with epochNs := wall } ∧
        o.pushNext r wall m rest =
          { o with
            nodes := o.nodes.insert m (old ++ [.fullTable table])
            loop := o.loop.pushed m table
            round := some { r with todo := rest } } := by
  unfold pushNext
  cases hskip : o.loop.skips r.now m with
  | true => exact Or.inl ⟨rfl, rfl⟩
  | false =>
    unfold ConnectedNodes.pushFullTable
    cases hnode : o.nodes[m]? with
    | none => exact Or.inr (Or.inl ⟨rfl, rfl, rfl⟩)
    | some old => exact Or.inr (Or.inr ⟨old, _, rfl, rfl, rfl, rfl⟩)

/-- The end of a round: the replay is complete when all nodes are synced. -/
def endRound (o : Orchestrator) (r : Round) : Orchestrator :=
  let complete := r.allPushOk && r.connectedNodes.all (· ∈ o.loop.syncedNodes)
  { o with
    loop := { o.loop with replayPending := o.loop.replayPending && !complete }
    round := none }

/-- What can happen, with the requests and the clock readings. -/
inductive Action where
  | addSchedInfo (clock clock' : ℕ → UInt64) (request : SchedInfo)
  /-- The first half of a recovery call. -/
  | enforceRecoveryPolicy (clock : ℕ → UInt64) (workloadId : Text) (policy : RecoveryPolicy)
  /-- The second half of one of those that are in progress. -/
  | broadcastRecoverySignal (i : ℕ)
  /-- A stream registers its node; it replaces an older one. -/
  | connect (nodeId : Text)
  | disconnect (nodeId : Text)
  | getScheduleTables
  | beginRound (now : ℕ)
  | pushNext (wall : UInt64)
  | endRound

/-- The orchestrator under any interleaving. -/
def machine (G : GlobalScheduler U) : Machine Orchestrator Action where
  init o := o = new
  next o
    | .addSchedInfo clock clock' request =>
      some { o with service := (addSchedInfo G clock clock' o.service request).1 }
    | .enforceRecoveryPolicy clock workloadId policy =>
      match beginRecovery G clock o.service workloadId policy with
      | .ok (service, stop) => some { o with service, stops := o.stops ++ stop.toList }
      | .error _ => some o
    | .broadcastRecoverySignal i => o.stops[i]?.map fun actualId => { o with
        nodes := (o.nodes.broadcastRecoverySignal actualId .stop).1
        stops := o.stops.eraseIdx i }
    | .connect nodeId => some { o with nodes := o.nodes.insert nodeId [] }
    | .disconnect nodeId => some { o with nodes := o.nodes.erase nodeId }
    | .getScheduleTables =>
      if o.snapshot.isNone && o.round.isNone then some o.getScheduleTables else none
    | .beginRound now => o.snapshot.map fun s => o.beginRound s now
    | .pushNext wall =>
      match o.round with
      | some r =>
        match r.todo with
        | nodeId :: rest => some (o.pushNext r wall nodeId rest)
        | [] => none
      | none => none
    | .endRound =>
      match o.round with
      | some r => if r.todo.isEmpty then some (o.endRound r) else none
      | none => none

section Inversion

variable {G : GlobalScheduler U} {o o' : Orchestrator}

theorem next_enforceRecoveryPolicy {clock : ℕ → UInt64} {workloadId : Text}
    {policy : RecoveryPolicy}
    (h : (machine G).next o (.enforceRecoveryPolicy clock workloadId policy) = some o') :
    o' = o ∨ ∃ service stop, beginRecovery G clock o.service workloadId policy = .ok (service, stop) ∧
      o' = { o with service, stops := o.stops ++ stop.toList } := by
  dsimp only [machine] at h
  split at h
  · next service stop hcall => exact Or.inr ⟨service, stop, hcall, (Option.some.inj h).symm⟩
  · exact Or.inl (Option.some.inj h).symm

theorem next_broadcastRecoverySignal {i : ℕ}
    (h : (machine G).next o (.broadcastRecoverySignal i) = some o') :
    ∃ actualId, o.stops[i]? = some actualId ∧ o' = { o with
      nodes := (o.nodes.broadcastRecoverySignal actualId .stop).1
      stops := o.stops.eraseIdx i } := by
  obtain ⟨actualId, hi, rfl⟩ := Option.map_eq_some_iff.1 h
  exact ⟨actualId, hi, rfl⟩

theorem next_getScheduleTables (h : (machine G).next o .getScheduleTables = some o') :
    o.snapshot = none ∧ o.round = none ∧ o' = o.getScheduleTables := by
  obtain ⟨hidle, h⟩ := Option.ite_none_right_eq_some.1 h
  simp only [Bool.and_eq_true, Option.isNone_iff_eq_none] at hidle
  exact ⟨hidle.1, hidle.2, (Option.some.inj h).symm⟩

theorem next_beginRound {now : ℕ} (h : (machine G).next o (.beginRound now) = some o') :
    ∃ s, o.snapshot = some s ∧ o' = o.beginRound s now := by
  obtain ⟨s, hs, rfl⟩ := Option.map_eq_some_iff.1 h
  exact ⟨s, hs, rfl⟩

theorem next_pushNext {wall : UInt64} (h : (machine G).next o (.pushNext wall) = some o') :
    ∃ r m rest, o.round = some r ∧ r.todo = m :: rest ∧ o' = o.pushNext r wall m rest := by
  dsimp only [machine] at h
  split at h
  · next r hr =>
    split at h
    · next m rest htodo => exact ⟨r, m, rest, hr, htodo, (Option.some.inj h).symm⟩
    · cases h
  · cases h

theorem next_endRound (h : (machine G).next o .endRound = some o') :
    ∃ r, o.round = some r ∧ r.todo = [] ∧ o' = o.endRound r := by
  dsimp only [machine] at h
  split at h
  · next r hr =>
    split_ifs at h with hdone
    exact ⟨r, hr, List.isEmpty_iff.1 hdone, (Option.some.inj h).symm⟩
  · cases h

theorem getElem?_broadcast {nodes : ConnectedNodes} {id n : Text} {action : RecoveryAction}
    {stream : List ControlCommand}
    (h : (nodes.broadcastRecoverySignal id action).1[n]? = some stream) :
    ∃ old, nodes[n]? = some old ∧ stream = old ++ [.recovery id action] := by
  rw [ConnectedNodes.broadcastRecoverySignal, Std.ExtTreeMap.getElem?_map,
    Option.map_eq_some_iff] at h
  obtain ⟨old, hold, rfl⟩ := h
  exact ⟨old, hold, rfl⟩

theorem getElem?_insert_stream {nodes : ConnectedNodes} {m n : Text}
    {stream pushed : List ControlCommand} (h : (nodes.insert m pushed)[n]? = some stream) :
    n = m ∧ stream = pushed ∨ n ≠ m ∧ nodes[n]? = some stream := by
  rw [Std.ExtTreeMap.getElem?_insert] at h
  split_ifs at h with heq
  · exact Or.inl ⟨ReplayLoop.compare_eq_iff.1 heq, (Option.some.inj h).symm⟩
  · exact Or.inr ⟨ReplayLoop.compare_eq_iff.not.1 heq, h⟩

theorem mem_keys_of_getElem? {nodes : ConnectedNodes} {n : Text} {stream : List ControlCommand}
    (h : nodes[n]? = some stream) : n ∈ nodes.keys :=
  Std.ExtTreeMap.mem_keys.2 (Std.ExtTreeMap.mem_iff_isSome_getElem?.2 (by rw [h]; rfl))

end Inversion

end Orchestrator

end Timpani
