import Timpani.Node.Commands
import Timpani.Orchestrator.Agreement
import Timpani.Orchestrator.Epoch

/-!
# The cluster

The orchestrator writes tables and STOP signals on the streams of its nodes, and every daemon
executes the commands of its stream one by one, while requests, connections and rounds of the replay
loop go on.  `executed` says what the commands are for; the daemons fill and clean maps instead.

* `GlobalScheduler.stamped_generateSchedule` : every generated table carries the hashes of its names;
* `Cluster.machine` : the orchestrator and all daemons under any interleaving;
* `Daemon.Obeyed.obey` : a daemon that runs what the commands so far are for does so after one more;
* `Cluster.holds_current` : **the daemons hold the store**: when nothing is flagged or pending, a
  daemon that executed its stream holds exactly the entries of the tasks that are stored for it, and
  those of the workloads whose STOP is yet to be broadcast.
-/

namespace Timpani

open GlobalScheduler (fnv1aHash)

variable {U : Type} [Floating U] {G : GlobalScheduler U} {t : HierarchicalScheduleTable}

/-! ### The hashes in the tables -/

theorem HierarchicalScheduleTable.Stamped.congr {t' : HierarchicalScheduleTable} (h : t.Stamped)
    (heq : t.partitions = t'.partitions) : t'.Stamped := by
  obtain ⟨hslots, hservers⟩ := h
  unfold ttSlots cbsEntries layers at *
  rw [heq] at hslots hservers
  exact ⟨hslots, hservers⟩

namespace GlobalScheduler

omit [Floating U] in
theorem stamped_buildTable (now : UInt64) (nodeId : Text) (scheds : List (PerCpuSchedule U))
    (hp : UInt64) : (buildTable now nodeId scheds hp).Stamped := by
  have hlayer : ∀ l ∈ (buildTable now nodeId scheds hp).layers, ∃ s : PerCpuSchedule U,
      l.ttSlots = s.ttSlots.map ttSlotOf ∧ l.cbsEntries = s.cbsAllocations.map cbsConfigOf := by
    intro l hl
    simp only [HierarchicalScheduleTable.layers, buildTable, List.mem_flatMap, List.mem_map] at hl
    obtain ⟨_, ⟨s, -, rfl⟩, hl⟩ := hl
    obtain rfl := List.mem_singleton.1 hl
    exact ⟨s, rfl, rfl⟩
  constructor
  · intro slot hslot
    obtain ⟨l, hl, hslot⟩ := List.mem_flatMap.1 hslot
    obtain ⟨s, hs, -⟩ := hlayer l hl
    rw [hs] at hslot
    obtain ⟨x, -, rfl⟩ := List.mem_map.1 hslot
    exact ⟨rfl, rfl⟩
  · intro e he
    obtain ⟨l, hl, he⟩ := List.mem_flatMap.1 he
    obtain ⟨s, -, hs⟩ := hlayer l hl
    rw [hs] at he
    obtain ⟨x, -, rfl⟩ := List.mem_map.1 he
    exact ⟨rfl, rfl⟩

theorem stamped_generateSchedule {now : UInt64} {nodeId : Text} {tasks : List ClassifiedTask}
    (h : G.generateSchedule now nodeId tasks = .ok t) : t.Stamped := by
  by_cases hne : tasks = []
  · subst hne
    cases h
    exact stamped_buildTable _ _ _ _
  · obtain ⟨a, allocated, -, rfl⟩ := (generateSchedule_eq_ok hne).1 h
    exact stamped_buildTable _ _ _ _

end GlobalScheduler

theorem SchedInfoService.Coherent.stamped {s : SchedInfoService} (h : Coherent G s) {n : Text}
    (ht : s.scheduleTables[n]? = some t) : t.Stamped := by
  have hfresh := h.fresh n t ht
  obtain ⟨t', hgen⟩ := hfresh.exists_generateSchedule 0
  refine (GlobalScheduler.stamped_generateSchedule hgen).congr ?_
  exact HierarchicalScheduleTable.partitions_eq_of_sansEpoch_eq
    ((fresh_of_generateSchedule hgen).sansEpoch_eq hfresh)

/-! ### A daemon and its stream -/

theorem exists_executed {stream : List ControlCommand} (h : lastTable stream = some t) :
    ∃ running, executed stream = some running := by
  induction stream using List.reverseRecOn with
  | nil => cases h
  | append_singleton stream command ih =>
    match command with
    | .fullTable table => exact ⟨_, executed_append_fullTable stream table⟩
    | .recovery wid action =>
      rw [lastTable_append_recovery] at h
      obtain ⟨running, hrun⟩ := ih h
      cases action with
      | stop => exact ⟨_, by rw [executed_append_stop, hrun]; rfl⟩
      | restart => exact ⟨running, by rwa [executed, List.foldl_append]⟩

namespace Daemon

/-- Execute a command of the stream; the daemon can die of an exception. -/
def obey (stdSort : StdSort) (findPid : ℕ → Option UInt32) (clock : ℕ → UInt64) (d : Daemon) :
    ControlCommand → Option Daemon
  | .fullTable table => some (d.tableCallback stdSort findPid clock table)
  | .recovery workloadId .stop => d.recoveryCallback workloadId
  | .recovery _ .restart => some d

/-- The command can be executed as it is meant. -/
def Obeyable (findPid : ℕ → Option UInt32) (clock : ℕ → UInt64) (d : Daemon) :
    ControlCommand → Prop
  | .fullTable table => Applicable d.node findPid clock table
  -- the name stands for itself
  | .recovery workloadId .stop => workloadId ∈ d.node.workloadToPids ∨ ¬ NamesHash workloadId
  | .recovery _ .restart => True

/-- The daemon runs what the commands are for. -/
structure Obeyed (commands : List ControlCommand) (d : Daemon) : Prop where
  remembered : Remembered (fun _ _ => True) d.node
  runs : ∀ t running, Timpani.lastTable commands = some t → executed commands = some running →
    d.Runs t running

variable {stdSort : StdSort} {findPid : ℕ → Option UInt32} {clock : ℕ → UInt64} {d d' : Daemon}
  {commands : List ControlCommand} {command : ControlCommand}

/-- **One command.** -/
theorem Obeyed.obey (h : Obeyed commands d) (hok : Obeyable findPid clock d command)
    (hstamped : ∀ t, command = .fullTable t → t.Stamped)
    (hd : d.obey stdSort findPid clock command = some d') : Obeyed (commands ++ [command]) d' := by
  match command with
  | .fullTable table =>
    cases hd
    refine ⟨h.remembered.tableCallback hok.complete fun _ _ _ _ => trivial, fun t running ht hr => ?_⟩
    rw [lastTable_append_fullTable] at ht
    rw [executed_append_fullTable] at hr
    cases ht
    cases hr
    exact runs_tableCallback h.remembered hok (hstamped _ rfl)
  | .recovery wid .stop =>
    have hresolve : d.node.resolve wid = some wid := by
      unfold Node.resolve
      split_ifs with hmem
      · rfl
      · exact resolveHash_of_not_namesHash (hok.resolve_left hmem) _
    obtain ⟨wid', -, hnode, -⟩ := recoveryCallback_eq_some hd
    refine ⟨hnode ▸ h.remembered.stopWorkload wid', fun t running ht hr => ?_⟩
    rw [lastTable_append_recovery] at ht
    rw [executed_append_stop] at hr
    obtain ⟨before, hbefore, rfl⟩ := Option.map_eq_some_iff.1 hr
    exact (h.runs t before ht hbefore).recoveryCallback hresolve hd
  | .recovery wid .restart =>
    cases hd
    refine ⟨h.remembered, fun t running ht hr => h.runs t running ?_ ?_⟩
    · rwa [lastTable_append_recovery] at ht
    · rwa [executed, List.foldl_append] at hr

end Daemon

/-- A node as it sees its stream. -/
structure Member where
  daemon : Daemon
  /-- The commands written on the last stream it opened. -/
  stream : List ControlCommand
  /-- How many of them it has executed. -/
  done : ℕ

/-- The stream of the node is registered anew. -/
def Orchestrator.Action.registers (n : Text) : Action → Bool
  | .connect nodeId => nodeId = n
  | _ => false

/-- What the node sees of an action: a stream that was closed can still be read to its end, and a
stream that is registered anew is empty. -/
def Member.follow (x : Member) (registered : Bool) (stream : Option (List ControlCommand)) : Member :=
  { x with stream := stream.getD x.stream, done := if registered then 0 else x.done }

/-- The orchestrator and its nodes. -/
structure Cluster where
  orchestrator : Orchestrator
  nodes : Text → Member

namespace Cluster

inductive Action where
  | orchestrator (a : Orchestrator.Action)
  /-- The daemon of a node executes the next command of its stream. -/
  | obey (nodeId : Text) (findPid : ℕ → Option UInt32) (clock : ℕ → UInt64)

/-- The orchestrator and all daemons under any interleaving. -/
def machine (G : GlobalScheduler U) (stdSort : StdSort) : Machine Cluster Action where
  init c := c.orchestrator = .new ∧
    ∀ n, (c.nodes n).daemon.Fresh ∧ (c.nodes n).stream = [] ∧ (c.nodes n).done = 0
  next c
    | .orchestrator a => do
      let o ← (Orchestrator.machine G).next c.orchestrator a
      return ⟨o, fun n => (c.nodes n).follow (a.registers n) o.nodes[n]?⟩
    | .obey nodeId findPid clock => do
      let x := c.nodes nodeId
      let command ← x.stream[x.done]?
      let daemon ← x.daemon.obey stdSort findPid clock command
      return { c with nodes := Function.update c.nodes nodeId { x with daemon, done := x.done + 1 } }

/-- What the actions of a run have to respect. -/
def Orderly (G : GlobalScheduler U) (c : Cluster) : Action → Prop
  | .orchestrator a => Orchestrator.Orderly G c.orchestrator a
  | .obey nodeId findPid clock => ∀ command ∈ (c.nodes nodeId).stream[(c.nodes nodeId).done]?,
      (c.nodes nodeId).daemon.Obeyable findPid clock command

end Cluster

/-! ### What is written on the streams -/

namespace Orchestrator

variable {o o' : Orchestrator} {a : Action} {n : Text} {stream : List ControlCommand}

/-- An action writes the table of a running round, or signals. -/
def Writes (o : Orchestrator) (n : Text) (written : List ControlCommand) : Prop :=
  ∀ t, .fullTable t ∈ written → ∃ r wall, o.round = some r ∧
    t = r.schedTables[n]?.getD { ReplayLoop.emptyTable n with epochNs := wall }

theorem writes_nil : Writes o n [] := fun _ h => by cases h

theorem stream_next (hn : (machine G).next o a = some o') (hstream : o'.nodes[n]? = some stream) :
    a.registers n = true ∧ stream = [] ∨
      a.registers n = false ∧ ∃ old written, o.nodes[n]? = some old ∧ stream = old ++ written ∧
        Writes o n written := by
  -- most actions write nothing
  have hsame : a.registers n = false → o'.nodes[n]? = o.nodes[n]? →
      a.registers n = true ∧ stream = [] ∨
        a.registers n = false ∧ ∃ old written, o.nodes[n]? = some old ∧ stream = old ++ written ∧
          Writes o n written := fun hreg heq =>
    Or.inr ⟨hreg, stream, [], heq ▸ hstream, (List.append_nil _).symm, writes_nil⟩
  cases a with
  | addSchedInfo clock clock' request =>
    cases hn
    exact hsame rfl rfl
  | enforceRecoveryPolicy clock workloadId policy =>
    obtain rfl | ⟨service, stop, -, rfl⟩ := next_enforceRecoveryPolicy hn <;> exact hsame rfl rfl
  | broadcastRecoverySignal i =>
    obtain ⟨id, -, rfl⟩ := next_broadcastRecoverySignal hn
    obtain ⟨old, hold, rfl⟩ := getElem?_broadcast hstream
    exact Or.inr ⟨rfl, old, _, hold, rfl, fun t ht => by simp at ht⟩
  | connect m =>
    cases hn
    by_cases hm : m = n
    · rw [Std.ExtTreeMap.getElem?_insert, if_pos (ReplayLoop.compare_eq_iff.2 hm.symm)] at hstream
      exact Or.inl ⟨decide_eq_true hm, (Option.some.inj hstream).symm⟩
    · refine hsame (decide_eq_false hm) ?_
      rw [Std.ExtTreeMap.getElem?_insert,
        if_neg (ReplayLoop.compare_eq_iff.not.2 (Ne.symm hm))]
  | disconnect m =>
    cases hn
    refine hsame rfl ?_
    rw [Std.ExtTreeMap.getElem?_erase] at hstream ⊢
    split_ifs at hstream ⊢
    rfl
  | getScheduleTables =>
    obtain ⟨-, -, rfl⟩ := next_getScheduleTables hn
    exact hsame rfl rfl
  | beginRound now =>
    obtain ⟨s, -, rfl⟩ := next_beginRound hn
    exact hsame rfl rfl
  | pushNext wall =>
    obtain ⟨r, m, rest, hr, htodo, rfl⟩ := next_pushNext hn
    rcases o.pushNext_cases r wall m rest with
      ⟨-, heq⟩ | ⟨-, -, heq⟩ | ⟨old, table, -, hold, rfl, heq⟩ <;> rw [heq] at hsame hstream
    · exact hsame rfl rfl
    · exact hsame rfl rfl
    · rcases getElem?_insert_stream hstream with ⟨rfl, rfl⟩ | ⟨hm, -⟩
      · refine Or.inr ⟨rfl, old, _, hold, rfl, fun t ht => ?_⟩
        exact ⟨r, wall, hr, by simpa using ht⟩
      · refine hsame rfl ?_
        exact (Std.ExtTreeMap.getElem?_insert).trans
          (if_neg (ReplayLoop.compare_eq_iff.not.2 hm))
  | endRound =>
    obtain ⟨r, -, -, rfl⟩ := next_endRound hn
    exact hsame rfl rfl

end Orchestrator

/-! ### The invariant -/

namespace Cluster

variable {stdSort : StdSort} {c c' : Cluster}

/-- What holds along orderly runs. -/
structure Inv (G : GlobalScheduler U) (c : Cluster) : Prop where
  orchestrator : Orchestrator.Inv G c.orchestrator
  /-- The tables of the loop carry the hashes. -/
  snapshot : ∀ tables, c.orchestrator.Working tables →
    ∀ (n : Text) (t : HierarchicalScheduleTable), tables[n]? = some t → t.Stamped
  registered : ∀ (n : Text) (stream : List ControlCommand),
    c.orchestrator.nodes[n]? = some stream → (c.nodes n).stream = stream
  stamped : ∀ n t, .fullTable t ∈ (c.nodes n).stream → t.Stamped
  done_le : ∀ n, (c.nodes n).done ≤ (c.nodes n).stream.length
  obeyed : ∀ n, (c.nodes n).daemon.Obeyed ((c.nodes n).stream.take (c.nodes n).done)

theorem inv_of_init (h : (machine G stdSort).init c) : Inv G c := by
  obtain ⟨ho, hnodes⟩ := h
  refine ⟨ho ▸ Orchestrator.inv_new, fun tables ht => ?_, fun n stream hn => ?_,
    fun n t ht => ?_, fun n => ?_, fun n => ?_⟩
  · rw [ho] at ht
    rcases ht with ⟨_, ⟨⟩, -⟩ | ⟨_, ⟨⟩, -⟩
  · rw [ho] at hn
    simp [Orchestrator.new] at hn
  · rw [(hnodes n).2.1] at ht
    cases ht
  · rw [(hnodes n).2.2]
    exact Nat.zero_le _
  · rw [(hnodes n).2.2]
    exact ⟨Daemon.remembered_fresh (hnodes n).1, fun t running ht => by cases ht⟩

theorem Inv.stamped_of_writes (h : Inv G c) {n : Text} {written : List ControlCommand}
    (hw : c.orchestrator.Writes n written) (ht : .fullTable t ∈ written) : t.Stamped := by
  obtain ⟨r, wall, hr, rfl⟩ := hw t ht
  cases hget : r.schedTables[n]? with
  | some t => exact h.snapshot r.schedTables (Or.inr ⟨r, hr, rfl⟩) n t hget
  | none =>
    constructor
    · intro slot hslot
      cases hslot
    · intro e he
      cases he

/-- What a node sees of an action: its stream begins anew, or something is written on it. -/
theorem Inv.follow_cases {a : Orchestrator.Action} {o' : Orchestrator} (h : Inv G c)
    (hn : (Orchestrator.machine G).next c.orchestrator a = some o') (n : Text) :
    (c.nodes n).follow (a.registers n) o'.nodes[n]? = ⟨(c.nodes n).daemon, [], 0⟩ ∨
      ∃ written, c.orchestrator.Writes n written ∧
        (c.nodes n).follow (a.registers n) o'.nodes[n]? =
          { c.nodes n with stream := (c.nodes n).stream ++ written } := by
  cases hstream : o'.nodes[n]? with
  | some stream =>
    rcases Orchestrator.stream_next hn hstream with ⟨hreg, rfl⟩ | ⟨hreg, old, written, hold, rfl, hw⟩
    · rw [hreg]
      exact Or.inl rfl
    · refine Or.inr ⟨written, hw, ?_⟩
      rw [hreg, h.registered n old hold]
      rfl
  | none =>
    have hreg : a.registers n = false := by
      refine Bool.eq_false_iff.2 fun hreg => ?_
      cases a with
      | connect m =>
        cases hn
        obtain rfl := of_decide_eq_true hreg
        rw [Std.ExtTreeMap.getElem?_insert_self] at hstream
        cases hstream
      | _ => cases hreg
    refine Or.inr ⟨[], Orchestrator.writes_nil, ?_⟩
    rw [hreg, List.append_nil]
    rfl

theorem Inv.next_obey {n : Text} {findPid : ℕ → Option UInt32} {clock : ℕ → UInt64}
    {command : ControlCommand} {d' : Daemon} (h : Inv G c)
    (hok : (c.nodes n).daemon.Obeyable findPid clock command)
    (hcommand : (c.nodes n).stream[(c.nodes n).done]? = some command)
    (hd : (c.nodes n).daemon.obey stdSort findPid clock command = some d') :
    Inv G { c with
      nodes := Function.update c.nodes n
        { c.nodes n with daemon := d', done := (c.nodes n).done + 1 } } := by
  have hstream : ∀ m, (Function.update c.nodes n
      { c.nodes n with daemon := d', done := (c.nodes n).done + 1 } m).stream =
        (c.nodes m).stream := by
    intro m
    by_cases hm : m = n
    · subst hm
      rw [Function.update_self]
    · rw [Function.update_of_ne hm]
  have hlt : (c.nodes n).done < (c.nodes n).stream.length :=
    (List.getElem?_eq_some_iff.1 hcommand).1
  refine ⟨h.orchestrator, h.snapshot, fun m stream hm => (hstream m).trans (h.registered m stream hm),
    fun m t ht => h.stamped m t (hstream m ▸ ht), fun m => ?_, fun m => ?_⟩
  all_goals
    dsimp only
    by_cases hm : m = n
  · subst hm
    rw [Function.update_self]
    exact hlt
  · rw [Function.update_of_ne hm]
    exact h.done_le m
  · subst hm
    rw [Function.update_self]
    dsimp only
    rw [List.take_add_one, hcommand]
    exact (h.obeyed m).obey hok (fun t ht => h.stamped m t (ht ▸ List.mem_of_getElem? hcommand)) hd
  · rw [Function.update_of_ne hm]
    exact h.obeyed m

variable [LawfulFloating U]

theorem Inv.next_orchestrator {a : Orchestrator.Action} {o' : Orchestrator} (h : Inv G c)
    (hok : Orchestrator.Orderly G c.orchestrator a)
    (hn : (Orchestrator.machine G).next c.orchestrator a = some o') :
    Inv G ⟨o', fun n => (c.nodes n).follow (a.registers n) o'.nodes[n]?⟩ := by
  refine ⟨h.orchestrator.next hok hn, fun tables htables n t ht => ?_, fun n stream hs => ?_,
    fun n t ht => ?_, fun n => ?_, fun n => ?_⟩
  · rcases Orchestrator.working_next hn htables with htables | rfl
    · exact h.snapshot tables htables n t ht
    · exact h.orchestrator.coherent.stamped ht
  · dsimp only at hs ⊢
    rw [hs]
    rfl
  all_goals
    dsimp only at *
    rcases h.follow_cases hn n with heq | ⟨written, hw, heq⟩
  · rw [heq] at ht
    cases ht
  · rw [heq] at ht
    rcases List.mem_append.1 ht with hold | hnew
    · exact h.stamped n t hold
    · exact h.stamped_of_writes hw hnew
  · rw [heq]
    exact Nat.zero_le _
  · rw [heq]
    exact (h.done_le n).trans (by simp)
  · rw [heq]
    exact ⟨(h.obeyed n).remembered, fun t running ht => by cases ht⟩
  · rw [heq]
    dsimp only
    rw [List.take_append_of_le_length (h.done_le n)]
    exact h.obeyed n

theorem inv_of_reachable (h : (machine G stdSort).ReachableIf (Orderly G) c) : Inv G c := by
  refine h.invariant (fun c hc => inv_of_init hc) fun c a c' hinv hok hn => ?_
  cases a with
  | orchestrator a =>
    obtain ⟨o', ho', heq⟩ := Option.bind_eq_some_iff.1 hn
    cases heq
    exact hinv.next_orchestrator hok ho'
  | obey n findPid clock =>
    obtain ⟨command, hcommand, hn⟩ := Option.bind_eq_some_iff.1 hn
    obtain ⟨d', hd, heq⟩ := Option.bind_eq_some_iff.1 hn
    cases heq
    exact hinv.next_obey (hok command hcommand) hcommand hd

/-- **The daemons hold the store.**  When nothing is flagged or pending, a daemon that has executed
its stream holds exactly what its last table has for the tasks that are stored for the node, and for
workloads whose STOP is yet to be broadcast. -/
theorem holds_current (h : (machine G stdSort).ReachableIf (Orderly G) c)
    (hflagged : c.orchestrator.flagged = false)
    (hpending : c.orchestrator.loop.replayPending = false) {n : Text} {stream : List ControlCommand}
    (hn : c.orchestrator.nodes[n]? = some stream) (ht : lastTable stream = some t)
    (hdone : (c.nodes n).done = stream.length) :
    ∃ running, c.orchestrator.Agrees n running ∧ (c.nodes n).daemon.Holds t running := by
  have hinv := inv_of_reachable h
  have hobeyed := hinv.obeyed n
  rw [hinv.registered n stream hn, hdone, List.take_length] at hobeyed
  obtain ⟨running, hrun⟩ := exists_executed ht
  exact ⟨running, hinv.orchestrator.agreement hflagged hpending n stream running hn hrun,
    (hobeyed.runs t running ht hrun).holds⟩

/-! ### Two workloads of which one is stopped -/

/-- A check that an action respects `Orderly`. -/
def check (G : GlobalScheduler U) (c : Cluster) : Action → Bool
  | .orchestrator (.addSchedInfo _ _ request) =>
    request.workloadId ∉ c.orchestrator.service.workloadTasks
  | .orchestrator (.enforceRecoveryPolicy _ workloadId _) =>
    (c.orchestrator.snapshot.isNone && c.orchestrator.round.isNone) &&
    match SchedInfoService.resolve c.orchestrator.service.workloadTasks workloadId with
    | .ok (some id) =>
      let rest := c.orchestrator.service.workloadTasks.erase id
      (SchedInfoService.allNodes rest c.orchestrator.service.scheduleTables).all fun n =>
        (G.generateSchedule 0 n (SchedInfoService.tasksFor rest n)).toBool
    | _ => false
  | .orchestrator .getScheduleTables => c.orchestrator.stops.isEmpty
  | .orchestrator (.beginRound _) => c.orchestrator.loop.syncedNodes.isEmpty
  | .orchestrator _ => true
  | .obey n findPid clock => (c.nodes n).stream[(c.nodes n).done]?.all fun
    | .fullTable table => decide (Applicable (c.nodes n).daemon.node findPid clock table)
    | .recovery workloadId _ => workloadId ∈ (c.nodes n).daemon.node.workloadToPids

omit [LawfulFloating U] in
theorem orderly_of_check {a : Action} (h : c.check G a = true) : Orderly G c a := by
  match a with
  | .orchestrator (.addSchedInfo _ _ request) =>
    exact fun entry _ hmem => absurd hmem (of_decide_eq_true h)
  | .orchestrator (.enforceRecoveryPolicy _ workloadId policy) =>
    intro _ id hid
    simp only [check, hid, Bool.and_eq_true, Option.isNone_iff_eq_none] at h
    obtain ⟨⟨hsnap, hround⟩, hall⟩ := h
    refine ⟨fun n hn => ?_, fun _ => ⟨by simp [hsnap], by simp [hround]⟩⟩
    have hok := List.all_eq_true.1 hall n hn
    cases hgen : G.generateSchedule 0 n (SchedInfoService.tasksFor
        (c.orchestrator.service.workloadTasks.erase id) n) with
    | ok table => exact ⟨table, SchedInfoService.fresh_of_generateSchedule hgen⟩
    | error e =>
      rw [hgen] at hok
      cases hok
  | .orchestrator .getScheduleTables =>
    intro _ id hid
    rw [List.isEmpty_iff.1 h] at hid
    cases hid
  | .orchestrator (.beginRound _) =>
    intro _ _ _ n _ _ hs
    rw [check, Std.ExtTreeSet.isEmpty_iff] at h
    simp [h] at hs
  | .orchestrator (.broadcastRecoverySignal _) => trivial
  | .orchestrator (.connect _) => trivial
  | .orchestrator (.disconnect _) => trivial
  | .orchestrator (.pushNext _) => trivial
  | .orchestrator .endRound => trivial
  | .obey n findPid clock =>
    intro command hcommand
    rw [check, Option.mem_def.1 hcommand, Option.all_some] at h
    match command with
    | .fullTable table => exact (decide_eq_true_iff.1 h : Applicable _ _ _ _)
    | .recovery workloadId .stop => exact Or.inl (of_decide_eq_true h)
    | .recovery _ .restart => trivial

/-- Workloads `a` and `b` are submitted and replayed; then `a` is stopped. -/
def stopping : List Action :=
  [.orchestrator (.connect (text "n")),
    .orchestrator (.addSchedInfo (fun _ => 0) (fun _ => 0)
      (SchedInfoService.periodicWorkload "a" [("t1", 5, 1, 5)])),
    .orchestrator (.addSchedInfo (fun _ => 0) (fun _ => 0)
      (SchedInfoService.periodicWorkload "b" [("t2", 5, 1, 5)])),
    .orchestrator .getScheduleTables, .orchestrator (.beginRound 0), .orchestrator (.pushNext 0),
    .orchestrator .endRound,
    .obey (text "n") (Daemon.finding [some 7, some 8]) (fun _ => 0),
    .orchestrator (.enforceRecoveryPolicy (fun _ => 0) (text "a") .stop),
    .orchestrator (.broadcastRecoverySignal 0),
    .obey (text "n") (Daemon.finding []) (fun _ => 0)]

omit [LawfulFloating U] in
/-- The table of the node has both tasks; the node holds that of `b` only. -/
theorem holds_current_after_stop :
    ∃ c stream t running, (machine SchedInfoService.singleCpu insertionStdSort).ReachableIf
        (Orderly SchedInfoService.singleCpu) c ∧
      c.orchestrator.nodes[text "n"]? = some stream ∧ lastTable stream = some t ∧
      t.pairs = [(text "a", text "t1"), (text "b", text "t2")] ∧
      (∀ p, p ∈ running ↔ p = (text "b", text "t2")) ∧
      (c.nodes (text "n")).daemon.Holds t running := by
  have heval : ((machine SchedInfoService.singleCpu insertionStdSort).execIf
      (check SchedInfoService.singleCpu) ⟨.new, fun _ => ⟨Daemon.started, [], 0⟩⟩ stopping).any
      (fun c => decide (c.orchestrator.flagged = false ∧
        c.orchestrator.loop.replayPending = false ∧ c.orchestrator.stops = [] ∧
        c.orchestrator.nodes[text "n"]?.map List.length = some (c.nodes (text "n")).done ∧
        ((c.orchestrator.nodes[text "n"]?.bind lastTable).map (·.pairs)) =
          some [(text "a", text "t1"), (text "b", text "t2")] ∧
        c.orchestrator.service.currentPairs (text "n") = [(text "b", text "t2")])) = true := by
    decide +kernel
  obtain ⟨c, hc, hall⟩ := (Option.any_eq_true _ _).1 heval
  obtain ⟨hflagged, hpending, hstops, hlength, htable, hcurrent⟩ := of_decide_eq_true hall
  obtain ⟨stream, hn, hdone⟩ := Option.map_eq_some_iff.1 hlength
  obtain ⟨t, ht, hpairs⟩ := Option.map_eq_some_iff.1 htable
  rw [hn, Option.bind_some] at ht
  have hinit : (machine SchedInfoService.singleCpu insertionStdSort).init
      ⟨.new, fun _ => ⟨Daemon.started, [], 0⟩⟩ := ⟨rfl, fun _ => ⟨Daemon.fresh_started, rfl, rfl⟩⟩
  have hreach := (Machine.ReachableIf.of_init hinit).leads
    (Machine.leads_of_execIf (fun _ _ => orderly_of_check) hc)
  obtain ⟨running, hrunning, hholds⟩ := holds_current hreach hflagged hpending hn ht hdone.symm
  rw [Orchestrator.Agrees, hcurrent, hstops] at hrunning
  exact ⟨c, stream, t, running, hreach, hn, ht, hpairs, fun p => by simpa using hrunning p, hholds⟩

end Cluster

end Timpani
