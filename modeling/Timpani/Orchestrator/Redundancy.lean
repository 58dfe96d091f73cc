import Timpani.Orchestrator.ReplayLoop
import Timpani.Store.Coherence

/-!
# No table is sent twice

A table that arrives makes a node restart all its timer threads, so the loop remembers the last
table of each node and sends a new one only if something but the epoch has changed.

* `Orchestrator.isChain_sentTables` : **no redundant push**: in every interleaving, two tables that
  follow each other on a stream differ in more than their epoch.
-/

namespace Timpani

open SchedInfoService (addSchedInfo removeWorkload)

/-- The tables on a stream. -/
def sentTables (stream : List ControlCommand) : List HierarchicalScheduleTable :=
  stream.filterMap fun | .fullTable table => some table | .recovery _ _ => none

theorem lastTable_eq (stream : List ControlCommand) :
    lastTable stream = (sentTables stream).getLast? :=
  rfl

@[simp] theorem sentTables_append_fullTable (stream : List ControlCommand)
    (table : HierarchicalScheduleTable) :
    sentTables (stream ++ [.fullTable table]) = sentTables stream ++ [table] := by
  simp [sentTables]

@[simp] theorem sentTables_append_recovery (stream : List ControlCommand) (workloadId : Text)
    (action : RecoveryAction) :
    sentTables (stream ++ [.recovery workloadId action]) = sentTables stream := by
  simp [sentTables]

/-! ### The store keeps its tables -/

theorem isEmpty_eq_false_iff {tables : ScheduleTableMap} :
    tables.isEmpty = false ↔ ∃ n, n ∈ tables := by
  rw [← Bool.not_eq_true, Std.ExtTreeMap.isEmpty_iff, Std.ExtTreeMap.eq_empty_iff_forall_not_mem]
  exact not_forall_not

namespace SchedInfoService

variable {U : Type} [Floating U] {G : GlobalScheduler U} {s s' : SchedInfoService} {n : Text}

theorem mem_of_regenerate {clock : ℕ → UInt64} {workloads : WorkloadMap}
    {tables new : ScheduleTableMap} (h : regenerateAllSchedules G clock workloads tables = .ok new)
    (hn : n ∈ tables) : n ∈ new :=
  ((regenerateAllSchedules_eq_ok h).1 n).2 (mem_allNodes.2 (Or.inr hn))

theorem Erased.mem_scheduleTables {id : Text} (h : Erased G s id s') (hn : n ∈ s.scheduleTables) :
    n ∈ s'.scheduleTables := by
  rcases h.2 with ⟨clock, hreg⟩ | ⟨-, hsame⟩
  · exact mem_of_regenerate hreg hn
  · rwa [hsame]

theorem mem_scheduleTables_addSchedInfo (clock clock' : ℕ → UInt64) (request : SchedInfo)
    (hn : n ∈ s.scheduleTables) :
    n ∈ (addSchedInfo G clock clock' s request).1.scheduleTables := by
  rcases addSchedInfo_cases G clock clock' s request with ⟨-, hs⟩ | ⟨entry, -, hcase⟩
  · rwa [hs]
  · rcases hcase with ⟨tables, hreg, hs⟩ | ⟨-, -, -, herased⟩
    · rw [hs]
      exact mem_of_regenerate hreg hn
    · exact herased.mem_scheduleTables hn

theorem mem_scheduleTables_removeWorkload {clock : ℕ → UInt64} {workloadId : Text}
    {triggerPush : Bool} {r : Removal}
    (h : removeWorkload G clock s workloadId triggerPush = .ok r) (hn : n ∈ s.scheduleTables) :
    n ∈ r.service.scheduleTables := by
  rcases removeWorkload_cases h with ⟨-, rfl⟩ | ⟨actualId, -, -, herased, -⟩
  · exact hn
  · exact herased.mem_scheduleTables hn

end SchedInfoService

/-! ### What the bookkeeping queues -/

namespace ReplayLoop

variable {l : ReplayLoop} {n : Text} {ns connected : List Text} {tables : ScheduleTableMap}
  {changed : Bool}

theorem nextRetryTime_foldl_requeue (hn : n ∈ ns) :
    (ns.foldl requeue l).nextRetryTime[n]? = none := by
  have hkeep : ∀ (ns : List Text) (l : ReplayLoop), l.nextRetryTime[n]? = none →
      (ns.foldl requeue l).nextRetryTime[n]? = none := by
    intro ns
    induction ns with
    | nil => exact fun l hl => hl
    | cons m ns ih =>
      intro l hl
      refine ih _ ?_
      rw [requeue, Std.ExtTreeMap.getElem?_erase]
      split_ifs
      · rfl
      · exact hl
  induction ns generalizing l with
  | nil => cases hn
  | cons m ns ih =>
    rw [List.foldl_cons]
    rcases List.mem_cons.1 hn with rfl | hn
    · refine hkeep ns _ ?_
      rw [requeue, Std.ExtTreeMap.getElem?_erase, if_pos Std.ReflCmp.compare_self]
    · exact ih hn

/-- A synced node that stays connected: it stays synced, or its table has changed and a push is
due. -/
theorem takeStock_of_synced (hk : n ∈ l.knownConnectedNodes) (hc : n ∈ connected)
    (hs : n ∈ l.syncedNodes) (htables : tables.isEmpty = false) :
    (l.takeStock changed tables connected).lastPushedTables[n]? = l.lastPushedTables[n]? ∧
      (n ∈ (l.takeStock changed tables connected).syncedNodes ∨
        l.nodeTableChanged tables n = true ∧
          (l.takeStock changed tables connected).nextRetryTime[n]? = none ∧
          (l.takeStock changed tables connected).replayPending = true) := by
  have hlast := getElem?_lastPushedTables_noteConnections (l := l) hk hc
  have hsynced : n ∈ (l.noteConnections connected).syncedNodes :=
    mem_syncedNodes_noteConnections.2 ⟨hs, iff_of_true hk hc⟩
  unfold takeStock
  cases changed with
  | false => exact ⟨hlast, Or.inl hsynced⟩
  | true =>
    simp only [if_true]
    unfold noteChange
    rw [if_neg (by simp [htables])]
    dsimp only
    refine ⟨by rw [lastPushedTables_foldl_requeue, hlast], ?_⟩
    by_cases hchanged : (l.noteConnections connected).nodeTableChanged tables n = true
    · have hmem : n ∈ connected.filter ((l.noteConnections connected).nodeTableChanged tables) :=
        List.mem_filter.2 ⟨hc, hchanged⟩
      refine Or.inr ⟨?_, nextRetryTime_foldl_requeue hmem, ?_⟩
      · rwa [nodeTableChanged, hlast] at hchanged
      · rw [Bool.or_eq_true, Bool.not_eq_true', List.isEmpty_eq_false_iff]
        exact Or.inr (List.ne_nil_of_mem hmem)
    · refine Or.inl ((mem_syncedNodes_foldl (f := requeue) fun _ _ => rfl).2 ⟨hsynced, ?_⟩)
      simp [hchanged]

end ReplayLoop

/-! ### The invariant -/

namespace Orchestrator

open ReplayLoop (tableFor)

variable {U : Type} [Floating U] {G : GlobalScheduler U} {o o' : Orchestrator}

/-- The loop remembers the table, or is about to send another one. -/
def Remembers (o : Orchestrator) (n : Text) (table : HierarchicalScheduleTable) : Prop :=
  n ∈ o.loop.syncedNodes ∧ o.loop.lastPushedTables[n]? = some table ∨
    ∃ r, o.round = some r ∧ n ∈ r.todo ∧ n ∉ o.loop.syncedNodes ∧
      o.loop.nextRetryTime[n]? = none ∧ (tableFor r.schedTables n).sansEpoch ≠ table.sansEpoch

/-- What holds along every run. -/
structure Frugal (o : Orchestrator) : Prop where
  chain : ∀ (n : Text) (stream : List ControlCommand), o.nodes[n]? = some stream →
    (sentTables stream).IsChain fun a b => a.sansEpoch ≠ b.sansEpoch
  known : ∀ (n : Text) (stream : List ControlCommand) (table : HierarchicalScheduleTable),
    o.nodes[n]? = some stream → lastTable stream = some table → n ∈ o.loop.knownConnectedNodes
  remembers : ∀ (n : Text) (stream : List ControlCommand) (table : HierarchicalScheduleTable),
    o.nodes[n]? = some stream → lastTable stream = some table → o.Remembers n table
  /-- Once a node or a snapshot has a table, so has the store. -/
  tables : (∃ (n : Text) (stream : List ControlCommand), o.nodes[n]? = some stream ∧
      (lastTable stream).isSome) ∨ o.round.isSome ∨
      (∃ s, o.snapshot = some s ∧ s.schedTables.isEmpty = false) →
    o.service.scheduleTables.isEmpty = false
  /-- Nothing was sent yet when the loop took a snapshot without tables. -/
  snapshot : ∀ s, o.snapshot = some s → o.round = none ∧
    ∀ (n : Text) (stream : List ControlCommand), o.nodes[n]? = some stream →
      (lastTable stream).isSome → s.schedTables.isEmpty = false
  round : ∀ r, o.round = some r → ∀ n ∈ r.todo, n ∈ o.loop.knownConnectedNodes

theorem frugal_new : Frugal new where
  chain n stream h := by simp [new] at h
  known n stream table h := by simp [new] at h
  remembers n stream table h := by simp [new] at h
  tables h := by simp [new] at h
  snapshot s h := by cases h
  round r h := by cases h

theorem Frugal.setService {service : SchedInfoService} (h : Frugal o)
    (hkeep : ∀ n, n ∈ o.service.scheduleTables → n ∈ service.scheduleTables) :
    Frugal { o with service } where
  chain := h.chain
  known := h.known
  remembers := h.remembers
  tables hsome := by
    obtain ⟨n, hn⟩ := isEmpty_eq_false_iff.1 (h.tables hsome)
    exact isEmpty_eq_false_iff.2 ⟨n, hkeep n hn⟩
  snapshot := h.snapshot
  round := h.round

theorem Frugal.setStops {stops : List Text} (h : Frugal o) : Frugal { o with stops } :=
  ⟨h.chain, h.known, h.remembers, h.tables, h.snapshot, h.round⟩

theorem Frugal.setNodes {nodes : ConnectedNodes} (h : Frugal o)
    (hold : ∀ (n : Text) (stream : List ControlCommand), nodes[n]? = some stream →
      sentTables stream = [] ∨ ∃ old, o.nodes[n]? = some old ∧ sentTables stream = sentTables old) :
    Frugal { o with nodes } := by
  have hlast : ∀ {n : Text} {stream : List ControlCommand} {table : HierarchicalScheduleTable},
      nodes[n]? = some stream → lastTable stream = some table →
      ∃ old, o.nodes[n]? = some old ∧ lastTable old = some table := by
    intro n stream table hn htable
    rcases hold n stream hn with hnil | ⟨old, ho, hsame⟩
    · simp [lastTable_eq, hnil] at htable
    · exact ⟨old, ho, by rwa [lastTable_eq, ← hsame, ← lastTable_eq]⟩
  refine ⟨fun n stream hn => ?_, fun n stream table hn htable => ?_,
    fun n stream table hn htable => ?_, fun hsome => h.tables ?_,
    fun s hs => ⟨(h.snapshot s hs).1, fun n stream hn hsome => ?_⟩, h.round⟩
  · rcases hold n stream hn with hnil | ⟨old, ho, hsame⟩
    · rw [hnil]
      exact .nil
    · rw [hsame]
      exact h.chain n old ho
  · obtain ⟨old, ho, htable⟩ := hlast hn htable
    exact h.known n old table ho htable
  · obtain ⟨old, ho, htable⟩ := hlast hn htable
    exact h.remembers n old table ho htable
  · rcases hsome with ⟨n, stream, hn, hsome⟩ | hsome
    · obtain ⟨table, htable⟩ := Option.isSome_iff_exists.1 hsome
      obtain ⟨old, ho, htable⟩ := hlast hn htable
      exact Or.inl ⟨n, old, ho, by rw [htable]; rfl⟩
    · exact Or.inr hsome
  · obtain ⟨table, htable⟩ := Option.isSome_iff_exists.1 hsome
    obtain ⟨old, ho, htable⟩ := hlast hn htable
    exact (h.snapshot s hs).2 n old ho (by rw [htable]; rfl)

theorem Frugal.getScheduleTables (h : Frugal o) (hround : o.round = none) :
    Frugal o.getScheduleTables where
  chain := h.chain
  known := h.known
  remembers := h.remembers
  tables := by
    rintro (hstream | hround | ⟨_, ⟨⟩, htables⟩)
    · exact h.tables (Or.inl hstream)
    · exact h.tables (Or.inr (Or.inl hround))
    · exact htables
  snapshot := by
    rintro _ ⟨⟩
    exact ⟨hround, fun n stream hn hsome => h.tables (Or.inl ⟨n, stream, hn, hsome⟩)⟩
  round := h.round

theorem Frugal.beginRound {s : Snapshot} (h : Frugal o) (hs : o.snapshot = some s) (now : ℕ) :
    Frugal (o.beginRound s now) := by
  refine ⟨h.chain, fun n stream _ hn _ =>
      ReplayLoop.mem_knownConnectedNodes_takeStock.2 (mem_keys_of_getElem? hn),
    fun n stream table hn htable => ?_, fun hsome => ?_, (fun t ht => by cases ht),
    fun r hr n hn => ?_⟩
  · have hmem := mem_keys_of_getElem? hn
    have htables : s.schedTables.isEmpty = false :=
      (h.snapshot s hs).2 n stream hn (by rw [htable]; rfl)
    rcases h.remembers n stream table hn htable with ⟨hsync, hlast⟩ | ⟨r, hr, -⟩
    · obtain ⟨hlast', hcase⟩ := @ReplayLoop.takeStock_of_synced o.loop n o.nodes.keys
        s.schedTables s.changed (h.known n stream table hn htable) hmem hsync htables
      by_cases hsync' : n ∈ (o.loop.takeStock s.changed s.schedTables o.nodes.keys).syncedNodes
      · exact Or.inl ⟨hsync', hlast'.trans hlast⟩
      · obtain ⟨hchanged, hretry, hpending⟩ := hcase.resolve_left hsync'
        have hkeys : o.nodes.keys.isEmpty = false :=
          List.isEmpty_eq_false_iff.2 (List.ne_nil_of_mem hmem)
        refine Or.inr ⟨⟨s.schedTables, o.nodes.keys, now, o.nodes.keys, true⟩, ?_, hmem, hsync',
          hretry, ?_⟩
        · exact if_pos (by simp [hpending, htables, hkeys])
        · rw [ReplayLoop.nodeTableChanged, hlast] at hchanged
          exact of_decide_eq_true hchanged
    · rw [(h.snapshot s hs).1] at hr
      cases hr
  · rcases hsome with hstream | hsome | ⟨_, ⟨⟩, -⟩
    · exact h.tables (Or.inl hstream)
    · simp only [Orchestrator.beginRound] at hsome
      split_ifs at hsome with hcond
      · simp only [Bool.and_eq_true, Bool.not_eq_true'] at hcond
        exact h.tables (Or.inr (Or.inr ⟨s, hs, hcond.1.2⟩))
      · cases hsome
  · simp only [Orchestrator.beginRound] at hr
    split_ifs at hr
    cases hr
    exact ReplayLoop.mem_knownConnectedNodes_takeStock.2 hn

theorem Remembers.rest {r : Round} {m n : Text} {rest : List Text} {allPushOk : Bool}
    {table : HierarchicalScheduleTable} {loop : ReplayLoop} {nodes : ConnectedNodes}
    (h : o.Remembers n table) (hr : o.round = some r) (htodo : r.todo = m :: rest) (hne : n ≠ m)
    (hsynced : n ∈ loop.syncedNodes ↔ n ∈ o.loop.syncedNodes)
    (hlast : loop.lastPushedTables[n]? = o.loop.lastPushedTables[n]?)
    (hretry : loop.nextRetryTime[n]? = o.loop.nextRetryTime[n]?) :
    Remembers { o with nodes, loop, round := some { r with todo := rest, allPushOk } } n table := by
  rcases h with ⟨hs, hl⟩ | ⟨r', hr', hn, hs, hnone, hdiff⟩
  · exact Or.inl ⟨hsynced.2 hs, hlast.trans hl⟩
  · rw [hr] at hr'
    cases hr'
    rw [htodo] at hn
    exact Or.inr ⟨_, rfl, (List.mem_cons.1 hn).resolve_left hne, hsynced.not.2 hs,
      hretry.trans hnone, hdiff⟩

theorem Frugal.pushNext {r : Round} {m : Text} {rest : List Text} (h : Frugal o)
    (hr : o.round = some r) (htodo : r.todo = m :: rest) (wall : UInt64) :
    Frugal (o.pushNext r wall m rest) := by
  have htables : o.service.scheduleTables.isEmpty = false :=
    h.tables (Or.inr (Or.inl (by rw [hr]; rfl)))
  -- a round has begun, so there is no snapshot
  have hsnap : ∀ s, o.snapshot ≠ some s := fun s hs => by
    cases hr.symm.trans (h.snapshot s hs).1
  have hrest : ∀ n ∈ rest, n ∈ o.loop.knownConnectedNodes := fun n hn =>
    h.round r hr n (htodo ▸ List.mem_cons_of_mem m hn)
  rcases o.pushNext_cases r wall m rest with
    ⟨hskip, heq⟩ | ⟨hskip, hnone, heq⟩ | ⟨old, table, hskip, hsome, htable, heq⟩ <;> rw [heq]
  · refine ⟨h.chain, h.known, fun n stream table hn htable => ?_, fun _ => htables,
      fun s hs => absurd hs (hsnap s), ?_⟩
    · by_cases hne : n = m
      · subst hne
        -- a queued node is not skipped
        rcases h.remembers n stream table hn htable with hs | ⟨r', hr', -, hs, hnone, -⟩
        · exact Or.inl hs
        · simp [ReplayLoop.skips, hs, hnone] at hskip
      · exact (h.remembers n stream table hn htable).rest hr htodo hne Iff.rfl rfl rfl
    · rintro _ ⟨⟩
      exact hrest
  · refine ⟨h.chain, h.known, fun n stream table hn htable => ?_, fun _ => htables,
      fun s hs => absurd hs (hsnap s), ?_⟩
    · have hne : n ≠ m := by
        rintro rfl
        cases hnone.symm.trans hn
      refine (h.remembers n stream table hn htable).rest hr htodo hne ?_ rfl ?_
      · rw [ReplayLoop.mem_syncedNodes_failed]
        exact and_iff_right hne
      · exact (Std.ExtTreeMap.getElem?_insert).trans
          (if_neg (ReplayLoop.compare_eq_iff.not.2 hne))
    · rintro _ ⟨⟩
      exact hrest
  · have hsans : table.sansEpoch = (tableFor r.schedTables m).sansEpoch := by
      rw [htable]
      unfold tableFor
      cases r.schedTables[m]? <;> rfl
    refine ⟨fun n stream hn => ?_, fun n stream table' hn htable' => ?_,
      fun n stream table' hn htable' => ?_, fun _ => htables,
      fun s hs => absurd hs (hsnap s), ?_⟩
    · rcases getElem?_insert_stream hn with ⟨rfl, rfl⟩ | ⟨-, hn⟩
      · rw [sentTables_append_fullTable]
        refine (h.chain n old hsome).append (.singleton _) fun a ha b hb => ?_
        cases hb
        rw [hsans]
        -- the last table of the node was queued to be replaced, so the new one differs
        rcases h.remembers n old a hsome ha with ⟨hs, -⟩ | ⟨r', hr', -, -, -, hdiff⟩
        · simp [ReplayLoop.skips, hs] at hskip
        · rw [hr] at hr'
          cases hr'
          exact hdiff.symm
      · exact h.chain n stream hn
    · rcases getElem?_insert_stream hn with ⟨rfl, -⟩ | ⟨-, hn⟩
      · exact h.round r hr n (htodo ▸ List.mem_cons_self)
      · exact h.known n stream table' hn htable'
    · rcases getElem?_insert_stream hn with ⟨rfl, rfl⟩ | ⟨hne, hn⟩
      · rw [lastTable_append_fullTable] at htable'
        cases htable'
        exact Or.inl ⟨ReplayLoop.mem_syncedNodes_pushed.2 (Or.inl rfl),
          Std.ExtTreeMap.getElem?_insert_self⟩
      · refine (h.remembers n stream table' hn htable').rest hr htodo hne ?_ ?_ ?_
        · rw [ReplayLoop.mem_syncedNodes_pushed]
          exact or_iff_right hne
        · exact (Std.ExtTreeMap.getElem?_insert).trans
            (if_neg (ReplayLoop.compare_eq_iff.not.2 hne))
        · exact (Std.ExtTreeMap.getElem?_erase).trans
            (if_neg (ReplayLoop.compare_eq_iff.not.2 hne))
    · rintro _ ⟨⟩
      exact hrest

theorem Frugal.endRound {r : Round} (h : Frugal o) (hr : o.round = some r) (hdone : r.todo = []) :
    Frugal (o.endRound r) where
  chain := h.chain
  known := h.known
  remembers n stream table hn htable := by
    rcases h.remembers n stream table hn htable with hs | ⟨r', hr', hn', -⟩
    · exact Or.inl hs
    · rw [hr] at hr'
      cases hr'
      rw [hdone] at hn'
      cases hn'
  tables hsome := h.tables (Or.inr (Or.inl (by rw [hr]; rfl)))
  snapshot s hs := by cases hr.symm.trans (h.snapshot s hs).1
  round r hr := by cases hr

theorem Frugal.next {a : Action} (h : Frugal o) (hn : (machine G).next o a = some o') :
    Frugal o' := by
  cases a with
  | addSchedInfo clock clock' request =>
    cases hn
    exact h.setService fun n => SchedInfoService.mem_scheduleTables_addSchedInfo clock clock' request
  | enforceRecoveryPolicy clock workloadId policy =>
    obtain rfl | ⟨service, stop, hcall, rfl⟩ := next_enforceRecoveryPolicy hn
    · exact h
    · rcases beginRecovery_cases hcall with ⟨-, rfl, -⟩ | ⟨removal, -, hremoval, rfl, -⟩
      · exact h.setStops
      · exact (h.setService fun n =>
          SchedInfoService.mem_scheduleTables_removeWorkload hremoval).setStops
  | broadcastRecoverySignal i =>
    obtain ⟨id, -, rfl⟩ := next_broadcastRecoverySignal hn
    have hsignal : Frugal { o with nodes := (o.nodes.broadcastRecoverySignal id .stop).1 } := by
      refine h.setNodes fun n stream hn => ?_
      obtain ⟨old, ho, rfl⟩ := getElem?_broadcast hn
      exact Or.inr ⟨old, ho, sentTables_append_recovery _ _ _⟩
    exact hsignal.setStops
  | connect nodeId =>
    cases hn
    refine h.setNodes fun n stream hn => ?_
    rw [Std.ExtTreeMap.getElem?_insert] at hn
    split_ifs at hn
    · cases hn
      exact Or.inl rfl
    · exact Or.inr ⟨stream, hn, rfl⟩
  | disconnect nodeId =>
    cases hn
    refine h.setNodes fun n stream hn => ?_
    rw [Std.ExtTreeMap.getElem?_erase] at hn
    split_ifs at hn
    exact Or.inr ⟨stream, hn, rfl⟩
  | getScheduleTables =>
    obtain ⟨-, hround, rfl⟩ := next_getScheduleTables hn
    exact h.getScheduleTables hround
  | beginRound now =>
    obtain ⟨s, hs, rfl⟩ := next_beginRound hn
    exact h.beginRound hs now
  | pushNext wall =>
    obtain ⟨r, m, rest, hr, htodo, rfl⟩ := next_pushNext hn
    exact h.pushNext hr htodo wall
  | endRound =>
    obtain ⟨r, hr, hdone, rfl⟩ := next_endRound hn
    exact h.endRound hr hdone

theorem frugal_of_reachable (h : (machine G).Reachable o) : Frugal o :=
  h.invariant (by rintro _ rfl; exact frugal_new) fun _ _ _ hs _ hn => hs.next hn

/-- **No redundant push.**  Whatever comes and goes, two tables that follow each other on a stream
differ in more than their epoch. -/
theorem isChain_sentTables (h : (machine G).Reachable o) {n : Text} {stream : List ControlCommand}
    (hn : o.nodes[n]? = some stream) :
    (sentTables stream).IsChain fun a b => a.sansEpoch ≠ b.sansEpoch :=
  (frugal_of_reachable h).chain n stream hn

/-- A workload is submitted twice, and another one after it, with a round after each submission: the
node is sent two tables. -/
theorem isChain_sentTables_resubmitted :
    ∃ o stream, (machine SchedInfoService.singleCpu).Reachable o ∧
      o.nodes[text "n"]? = some stream ∧ (sentTables stream).length = 2 ∧
      (sentTables stream).IsChain fun a b => a.sansEpoch ≠ b.sansEpoch := by
  have heval : ((machine SchedInfoService.singleCpu).exec new [
      .connect (text "n"),
      .addSchedInfo (fun _ => 0) (fun _ => 0)
        (SchedInfoService.periodicWorkload "a" [("t1", 5, 1, 5)]),
      .getScheduleTables, .beginRound 0, .pushNext 0, .endRound,
      .addSchedInfo (fun _ => 7) (fun _ => 7)
        (SchedInfoService.periodicWorkload "a" [("t1", 5, 1, 5)]),
      .getScheduleTables, .beginRound 1,
      .addSchedInfo (fun _ => 9) (fun _ => 9)
        (SchedInfoService.periodicWorkload "b" [("t2", 10, 1, 10)]),
      .getScheduleTables, .beginRound 2, .pushNext 0, .endRound]).any (fun o =>
        o.nodes[text "n"]?.any fun stream => (sentTables stream).length = 2) = true := by
    decide +kernel
  obtain ⟨o, ho, heval⟩ := (Option.any_eq_true _ _).1 heval
  obtain ⟨stream, hstream, hlength⟩ := (Option.any_eq_true _ _).1 heval
  have hreach : (machine SchedInfoService.singleCpu).Reachable o := Machine.reachable_of_exec rfl ho
  exact ⟨o, stream, hreach, hstream, of_decide_eq_true hlength, isChain_sentTables hreach hstream⟩

end Orchestrator

end Timpani
