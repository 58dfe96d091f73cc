import Timpani.Orchestrator.ReplayLoop
import Timpani.Store.Coherence

/-!
# Orchestrator and nodes agree

When nothing is flagged or pending, a node should run exactly the tasks of its current table.  Two
channels change what a node runs: the tables the replay loop pushes, and the STOP signals, which
reach the nodes some time after the store.

* `agreement_of_orderly` : they agree, up to the STOPs under way, in every run in which no stored
  workload is lost to a rejected resubmission, no STOP makes the rest unschedulable or hits a table
  that is about to be pushed, no workload is pushed while a STOP of the same name is under way, and
  no change brings back the table last pushed after part of it was stopped;
* `not_agreement_after_resubmission` : a workload that is stopped and submitted again runs nowhere,
  because its table equals the one pushed before the STOP.
-/

namespace Timpani

/-! ### The pairs of a coherent store -/

namespace SchedInfoService

/-- The (workload, task) pairs of the current table of a node. -/
def currentPairs (s : SchedInfoService) (n : Text) : List (Text × Text) :=
  match s.scheduleTables[n]? with
  | some table => table.pairs
  | none => []

theorem pairs_tableFor (s : SchedInfoService) (n : Text) :
    (ReplayLoop.tableFor s.scheduleTables n).pairs = s.currentPairs n := by
  unfold ReplayLoop.tableFor currentPairs
  cases s.scheduleTables[n]? <;> rfl

variable {U : Type} [Floating U] [LawfulFloating U] {G : GlobalScheduler U}
  {s s' : SchedInfoService} {n : Text} {p : Text × Text}

theorem Coherent.mem_currentPairs (h : Coherent G s) :
    p ∈ s.currentPairs n ↔ ∃ t ∈ tasksFor s.workloadTasks n,
      (t.mechanism = .tt → t.periodUs ≠ 0) ∧ p = (t.workloadId, t.taskId) := by
  unfold currentPairs
  cases htable : s.scheduleTables[n]? with
  | some table =>
    obtain ⟨table', hgen⟩ := (h.fresh n table htable).exists_generateSchedule 0
    dsimp only
    rw [HierarchicalScheduleTable.pairs_eq_of_sansEpoch_eq
      ((h.fresh n table htable).sansEpoch_eq (fresh_of_generateSchedule hgen)),
      GlobalScheduler.mem_pairs_generateSchedule hgen]
  | none =>
    refine iff_of_false List.not_mem_nil ?_
    rintro ⟨t, ht, -⟩
    obtain ⟨id, entry, hentry, hn, -⟩ := mem_tasksFor.1 ht
    have := h.targets id entry hentry n hn
    rw [Std.ExtTreeMap.mem_iff_isSome_getElem?, htable] at this
    cases this

theorem Coherent.mem_currentPairs_erase (h : Coherent G s) (h' : Coherent G s')
    (hl : Labelled s.workloadTasks) {id : Text}
    (hw : s'.workloadTasks = s.workloadTasks.erase id) :
    p ∈ s'.currentPairs n ↔ p ∈ s.currentPairs n ∧ p.1 ≠ id := by
  have hmem : ∀ t, t ∈ tasksFor s'.workloadTasks n ↔
      t ∈ tasksFor s.workloadTasks n ∧ t.workloadId ≠ id := by
    intro t
    rw [mem_tasksFor, mem_tasksFor, hw]
    constructor
    · rintro ⟨id', entry, hentry, hn, ht⟩
      rw [Std.ExtTreeMap.getElem?_erase] at hentry
      split_ifs at hentry with hid
      refine ⟨⟨id', entry, hentry, hn, ht⟩, fun heq => hid ?_⟩
      rw [← heq, hl id' entry hentry t ht]
      exact Std.ReflCmp.compare_self
    · rintro ⟨⟨id', entry, hentry, hn, ht⟩, hne⟩
      refine ⟨id', entry, ?_, hn, ht⟩
      rw [Std.ExtTreeMap.getElem?_erase, if_neg, hentry]
      intro hid
      exact hne ((hl id' entry hentry t ht).trans (Std.LawfulEqCmp.eq_of_compare hid).symm)
  rw [h'.mem_currentPairs, h.mem_currentPairs]
  constructor
  · rintro ⟨t, ht, hp, rfl⟩
    obtain ⟨ht, hne⟩ := (hmem t).1 ht
    exact ⟨⟨t, ht, hp, rfl⟩, hne⟩
  · rintro ⟨⟨t, ht, hp, rfl⟩, hne⟩
    exact ⟨t, (hmem t).2 ⟨ht, hne⟩, hp, rfl⟩

theorem Coherent.fst_mem_of_mem_currentPairs (h : Coherent G s) (hl : Labelled s.workloadTasks)
    (hp : p ∈ s.currentPairs n) : p.1 ∈ s.workloadTasks := by
  unfold currentPairs at hp
  cases htable : s.scheduleTables[n]? with
  | some table =>
    rw [htable] at hp
    exact (h.fresh n table htable).mem_of_mem_pairs hl hp
  | none =>
    rw [htable] at hp
    cases hp

theorem notMem_of_resolve_none {workloads : WorkloadMap} {id : Text}
    (h : resolve workloads id = .ok none) : id ∉ workloads := by
  intro hmem
  rw [resolve, if_pos hmem] at h
  cases h

end SchedInfoService

namespace Orchestrator

open SchedInfoService ReplayLoop

variable {U : Type} [Floating U]

/-! ### The property and the condition -/

/-- The pairs are those of the current table of the node. -/
def Matches (s : SchedInfoService) (n : Text) (running : List (Text × Text)) : Prop :=
  ∀ p, p ∈ running ↔ p ∈ s.currentPairs n

/-- A change is flagged, or the loop has taken the flag and not yet acted on it. -/
def flagged (o : Orchestrator) : Bool :=
  o.service.scheduleChanged || o.snapshot.any (·.changed)

/-- The pairs are those of the current table, once the STOPs under way have arrived. -/
def Agrees (o : Orchestrator) (n : Text) (running : List (Text × Text)) : Prop :=
  ∀ p, p ∈ running ∧ p.1 ∉ o.stops ↔ p ∈ o.service.currentPairs n

/-- If nothing is flagged or pending, every node that was sent a table on its stream runs the
current one, up to the STOPs under way. -/
def Agreement (o : Orchestrator) : Prop :=
  o.flagged = false → o.loop.replayPending = false →
    ∀ (n : Text) (stream : List ControlCommand) (running : List (Text × Text)),
      o.nodes[n]? = some stream → executed stream = some running → o.Agrees n running

/-- What the actions of a run have to respect. -/
def Orderly (G : GlobalScheduler U) (o : Orchestrator) : Action → Prop
  -- a resubmission of a stored workload is feasible
  | .addSchedInfo _ _ request => ∀ entry, requestedEntry G request = some entry →
      request.workloadId ∈ o.service.workloadTasks →
      Schedulable G (o.service.workloadTasks.insert request.workloadId entry)
        o.service.scheduleTables
  -- a STOP leaves the rest schedulable, and unless a change is flagged the stopped workload is not
  -- in the snapshot of a round that begins, nor in a table the current round has yet to push
  | .enforceRecoveryPolicy _ workloadId policy => policy = .stop → ∀ actualId,
      resolve o.service.workloadTasks workloadId = .ok (some actualId) →
      Schedulable G (o.service.workloadTasks.erase actualId) o.service.scheduleTables ∧
        (o.service.scheduleChanged = false →
          (∀ s, o.snapshot = some s →
            ∀ n, ∀ p ∈ (tableFor s.schedTables n).pairs, p.1 ≠ actualId) ∧
          ∀ r, o.round = some r → ∀ n ∈ r.todo, n ∉ o.loop.syncedNodes →
            ∀ p ∈ (tableFor r.schedTables n).pairs, p.1 ≠ actualId)
  -- no STOP of a workload that was stored again is under way when the loop takes the change
  | .getScheduleTables => o.service.scheduleChanged = true →
      ∀ id ∈ o.stops, id ∉ o.service.workloadTasks
  -- a change does not bring back the last pushed table of a node on which part of it was stopped
  | .beginRound _ => ∀ s, o.snapshot = some s → s.changed = true →
      ∀ (n : Text) (stream : List ControlCommand), o.nodes[n]? = some stream →
        n ∈ o.loop.syncedNodes → o.loop.nodeTableChanged s.schedTables n = false →
        Intact stream
  | _ => True

/-! ### The invariant -/

/-- What holds in the middle of a round. -/
structure RoundInv (o : Orchestrator) (r : Round) : Prop where
  pending : o.loop.replayPending = true
  connected : ∀ n, n ∈ o.loop.knownConnectedNodes ↔ n ∈ r.connectedNodes
  todo : ∀ n ∈ r.todo, n ∈ r.connectedNodes
  /-- The snapshot is out of date only if a change is flagged. -/
  snapshot : o.service.scheduleChanged = false → ∀ n ∈ r.todo, n ∉ o.loop.syncedNodes →
    Matches o.service n (tableFor r.schedTables n).pairs

/-- What holds along orderly runs. -/
structure Inv (G : GlobalScheduler U) (o : Orchestrator) : Prop where
  coherent : Coherent G o.service
  labelled : Labelled o.service.workloadTasks
  /-- The STOPs under way are of workloads that are gone, unless a change is flagged. -/
  gone : o.service.scheduleChanged = false → ∀ id ∈ o.stops, id ∉ o.service.workloadTasks
  /-- Nodes that were sent a table are known to the loop. -/
  known : ∀ (n : Text) (stream : List ControlCommand), o.nodes[n]? = some stream →
    (executed stream).isSome → n ∈ o.loop.knownConnectedNodes
  pending : ∀ n ∈ o.loop.knownConnectedNodes, n ∉ o.loop.syncedNodes →
    o.loop.replayPending = true
  lastPushed : ∀ (n : Text) (stream : List ControlCommand), o.nodes[n]? = some stream →
    (executed stream).isSome → n ∈ o.loop.syncedNodes →
    o.loop.lastPushedTables[n]? = lastTable stream
  /-- Synced nodes run the current table, unless a change is flagged. -/
  agrees : o.flagged = false →
    ∀ (n : Text) (stream : List ControlCommand) (running : List (Text × Text)),
      o.nodes[n]? = some stream → executed stream = some running → n ∈ o.loop.syncedNodes →
      o.Agrees n running
  /-- The snapshot is out of date only if a change is flagged. -/
  snapshot : ∀ s, o.snapshot = some s → o.service.scheduleChanged = false →
    ∀ n, Matches o.service n (tableFor s.schedTables n).pairs
  round : ∀ r, o.round = some r → RoundInv o r

variable {G : GlobalScheduler U} {o o' : Orchestrator}

theorem flagged_eq_false : o.flagged = false ↔
    o.service.scheduleChanged = false ∧ ∀ s, o.snapshot = some s → s.changed = false := by
  unfold flagged
  cases o.snapshot <;> simp

theorem Inv.agreement (h : Inv G o) : Agreement o := by
  intro hflagged hpending n stream running hn hrun
  refine h.agrees hflagged n stream running hn hrun ?_
  by_contra hs
  have := h.pending n (h.known n stream hn (by rw [hrun]; rfl)) hs
  rw [hpending] at this
  cases this

theorem inv_new : Inv G new where
  coherent := coherent_new
  labelled id entry h := by simp [new, SchedInfoService.new] at h
  gone _ id h := by simp [new] at h
  known n stream h := by simp [new] at h
  pending n h := by simp [new, ReplayLoop.new] at h
  lastPushed n stream h := by simp [new] at h
  agrees _ n stream running h := by simp [new] at h
  snapshot s h := by cases h
  round r h := by cases h

/-! ### Calls and connections -/

/-- A call that changes the store only: it flags a change, or changes nothing that is current. -/
theorem Inv.setService {s : SchedInfoService} (h : Inv G o) (hco : Coherent G s)
    (hl : Labelled s.workloadTasks)
    (hsame : s.scheduleChanged = false → o.service.scheduleChanged = false ∧
      s.workloadTasks = o.service.workloadTasks ∧
      ∀ n p, p ∈ s.currentPairs n ↔ p ∈ o.service.currentPairs n) :
    Inv G { o with service := s } where
  coherent := hco
  labelled := hl
  gone hchanged := by
    obtain ⟨hchanged, hw, -⟩ := hsame hchanged
    exact hw ▸ h.gone hchanged
  known := h.known
  pending := h.pending
  lastPushed := h.lastPushed
  agrees hflagged n stream running hn hrun hs p := by
    obtain ⟨hchanged, hsnap⟩ := flagged_eq_false.1 hflagged
    obtain ⟨hchanged, -, hpairs⟩ := hsame hchanged
    rw [hpairs]
    exact h.agrees (flagged_eq_false.2 ⟨hchanged, hsnap⟩) n stream running hn hrun hs p
  snapshot t ht hchanged n p := by
    obtain ⟨hchanged, -, hpairs⟩ := hsame hchanged
    rw [h.snapshot t ht hchanged n p, ← hpairs]
  round r hr :=
    { pending := (h.round r hr).pending
      connected := (h.round r hr).connected
      todo := (h.round r hr).todo
      snapshot := fun hchanged n hn hs p => by
        obtain ⟨hchanged, -, hpairs⟩ := hsame hchanged
        rw [(h.round r hr).snapshot hchanged n hn hs p, ← hpairs] }

theorem Inv.setNodes {nodes : ConnectedNodes} (h : Inv G o)
    (hold : ∀ (n : Text) (stream : List ControlCommand), nodes[n]? = some stream →
      (executed stream).isSome → o.nodes[n]? = some stream) :
    Inv G { o with nodes } where
  coherent := h.coherent
  labelled := h.labelled
  gone := h.gone
  known n stream hn hrun := h.known n stream (hold n stream hn hrun) hrun
  pending := h.pending
  lastPushed n stream hn hrun := h.lastPushed n stream (hold n stream hn hrun) hrun
  agrees hflagged n stream running hn hrun :=
    h.agrees hflagged n stream running (hold n stream hn (by rw [hrun]; rfl)) hrun
  snapshot := h.snapshot
  round r hr := ⟨(h.round r hr).pending, (h.round r hr).connected, (h.round r hr).todo,
    (h.round r hr).snapshot⟩

/-- The first half of a STOP: what the store forgets is what the nodes are going to evict. -/
theorem Inv.stop {s : SchedInfoService} {id : Text} (h : Inv G o) (hco : Coherent G s)
    (hl : Labelled s.workloadTasks) (hchanged : s.scheduleChanged = o.service.scheduleChanged)
    (hgone : ∀ id' ∈ s.workloadTasks, id' ∈ o.service.workloadTasks ∧ id' ≠ id)
    (hpairs : ∀ n p, p ∈ s.currentPairs n ↔ p ∈ o.service.currentPairs n ∧ p.1 ≠ id)
    (hsnap : o.service.scheduleChanged = false → ∀ t, o.snapshot = some t →
      ∀ n, ∀ p ∈ (tableFor t.schedTables n).pairs, p.1 ≠ id)
    (hround : o.service.scheduleChanged = false → ∀ r, o.round = some r → ∀ n ∈ r.todo,
      n ∉ o.loop.syncedNodes → ∀ p ∈ (tableFor r.schedTables n).pairs, p.1 ≠ id) :
    Inv G { o with service := s, stops := o.stops ++ [id] } := by
  refine ⟨hco, hl, ?_, h.known, h.pending, h.lastPushed, ?_, ?_, ?_⟩
  · intro hc id' hid hmem
    rcases List.mem_append.1 hid with hid | hid
    · exact h.gone (hchanged ▸ hc) id' hid (hgone id' hmem).1
    · exact (hgone id' hmem).2 (List.mem_singleton.1 hid)
  · intro hflagged n stream running hn hrun hs p
    obtain ⟨hc, hs'⟩ := flagged_eq_false.1 hflagged
    have := h.agrees (flagged_eq_false.2 ⟨hchanged ▸ hc, hs'⟩) n stream running hn hrun hs p
    rw [hpairs, ← this, List.mem_append, List.mem_singleton, not_or, and_assoc]
  · intro t ht hc n p
    rw [hchanged] at hc
    rw [hpairs, ← h.snapshot t ht hc n p]
    exact ⟨fun hp => ⟨hp, hsnap hc t ht n p hp⟩, And.left⟩
  · intro r hr
    refine ⟨(h.round r hr).pending, (h.round r hr).connected, (h.round r hr).todo,
      fun hc n hn hs p => ?_⟩
    rw [hchanged] at hc
    rw [hpairs, ← (h.round r hr).snapshot hc n hn hs p]
    exact ⟨fun hp => ⟨hp, hround hc r hr n hn hs p hp⟩, And.left⟩

theorem mem_iff_mem_eraseIdx {α : Type} {l : List α} {i : ℕ} {a b : α} (h : l[i]? = some a) :
    b ∈ l ↔ b = a ∨ b ∈ l.eraseIdx i := by
  obtain ⟨hi, rfl⟩ := List.getElem?_eq_some_iff.1 h
  rw [← (List.getElem_cons_eraseIdx_perm hi).mem_iff, List.mem_cons]

theorem Inv.broadcast {id : Text} {i : ℕ} (h : Inv G o) (hi : o.stops[i]? = some id) :
    Inv G { o with
      nodes := (o.nodes.broadcastRecoverySignal id .stop).1
      stops := o.stops.eraseIdx i } := by
  refine ⟨h.coherent, h.labelled, ?_, ?_, h.pending, ?_, ?_, h.snapshot, ?_⟩
  · exact fun hc id' hid => h.gone hc id' (List.mem_of_mem_eraseIdx hid)
  · intro n stream hn hrun
    obtain ⟨old, hold, rfl⟩ := getElem?_broadcast hn
    exact h.known n old hold (by simpa using hrun)
  · intro n stream hn hrun hs
    obtain ⟨old, hold, rfl⟩ := getElem?_broadcast hn
    rw [lastTable_append_recovery]
    exact h.lastPushed n old hold (by simpa using hrun) hs
  · intro hflagged n stream running hn hrun hs p
    obtain ⟨old, hold, rfl⟩ := getElem?_broadcast hn
    rw [executed_append_stop, Option.map_eq_some_iff] at hrun
    obtain ⟨before, hbefore, rfl⟩ := hrun
    rw [← h.agrees hflagged n old before hold hbefore hs p, mem_iff_mem_eraseIdx hi, not_or,
      List.mem_filter, decide_eq_true_iff, and_assoc]
  · exact fun r hr => ⟨(h.round r hr).pending, (h.round r hr).connected, (h.round r hr).todo,
      (h.round r hr).snapshot⟩

/-! ### A round of the loop -/

theorem Inv.agrees_of_matches [LawfulFloating U] (h : Inv G o)
    (hc : o.service.scheduleChanged = false) {n : Text} {running : List (Text × Text)}
    (hm : Matches o.service n running) : o.Agrees n running := by
  intro p
  rw [hm p, and_iff_left_iff_imp]
  exact fun hp hstop => h.gone hc p.1 hstop
    (h.coherent.fst_mem_of_mem_currentPairs h.labelled hp)

/-- A synced node whose table is the last pushed one runs the pairs of the snapshot, if it runs all
of what it was sent. -/
theorem Inv.running_of_intact (h : Inv G o) {n : Text} {stream : List ControlCommand}
    {running : List (Text × Text)} {tables : ScheduleTableMap} (hn : o.nodes[n]? = some stream)
    (hrun : executed stream = some running) (hs : n ∈ o.loop.syncedNodes)
    (hsame : o.loop.nodeTableChanged tables n = false) (hintact : Intact stream) :
    running = (tableFor tables n).pairs := by
  rw [nodeTableChanged, h.lastPushed n stream hn (by rw [hrun]; rfl) hs] at hsame
  rw [Intact, hrun] at hintact
  cases htable : lastTable stream with
  | none => rw [htable] at hintact; cases hintact
  | some table =>
    rw [htable] at hintact hsame
    have hrunning : running = table.pairs := Option.some.inj hintact
    rw [decide_eq_false_iff_not, not_not] at hsame
    rw [hrunning, HierarchicalScheduleTable.pairs_eq_of_sansEpoch_eq hsame]

theorem Inv.getScheduleTables (h : Inv G o) (hok : Orderly G o .getScheduleTables)
    (hsnap : o.snapshot = none) (hround : o.round = none) : Inv G o.getScheduleTables where
  coherent := ⟨h.coherent.targets, h.coherent.fresh⟩
  labelled := h.labelled
  gone _ := by
    cases hc : o.service.scheduleChanged with
    | false => exact h.gone hc
    | true => exact hok hc
  known := h.known
  pending := h.pending
  lastPushed := h.lastPushed
  agrees hflagged := by
    refine h.agrees (flagged_eq_false.2 ⟨(flagged_eq_false.1 hflagged).2 _ rfl, ?_⟩)
    simp [hsnap]
  snapshot := by
    rintro _ ⟨⟩ _ n p
    rw [pairs_tableFor]
    rfl
  round r hr := by
    rw [Orchestrator.getScheduleTables, hround] at hr
    cases hr

theorem Inv.beginRound [LawfulFloating U] {s : Snapshot} (h : Inv G o) (hs : o.snapshot = some s)
    (now : ℕ) (hok : Orderly G o (.beginRound now)) : Inv G (o.beginRound s now) := by
  refine ⟨h.coherent, h.labelled, h.gone, ?_, ?_, ?_, ?_, (fun t ht => by cases ht), ?_⟩
  · exact fun n stream hn _ => mem_knownConnectedNodes_takeStock.2 (mem_keys_of_getElem? hn)
  · exact fun n hn => replayPending_takeStock (h.pending n) (mem_knownConnectedNodes_takeStock.1 hn)
  · intro n stream hn hrun hsync
    obtain ⟨hs', -, hlast⟩ :=
      of_mem_syncedNodes_takeStock (h.known n stream hn hrun) (mem_keys_of_getElem? hn) hsync
    exact hlast.trans (h.lastPushed n stream hn hrun hs')
  · intro hflagged n stream running hn hrun hsync
    have hc : o.service.scheduleChanged = false := (flagged_eq_false.1 hflagged).1
    obtain ⟨hs', hsame, -⟩ :=
      of_mem_syncedNodes_takeStock (h.known n stream hn (by rw [hrun]; rfl)) (mem_keys_of_getElem? hn) hsync
    cases hchanged : s.changed with
    | false =>
      refine h.agrees (flagged_eq_false.2 ⟨hc, ?_⟩) n stream running hn hrun hs'
      rintro t ht
      rwa [← Option.some.inj (hs.symm.trans ht)]
    | true =>
      refine h.agrees_of_matches hc ?_
      rw [h.running_of_intact hn hrun hs' (hsame hchanged)
        (hok s hs hchanged n stream hn hs' (hsame hchanged))]
      exact h.snapshot s hs hc n
  · intro r hr
    unfold Orchestrator.beginRound at hr
    dsimp only at hr
    split_ifs at hr with hcond
    cases hr
    simp only [Bool.and_eq_true] at hcond
    exact ⟨hcond.1.1, fun n => mem_knownConnectedNodes_takeStock, fun n hn => hn,
      fun hc n _ _ => h.snapshot s hs hc n⟩

theorem pairs_pushed (tables : ScheduleTableMap) (n : Text) (wall : UInt64) :
    (tables[n]?.getD { emptyTable n with epochNs := wall }).pairs = (tableFor tables n).pairs := by
  unfold tableFor
  cases tables[n]? <;> rfl

theorem RoundInv.rest {r : Round} {m : Text} {rest : List Text} {allPushOk : Bool}
    (h : RoundInv o r) (htodo : r.todo = m :: rest)
    (hservice : o'.service = o.service) (hpending : o'.loop.replayPending = o.loop.replayPending)
    (hknown : o'.loop.knownConnectedNodes = o.loop.knownConnectedNodes)
    (hsynced : ∀ n ∈ o.loop.syncedNodes, n ∈ o'.loop.syncedNodes) :
    RoundInv o' { r with todo := rest, allPushOk := allPushOk } := by
  have hrest : ∀ n ∈ rest, n ∈ r.todo := fun n hn => htodo ▸ List.mem_cons_of_mem m hn
  refine ⟨hpending.trans h.pending, fun n => ?_, fun n hn => h.todo n (hrest n hn), ?_⟩
  · rw [hknown, h.connected]
  · intro hc n hn hs
    rw [hservice] at hc ⊢
    exact h.snapshot hc n (hrest n hn) fun hs' => hs (hsynced n hs')

theorem Inv.pushFailed {r : Round} {m : Text} {rest : List Text} (h : Inv G o)
    (hr : o.round = some r) (htodo : r.todo = m :: rest) (hnot : m ∉ o.loop.syncedNodes) :
    Inv G { o with
      loop := o.loop.failed r.now m
      round := some { r with todo := rest, allPushOk := false } } := by
  have hsynced : ∀ n, n ∈ (o.loop.failed r.now m).syncedNodes ↔ n ∈ o.loop.syncedNodes := by
    intro n
    rw [mem_syncedNodes_failed, and_iff_right_of_imp]
    rintro hn rfl
    exact hnot hn
  refine ⟨h.coherent, h.labelled, h.gone, h.known, fun n hn hs => (h.round r hr).pending, ?_, ?_,
    h.snapshot, ?_⟩
  · exact fun n stream hn hrun hs => h.lastPushed n stream hn hrun ((hsynced n).1 hs)
  · exact fun hc n stream running hn hrun hs =>
      h.agrees hc n stream running hn hrun ((hsynced n).1 hs)
  · rintro _ ⟨⟩
    exact (h.round r hr).rest htodo rfl rfl rfl fun n hn => (hsynced n).2 hn

theorem Inv.pushed [LawfulFloating U] {r : Round} {m : Text} {rest : List Text}
    {old : List ControlCommand} {table : HierarchicalScheduleTable} (h : Inv G o) (hr : o.round = some r)
    (htodo : r.todo = m :: rest) (hnot : m ∉ o.loop.syncedNodes)
    (htable : table.pairs = (tableFor r.schedTables m).pairs) :
    Inv G { o with
      nodes := o.nodes.insert m (old ++ [.fullTable table])
      loop := o.loop.pushed m table
      round := some { r with todo := rest } } := by
  have hround := h.round r hr
  have hm : m ∈ r.todo := htodo ▸ List.mem_cons_self
  have hsynced : ∀ {n : Text}, n ≠ m → n ∈ (o.loop.pushed m table).syncedNodes →
      n ∈ o.loop.syncedNodes := fun hne hs => (mem_syncedNodes_pushed.1 hs).resolve_left hne
  refine ⟨h.coherent, h.labelled, h.gone, ?_, fun n hn hs => hround.pending, ?_, ?_, h.snapshot,
    ?_⟩
  · intro n stream hn hrun
    rcases getElem?_insert_stream hn with ⟨rfl, -⟩ | ⟨-, hn⟩
    · exact (hround.connected n).2 (hround.todo n hm)
    · exact h.known n stream hn hrun
  · intro n stream hn hrun hs
    rcases getElem?_insert_stream hn with ⟨rfl, rfl⟩ | ⟨hne, hn⟩
    · rw [lastTable_append_fullTable]
      exact Std.ExtTreeMap.getElem?_insert_self
    · refine Eq.trans ?_ (h.lastPushed n stream hn hrun (hsynced hne hs))
      exact (Std.ExtTreeMap.getElem?_insert).trans (if_neg (compare_eq_iff.not.2 hne))
  · intro hflagged n stream running hn hrun hs
    rcases getElem?_insert_stream hn with ⟨rfl, rfl⟩ | ⟨hne, hn⟩
    · have hc := (flagged_eq_false.1 hflagged).1
      rw [executed_append_fullTable] at hrun
      rw [← Option.some.inj hrun, htable]
      exact h.agrees_of_matches hc (hround.snapshot hc n hm hnot)
    · exact h.agrees hflagged n stream running hn hrun (hsynced hne hs)
  · rintro _ ⟨⟩
    exact hround.rest htodo rfl rfl rfl fun n hn => mem_syncedNodes_pushed.2 (Or.inr hn)

theorem Inv.pushNext [LawfulFloating U] {r : Round} {m : Text} {rest : List Text} (h : Inv G o)
    (hr : o.round = some r) (htodo : r.todo = m :: rest) (wall : UInt64) :
    Inv G (o.pushNext r wall m rest) := by
  have hnot : o.loop.skips r.now m = false → m ∉ o.loop.syncedNodes := fun hskip hs => by
    simp [skips, hs] at hskip
  rcases o.pushNext_cases r wall m rest with
    ⟨-, heq⟩ | ⟨hskip, -, heq⟩ | ⟨old, table, hskip, -, rfl, heq⟩ <;> rw [heq]
  · refine ⟨h.coherent, h.labelled, h.gone, h.known, h.pending, h.lastPushed, h.agrees, h.snapshot,
      ?_⟩
    rintro _ ⟨⟩
    exact (h.round r hr).rest htodo rfl rfl rfl fun n hn => hn
  · exact h.pushFailed hr htodo (hnot hskip)
  · exact h.pushed hr htodo (hnot hskip) (pairs_pushed r.schedTables m wall)

theorem Inv.endRound {r : Round} (h : Inv G o) (hr : o.round = some r) :
    Inv G (o.endRound r) := by
  refine ⟨h.coherent, h.labelled, h.gone, h.known, ?_, h.lastPushed, h.agrees, h.snapshot,
    fun r hr => by cases hr⟩
  intro n hn hs
  -- a round that leaves a node unsynced is not complete
  have hmem := ((h.round r hr).connected n).1 hn
  have hcomplete : (r.connectedNodes.all fun n => decide (n ∈ o.loop.syncedNodes)) = false := by
    rw [List.all_eq_false]
    exact ⟨n, hmem, decide_eq_true_iff.not.2 hs⟩
  simp [Orchestrator.endRound, hcomplete, (h.round r hr).pending]

/-! ### Every action -/

variable [LawfulFloating U]

theorem Inv.addSchedInfo (h : Inv G o) (clock clock' : ℕ → UInt64) (request : SchedInfo)
    (hok : Orderly G o (.addSchedInfo clock clock' request)) :
    Inv G { o with service := (addSchedInfo G clock clock' o.service request).1 } := by
  have hnext : (SchedInfoService.machine G).next o.service (.addSchedInfo clock clock' request) =
      some (SchedInfoService.addSchedInfo G clock clock' o.service request).1 := rfl
  have hco : Coherent G (SchedInfoService.addSchedInfo G clock clock' o.service request).1 :=
    (h.coherent.next_iff hnext).2 fun entry hentry hmem hnot =>
      absurd (hok entry hentry hmem) hnot
  refine h.setService hco (labelled_next h.labelled hnext) fun hc => ?_
  rcases addSchedInfo_cases G clock clock' o.service request with ⟨-, heq⟩ | ⟨entry, hentry, hcase⟩
  · rw [heq] at hc ⊢
    exact ⟨hc, rfl, fun n p => Iff.rfl⟩
  · rcases hcase with ⟨tables, -, heq⟩ | ⟨hnot, -, hchanged, hw, -⟩
    · rw [heq] at hc
      cases hc
    · -- a rejected request was for a new workload, so the stored ones are as before
      have hnew : request.workloadId ∉ o.service.workloadTasks := fun hmem =>
        hnot (hok entry hentry hmem)
      rw [erase_of_notMem hnew] at hw
      exact ⟨hchanged ▸ hc, hw, fun n p => by
        rw [hco.mem_currentPairs, h.coherent.mem_currentPairs, hw]⟩

theorem Inv.enforceRecoveryPolicy {clock : ℕ → UInt64} {workloadId : Text}
    {policy : RecoveryPolicy} {service : SchedInfoService} {stop : Option Text}
    (h : Inv G o) (hok : Orderly G o (.enforceRecoveryPolicy clock workloadId policy))
    (hcall : beginRecovery G clock o.service workloadId policy = .ok (service, stop)) :
    Inv G { o with service, stops := o.stops ++ stop.toList } := by
  rcases beginRecovery_cases hcall with ⟨-, rfl, rfl⟩ | ⟨r, hpolicy, hr, rfl, rfl⟩
  · rw [Option.toList_none, List.append_nil]
    exact h
  · rw [Option.toList_some]
    rcases removeWorkload_cases hr with ⟨hnone, rfl⟩ | ⟨actualId, hres, hid, herased, hchanged⟩
    · -- the signal names no stored workload
      have hgone := notMem_of_resolve_none hnone
      have hnot : ∀ n, ∀ p ∈ o.service.currentPairs n, p.1 ≠ workloadId := by
        rintro n p hp rfl
        exact hgone (h.coherent.fst_mem_of_mem_currentPairs h.labelled hp)
      refine h.stop h.coherent h.labelled rfl (fun id' hmem => ⟨hmem, ?_⟩)
        (fun n p => ⟨fun hp => ⟨hp, hnot n p hp⟩, And.left⟩) ?_ ?_
      · rintro rfl
        exact hgone hmem
      · exact fun hc t ht n p hp => hnot n p ((h.snapshot t ht hc n p).1 hp)
      · exact fun hc r hr n hn hs p hp => hnot n p (((h.round r hr).snapshot hc n hn hs p).1 hp)
    · obtain ⟨hsched, hclear⟩ := hok hpolicy actualId hres
      have hco := herased.coherent_iff.2 hsched
      rw [hid, Option.getD_some]
      have hlabelled : Labelled r.service.workloadTasks :=
        herased.1 ▸ EveryEntry.erase h.labelled actualId
      refine h.stop hco hlabelled (by simpa using hchanged) (fun id' hmem => ?_)
        (fun n p => h.coherent.mem_currentPairs_erase hco h.labelled herased.1)
        (fun hc => (hclear hc).1) (fun hc => (hclear hc).2)
      rw [herased.1, Std.ExtTreeMap.mem_erase, Ne, compare_eq_iff] at hmem
      exact hmem.symm

theorem Inv.next {a : Action} (h : Inv G o) (hok : Orderly G o a)
    (hn : (machine G).next o a = some o') : Inv G o' := by
  cases a with
  | addSchedInfo clock clock' request =>
    cases hn
    exact h.addSchedInfo clock clock' request hok
  | enforceRecoveryPolicy clock workloadId policy =>
    obtain rfl | ⟨service, stop, hcall, rfl⟩ := next_enforceRecoveryPolicy hn
    · exact h
    · exact h.enforceRecoveryPolicy hok hcall
  | broadcastRecoverySignal i =>
    obtain ⟨id, hi, rfl⟩ := next_broadcastRecoverySignal hn
    exact h.broadcast hi
  | connect m =>
    cases hn
    refine h.setNodes fun n stream hn hrun => ?_
    rw [Std.ExtTreeMap.getElem?_insert] at hn
    split_ifs at hn
    · cases hn; cases hrun
    · exact hn
  | disconnect m =>
    cases hn
    refine h.setNodes fun n stream hn _ => ?_
    rw [Std.ExtTreeMap.getElem?_erase] at hn
    split_ifs at hn
    exact hn
  | getScheduleTables =>
    obtain ⟨hsnap, hround, rfl⟩ := next_getScheduleTables hn
    exact h.getScheduleTables hok hsnap hround
  | beginRound now =>
    obtain ⟨s, hs, rfl⟩ := next_beginRound hn
    exact h.beginRound hs now hok
  | pushNext wall =>
    obtain ⟨r, m, rest, hr, htodo, rfl⟩ := next_pushNext hn
    exact h.pushNext hr htodo wall
  | endRound =>
    obtain ⟨r, hr, -, rfl⟩ := next_endRound hn
    exact h.endRound hr

/-- **Orchestrator and nodes agree** in every state of an orderly run. -/
theorem agreement_of_orderly (G : GlobalScheduler U) (o : Orchestrator)
    (h : (machine G).ReachableIf (Orderly G) o) : Agreement o := by
  refine (h.invariant (I := Inv G) ?_ fun o a o' hinv hok hn => hinv.next hok hn).agreement
  rintro _ rfl
  exact inv_new

omit [LawfulFloating U] in
/-- After the first replay the node runs the workload. -/
theorem agreement_after_replay :
    ∃ o, (machine singleCpu).ReachableIf (Orderly singleCpu) o ∧
      o.flagged = false ∧ o.loop.replayPending = false ∧
      (o.nodes[text "n"]?.bind executed) = some [(text "a", text "t1")] ∧ Agreement o := by
  let start : Orchestrator :=
    { new with service := alone, nodes := (∅ : ConnectedNodes).insert (text "n") [] }
  let begun := start.getScheduleTables.beginRound ⟨alone.scheduleTables, alone.scheduleChanged⟩ 0
  -- nothing is stored before the submission, and nothing is synced before the round
  have hbegun : (machine singleCpu).ReachableIf (Orderly singleCpu) begun := by
    refine .next (a := .beginRound 0) (s := start.getScheduleTables)
      (.next (a := .getScheduleTables) (s := start) (.next (a := .connect (text "n"))
        (.next (a := .addSchedInfo (fun _ => 0) (fun _ => 0)
          (periodicWorkload "a" [("t1", 5, 1, 5)])) (.of_init rfl) ?_ rfl) trivial rfl) ?_ rfl) ?_ rfl
    · intro entry _ hmem
      simp [new, SchedInfoService.new] at hmem
    · intro _ id hid
      cases hid
    · intro _ _ _ n stream _ hs
      simp [start, Orchestrator.getScheduleTables, new, ReplayLoop.new] at hs
  have heval : ((machine singleCpu).exec begun [.pushNext 0, .endRound]).any
      (fun o => decide (o.flagged = false ∧ o.loop.replayPending = false ∧
        (o.nodes[text "n"]?.bind executed) = some [(text "a", text "t1")])) = true := by
    decide +kernel
  obtain ⟨o, ho, hall⟩ := (Option.any_eq_true _ _).1 heval
  obtain ⟨hflagged, hpending, hrun⟩ := of_decide_eq_true hall
  have hreach := hbegun.leads (Machine.leads_of_exec
    (by simp only [List.mem_cons, List.not_mem_nil, or_false]
        rintro a (rfl | rfl) o <;> trivial) ho)
  exact ⟨o, hreach, hflagged, hpending, hrun, agreement_of_orderly singleCpu o hreach⟩

/-- A workload is submitted, replayed, stopped, and submitted again. -/
def resubmission : List Action :=
  [.connect (text "n"),
    .addSchedInfo (fun _ => 0) (fun _ => 0) (periodicWorkload "a" [("t1", 5, 1, 5)]),
    .getScheduleTables, .beginRound 0, .pushNext 0, .endRound,
    .enforceRecoveryPolicy (fun _ => 0) (text "a") .stop, .broadcastRecoverySignal 0,
    .addSchedInfo (fun _ => 0) (fun _ => 0) (periodicWorkload "a" [("t1", 5, 1, 5)]),
    .getScheduleTables, .beginRound 1]

/-- The table of the second submission is the one pushed before the STOP, so the loop skips the
node: nothing is flagged or pending, the store has the workload, and the node does not run it. -/
theorem not_agreement_after_resubmission :
    ∃ o, (machine singleCpu).Reachable o ∧ o.stops = [] ∧ text "a" ∈ o.service.workloadTasks ∧
      (text "a", text "t1") ∈ o.service.currentPairs (text "n") ∧
      (o.nodes[text "n"]?.bind executed) = some [] ∧ ¬ Agreement o := by
  have heval : ((machine singleCpu).exec new resubmission).any
      (fun o => decide (o.flagged = false ∧ o.loop.replayPending = false ∧ o.stops = [] ∧
        text "a" ∈ o.service.workloadTasks ∧ (o.nodes[text "n"]?.bind executed) = some [] ∧
        (text "a", text "t1") ∈ o.service.currentPairs (text "n"))) = true := by decide +kernel
  obtain ⟨o, ho, hall⟩ := (Option.any_eq_true _ _).1 heval
  obtain ⟨hflagged, hpending, hstops, hstored, hrun, hmem⟩ := of_decide_eq_true hall
  obtain ⟨stream, hn, hrun'⟩ := Option.bind_eq_some_iff.1 hrun
  refine ⟨o, Machine.reachable_of_exec rfl ho, hstops, hstored, hmem, hrun, fun hagree => ?_⟩
  exact List.not_mem_nil ((hagree hflagged hpending _ _ _ hn hrun' _).2 hmem).1

end Orchestrator

end Timpani
