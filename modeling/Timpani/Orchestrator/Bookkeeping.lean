import Timpani.Orchestrator.ReplayLoop
import Timpani.Store.Coherence

/-!
# The bookkeeping of the replay loop

The replay loop remembers which nodes it has brought up to date and which table each was sent.  An
iteration reads the store and the connected nodes once, at its begin; whether a push succeeds is
told by its result.  So one iteration is a function of these, whatever the gRPC threads do
meanwhile.

* `ReplayLoop.iteration` : one iteration with arbitrary connections and results;
* `ReplayLoop.Sound` : a node is up to date, or a replay is pending;
* `Replay.machine` : the loop and a store in which every change is flagged;
* `Replay.sound_of_reachable` : the bookkeeping is sound after every iteration;
* `Orchestrator.loop_round` : the rounds of the orchestrator are iterations.
-/

namespace Timpani

namespace ReplayLoop

/-! ### One iteration -/

/-- The table that is pushed; `wall` is the clock reading for an empty one. -/
def tableToPush (tables : ScheduleTableMap) (wall : UInt64) (nodeId : Text) :
    HierarchicalScheduleTable :=
  tables[nodeId]?.getD { emptyTable nodeId with epochNs := wall }

/-- One node of an iteration; `ok` is the result of `push_full_table`, if it is called. -/
def pushNode (tables : ScheduleTableMap) (now : ℕ) (wall : Text → UInt64) (ok : Text → Bool)
    (s : ReplayLoop × Bool) (nodeId : Text) : ReplayLoop × Bool :=
  if s.1.skips now nodeId then s
  else if ok nodeId then (s.1.pushed nodeId (tableToPush tables (wall nodeId) nodeId), s.2)
  else (s.1.failed now nodeId, false)

/-- One iteration: `changed` and `tables` are what `GetScheduleTables` returns. -/
def iteration (l : ReplayLoop) (changed : Bool) (tables : ScheduleTableMap) (connected : List Text)
    (now : ℕ) (wall : Text → UInt64) (ok : Text → Bool) : ReplayLoop :=
  let l := l.takeStock changed tables connected
  if l.replayPending && !tables.isEmpty && !connected.isEmpty then
    let (l, allPushOk) := connected.foldl (pushNode tables now wall ok) (l, true)
    let complete := allPushOk && connected.all (· ∈ l.syncedNodes)
    { l with replayPending := l.replayPending && !complete }
  else l

/-! ### Soundness -/

/-- The last table the node was sent is the one of the snapshot, apart from the epoch. -/
def UpToDate (l : ReplayLoop) (tables : ScheduleTableMap) (n : Text) : Prop :=
  ∃ table, l.lastPushedTables[n]? = some table ∧
    table.sansEpoch = (tableFor tables n).sansEpoch

/-- Every connected node is up to date if it is marked as synced, and otherwise a replay is
pending. -/
structure Sound (l : ReplayLoop) (tables : ScheduleTableMap) (connected : List Text) : Prop where
  pending : ∀ n ∈ connected, n ∉ l.syncedNodes → l.replayPending = true
  upToDate : ∀ n ∈ connected, n ∈ l.syncedNodes → l.UpToDate tables n

variable {l : ReplayLoop} {tables : ScheduleTableMap} {connected : List Text} {changed : Bool}
  {now : ℕ} {wall : Text → UInt64} {ok : Text → Bool} {n m : Text}

theorem sansEpoch_tableToPush (w : UInt64) :
    (tableToPush tables w n).sansEpoch = (tableFor tables n).sansEpoch := by
  unfold tableToPush tableFor
  cases tables[n]? <;> rfl

theorem upToDate_pushed {table : HierarchicalScheduleTable}
    (htable : table.sansEpoch = (tableFor tables m).sansEpoch)
    (h : n ≠ m → l.UpToDate tables n) : (l.pushed m table).UpToDate tables n := by
  unfold UpToDate pushed
  simp only [Std.ExtTreeMap.getElem?_insert, compare_eq_iff]
  split_ifs with heq
  · subst heq
    exact ⟨table, rfl, htable⟩
  · exact h heq

theorem sound_takeStock
    (hpending : ∀ n ∈ l.knownConnectedNodes, n ∉ l.syncedNodes → l.replayPending = true)
    (hcurrent : changed = false →
      ∀ n ∈ l.knownConnectedNodes, n ∈ l.syncedNodes → l.UpToDate tables n) :
    (l.takeStock changed tables connected).Sound tables connected where
  pending n hc hs := replayPending_takeStock (hpending n) hc hs
  upToDate n hc hs := by
    have hknown : n ∈ l.knownConnectedNodes := by
      have hnote : n ∈ (l.noteConnections connected).syncedNodes := by
        unfold takeStock at hs
        split_ifs at hs
        · exact (of_mem_syncedNodes_noteChange hs).1
        · exact hs
      exact (mem_syncedNodes_noteConnections.1 hnote).2.2 hc
    obtain ⟨hsynced, hsame, hlast⟩ := of_mem_syncedNodes_takeStock hknown hc hs
    unfold UpToDate
    rw [hlast]
    cases changed with
    | false => exact hcurrent rfl n hknown hsynced
    | true =>
      have hsame := hsame rfl
      unfold nodeTableChanged at hsame
      cases htable : l.lastPushedTables[n]? with
      | none => simp [htable] at hsame
      | some table =>
        simp only [htable, decide_eq_false_iff_not, not_not] at hsame
        exact ⟨table, rfl, hsame.symm⟩

theorem Sound.pushNode {s : ReplayLoop × Bool} (h : s.1.Sound tables connected)
    (hpending : s.1.replayPending = true) :
    (ReplayLoop.pushNode tables now wall ok s m).1.Sound tables connected ∧
      (ReplayLoop.pushNode tables now wall ok s m).1.replayPending = true := by
  unfold ReplayLoop.pushNode
  split_ifs with hskip hok
  · exact ⟨h, hpending⟩
  -- pushes do not touch the flag
  · refine ⟨⟨fun _ _ _ => hpending, fun n hc hs => ?_⟩, hpending⟩
    refine upToDate_pushed (sansEpoch_tableToPush _) fun hne => h.upToDate n hc ?_
    exact (mem_syncedNodes_pushed.1 hs).resolve_left hne
  · refine ⟨⟨fun _ _ _ => hpending, fun n hc hs => ?_⟩, hpending⟩
    exact h.upToDate n hc (mem_syncedNodes_failed.1 hs).2

theorem Sound.foldl_pushNode {s : ReplayLoop × Bool} (h : s.1.Sound tables connected)
    (hpending : s.1.replayPending = true) (ns : List Text) :
    (ns.foldl (ReplayLoop.pushNode tables now wall ok) s).1.Sound tables connected := by
  induction ns generalizing s with
  | nil => exact h
  | cons m ns ih =>
    obtain ⟨hsound, hpending⟩ := h.pushNode hpending (m := m)
    exact ih hsound hpending

/-- **One iteration**: the bookkeeping is sound afterwards. -/
theorem sound_iteration
    (hpending : ∀ n ∈ l.knownConnectedNodes, n ∉ l.syncedNodes → l.replayPending = true)
    (hcurrent : changed = false →
      ∀ n ∈ l.knownConnectedNodes, n ∈ l.syncedNodes → l.UpToDate tables n) :
    (l.iteration changed tables connected now wall ok).Sound tables connected := by
  have hstock : (l.takeStock changed tables connected).Sound tables connected :=
    sound_takeStock hpending hcurrent
  unfold iteration
  dsimp only
  split_ifs with hcond
  · simp only [Bool.and_eq_true] at hcond
    have hfold : (connected.foldl (ReplayLoop.pushNode tables now wall ok)
        (l.takeStock changed tables connected, true)).1.Sound tables connected :=
      hstock.foldl_pushNode (s := (l.takeStock changed tables connected, true)) hcond.1.1 connected
    refine ⟨fun n hc hs => ?_, hfold.upToDate⟩
    -- the replay is not complete as long as a node is not synced
    have hall : connected.all (· ∈ (connected.foldl (ReplayLoop.pushNode tables now wall ok)
        (l.takeStock changed tables connected, true)).1.syncedNodes) = false := by
      refine List.all_eq_false.2 ⟨n, hc, ?_⟩
      simpa using hs
    dsimp only
    rw [hall, hfold.pending n hc hs, Bool.and_false]
    rfl
  · exact hstock

theorem knownConnectedNodes_pushNode {s : ReplayLoop × Bool} :
    (ReplayLoop.pushNode tables now wall ok s m).1.knownConnectedNodes =
      s.1.knownConnectedNodes := by
  unfold ReplayLoop.pushNode
  split_ifs <;> rfl

theorem mem_knownConnectedNodes_iteration :
    n ∈ (l.iteration changed tables connected now wall ok).knownConnectedNodes ↔ n ∈ connected := by
  have hfold : ∀ (ns : List Text) (s : ReplayLoop × Bool),
      (ns.foldl (ReplayLoop.pushNode tables now wall ok) s).1.knownConnectedNodes =
        s.1.knownConnectedNodes := by
    intro ns
    induction ns with
    | nil => exact fun _ => rfl
    | cons m ns ih => exact fun s => (ih _).trans knownConnectedNodes_pushNode
  unfold iteration
  dsimp only
  split_ifs
  · rw [hfold]
    exact mem_knownConnectedNodes_takeStock
  · exact mem_knownConnectedNodes_takeStock

end ReplayLoop

/-! ### The loop and the store -/

/-- The store and the variables of the loop. -/
structure Replay where
  service : SchedInfoService
  loop : ReplayLoop

namespace Replay

open SchedInfoService (addSchedInfo afterRemove)

variable {U : Type} [Floating U]

inductive Action where
  | addSchedInfo (clock clock' : ℕ → UInt64) (request : SchedInfo)
  /-- `RemoveWorkload` with `trigger_push`. -/
  | removeWorkload (clock : ℕ → UInt64) (workloadId : Text)
  /-- An iteration with the connected nodes, the clock readings and the results of the pushes. -/
  | iterate (connected : List Text) (now : ℕ) (wall : Text → UInt64) (ok : Text → Bool)

/-- The loop with a store that is changed by accepted requests and flagged removals only. -/
def machine (G : GlobalScheduler U) : Machine Replay Action where
  init w := w = ⟨.new, .new⟩
  next w
    | .addSchedInfo clock clock' request =>
      let (service, status) := addSchedInfo G clock clock' w.service request
      if status = 0 then some { w with service } else none
    | .removeWorkload clock workloadId =>
      some { w with service := afterRemove G clock w.service workloadId true }
    | .iterate connected now wall ok =>
      some {
        service := { w.service with scheduleChanged := false }
        loop := w.loop.iteration w.service.scheduleChanged w.service.scheduleTables
          (stdSet connected) now wall ok }

/-- What holds between iterations. -/
structure Inv (w : Replay) : Prop where
  pending : ∀ n ∈ w.loop.knownConnectedNodes, n ∉ w.loop.syncedNodes →
    w.loop.replayPending = true
  /-- Unless a change is flagged, the marks are about the current tables. -/
  current : w.service.scheduleChanged = false → ∀ n ∈ w.loop.knownConnectedNodes,
    n ∈ w.loop.syncedNodes → w.loop.UpToDate w.service.scheduleTables n

variable {G : GlobalScheduler U} {w w' : Replay}

theorem Inv.setService (h : Inv w) {service : SchedInfoService}
    (hservice : service.scheduleChanged = true ∨
      service.scheduleChanged = w.service.scheduleChanged ∧
        service.scheduleTables = w.service.scheduleTables) : Inv { w with service } where
  pending := h.pending
  current hflag := by
    rcases hservice with hchanged | ⟨hsame, htables⟩
    · exact absurd (hflag.symm.trans hchanged) Bool.false_ne_true
    · dsimp only
      rw [htables]
      exact h.current (hsame ▸ hflag)

theorem scheduleChanged_addSchedInfo {clock clock' : ℕ → UInt64} {s : SchedInfoService}
    {request : SchedInfo} (h : (addSchedInfo G clock clock' s request).2 = 0) :
    (addSchedInfo G clock clock' s request).1.scheduleChanged = true := by
  unfold addSchedInfo at h ⊢
  split at h
  · cases h
  · dsimp only at h ⊢
    split at h
    · rfl
    · split at h <;> cases h

theorem afterRemove_true (clock : ℕ → UInt64) (s : SchedInfoService) (workloadId : Text) :
    (afterRemove G clock s workloadId true).scheduleChanged = true ∨
      (afterRemove G clock s workloadId true).scheduleChanged = s.scheduleChanged ∧
        (afterRemove G clock s workloadId true).scheduleTables = s.scheduleTables := by
  unfold afterRemove SchedInfoService.removeWorkload
  cases SchedInfoService.resolve s.workloadTasks workloadId with
  | error e => exact Or.inr ⟨rfl, rfl⟩
  | ok found =>
    cases found with
    | none => exact Or.inr ⟨rfl, rfl⟩
    | some actualId =>
      cases hreg : SchedInfoService.regenerateAllSchedules G clock
          (s.workloadTasks.erase actualId) s.scheduleTables with
      | error e => simp [bind, Except.bind, pure, Except.pure, hreg]
      | ok tables => simp [bind, Except.bind, pure, Except.pure, hreg]

theorem Inv.next {a : Action} (h : Inv w) (hn : (machine G).next w a = some w') : Inv w' := by
  cases a with
  | addSchedInfo clock clock' request =>
    simp only [machine] at hn
    split_ifs at hn with hstatus
    cases hn
    exact h.setService (Or.inl (scheduleChanged_addSchedInfo hstatus))
  | removeWorkload clock workloadId =>
    cases hn
    exact h.setService (afterRemove_true clock w.service workloadId)
  | iterate connected now wall ok =>
    cases hn
    have hsound : (w.loop.iteration w.service.scheduleChanged w.service.scheduleTables
        (stdSet connected) now wall ok).Sound w.service.scheduleTables (stdSet connected) :=
      ReplayLoop.sound_iteration h.pending h.current
    exact ⟨fun n hk => hsound.pending n (ReplayLoop.mem_knownConnectedNodes_iteration.1 hk),
      fun _ n hk => hsound.upToDate n (ReplayLoop.mem_knownConnectedNodes_iteration.1 hk)⟩

theorem inv_of_reachable (h : (machine G).Reachable w) : Inv w := by
  refine h.invariant ?_ fun _ _ _ h _ hn => h.next hn
  rintro _ rfl
  exact ⟨fun n hn => by simp [ReplayLoop.new] at hn, fun _ n hn => by simp [ReplayLoop.new] at hn⟩

/-- **The bookkeeping is sound after every iteration**: a connected node that is not synced makes
the replay pending, and one that is synced was sent its table of the snapshot. -/
theorem sound_of_reachable (h : (machine G).Reachable w) {connected : List Text} {now : ℕ}
    {wall : Text → UInt64} {ok : Text → Bool}
    (hn : (machine G).next w (.iterate connected now wall ok) = some w') :
    ∀ n ∈ connected,
      (n ∉ w'.loop.syncedNodes → w'.loop.replayPending = true) ∧
      (n ∈ w'.loop.syncedNodes → ∃ table, w'.loop.lastPushedTables[n]? = some table ∧
        table.sansEpoch = (ReplayLoop.tableFor w.service.scheduleTables n).sansEpoch) := by
  have hinv := inv_of_reachable h
  cases hn
  intro n hc
  have hsound : (w.loop.iteration w.service.scheduleChanged w.service.scheduleTables
      (stdSet connected) now wall ok).Sound w.service.scheduleTables (stdSet connected) :=
    ReplayLoop.sound_iteration hinv.pending hinv.current
  exact ⟨hsound.pending n (mem_stdSet.2 hc), hsound.upToDate n (mem_stdSet.2 hc)⟩

/-- A push succeeds and another one fails. -/
theorem sound_one_of_two :
    ∃ w w', (machine SchedInfoService.singleCpu).Reachable w ∧
      (machine SchedInfoService.singleCpu).next w (.iterate [text "m", text "n"] 0 (fun _ => 0)
        (fun nodeId => nodeId = text "n")) = some w' ∧
      text "n" ∈ w'.loop.syncedNodes ∧ text "m" ∉ w'.loop.syncedNodes ∧
      ∀ n ∈ [text "m", text "n"],
        (n ∉ w'.loop.syncedNodes → w'.loop.replayPending = true) ∧
        (n ∈ w'.loop.syncedNodes → ∃ table, w'.loop.lastPushedTables[n]? = some table ∧
          table.sansEpoch = (ReplayLoop.tableFor w.service.scheduleTables n).sansEpoch) := by
  have heval : ((machine SchedInfoService.singleCpu).exec ⟨.new, .new⟩ [.addSchedInfo (fun _ => 0)
      (fun _ => 0) (SchedInfoService.periodicWorkload "a" [("t", 10, 3, 10)])]).any (fun w =>
        ((machine SchedInfoService.singleCpu).next w (.iterate [text "m", text "n"] 0 (fun _ => 0)
          (fun nodeId => nodeId = text "n"))).any fun w' =>
            decide (text "n" ∈ w'.loop.syncedNodes ∧ text "m" ∉ w'.loop.syncedNodes)) = true := by
    decide +kernel
  obtain ⟨w, hw, heval⟩ := (Option.any_eq_true _ _).1 heval
  obtain ⟨w', hw', heval⟩ := (Option.any_eq_true _ _).1 heval
  obtain ⟨hsynced, hfailed⟩ := of_decide_eq_true heval
  have hreach : (machine SchedInfoService.singleCpu).Reachable w :=
    Machine.reachable_of_exec rfl hw
  exact ⟨w, w', hreach, hw', hsynced, hfailed, sound_of_reachable hreach hw'⟩

end Replay

/-! ### The rounds of the orchestrator -/

namespace Orchestrator

variable {U : Type} [Floating U] {G : GlobalScheduler U}

/-- The pushes of a round, where nothing else happens meanwhile: they succeed for the nodes that are
connected. -/
theorem exec_pushNext (wall : Text → UInt64) {ok : Text → Bool} (todo : List Text)
    {o : Orchestrator} {r : Round} (hok : ∀ n, ok n = true ↔ n ∈ o.nodes)
    (hround : o.round = some r) (htodo : r.todo = todo) :
    ∃ o' r', (∀ rest, (machine G).exec o (todo.map (fun n => .pushNext (wall n)) ++ rest) =
        (machine G).exec o' rest) ∧
      o'.snapshot = o.snapshot ∧ o'.round = some r' ∧ r'.todo = [] ∧
      r'.connectedNodes = r.connectedNodes ∧
      (o'.loop, r'.allPushOk) =
        todo.foldl (ReplayLoop.pushNode r.schedTables r.now wall ok) (o.loop, r.allPushOk) := by
  induction todo generalizing o r with
  | nil => exact ⟨o, r, fun _ => rfl, rfl, hround, htodo, rfl, rfl⟩
  | cons m todo ih =>
    have hnext : (machine G).next o (.pushNext (wall m)) = some (o.pushNext r (wall m) m todo) := by
      simp only [machine, hround, htodo]
    simp only [List.map_cons, List.cons_append, Machine.exec, hnext, Option.bind_some,
      List.foldl_cons]
    rcases o.pushNext_cases r (wall m) m todo with
      ⟨hskip, heq⟩ | ⟨hskip, hnone, heq⟩ | ⟨old, table, hskip, hsome, rfl, heq⟩
    · rw [heq, ReplayLoop.pushNode, if_pos hskip]
      exact ih (r := { r with todo := todo }) hok rfl rfl
    · have hfail : ok m = false := by
        refine Bool.eq_false_iff.2 fun h => ?_
        have hmem := (hok m).1 h
        rw [Std.ExtTreeMap.mem_iff_isSome_getElem?, hnone] at hmem
        cases hmem
      rw [heq, ReplayLoop.pushNode, if_neg (by simp [hskip]), hfail]
      exact ih (r := { r with todo := todo, allPushOk := false }) hok rfl rfl
    · have hmem : m ∈ o.nodes := by
        rw [Std.ExtTreeMap.mem_iff_isSome_getElem?, hsome]
        rfl
      rw [heq, ReplayLoop.pushNode, if_neg (by simp [hskip]), if_pos ((hok m).2 hmem)]
      refine ih (r := { r with todo := todo }) (fun n => (hok n).trans ?_) rfl rfl
      rw [Std.ExtTreeMap.mem_insert, Std.LawfulEqOrd.compare_eq_iff_eq]
      exact (or_iff_right_of_imp fun h => h ▸ hmem).symm

/-- **A round of the orchestrator is an iteration**, where nothing else happens meanwhile. -/
theorem loop_round {o : Orchestrator} (hsnap : o.snapshot = none) (hround : o.round = none) (now : ℕ)
    (wall : Text → UInt64) :
    ∃ actions o', (machine G).exec o (.getScheduleTables :: .beginRound now :: actions) = some o' ∧
      o'.snapshot = none ∧ o'.round = none ∧
      o'.loop = o.loop.iteration o.service.scheduleChanged o.service.scheduleTables o.nodes.keys now
        wall (fun n => n ∈ o.nodes) := by
  have htake : (machine G).next o .getScheduleTables = some o.getScheduleTables := by
    simp only [machine, hsnap, hround, Option.isNone_none, Bool.and_self, if_true]
  let begun := o.getScheduleTables.beginRound
    ⟨o.service.scheduleTables, o.service.scheduleChanged⟩ now
  have hbegin : (machine G).next o.getScheduleTables (.beginRound now) = some begun := rfl
  simp only [Machine.exec, htake, hbegin, Option.bind_some]
  by_cases hcond : ((o.loop.takeStock o.service.scheduleChanged o.service.scheduleTables
      o.nodes.keys).replayPending && !o.service.scheduleTables.isEmpty &&
      !o.nodes.keys.isEmpty) = true
  · have hstart : begun.round = some ⟨o.service.scheduleTables, o.nodes.keys, now,
        o.nodes.keys, true⟩ := if_pos hcond
    obtain ⟨o₁, r₁, hexec, hsnap₁, hround₁, htodo₁, hconnected₁, hloop₁⟩ :=
      exec_pushNext (G := G) wall o.nodes.keys (fun n => decide_eq_true_iff) hstart rfl
    refine ⟨o.nodes.keys.map (fun n => .pushNext (wall n)) ++ [.endRound], o₁.endRound r₁, ?_,
      hsnap₁, rfl, ?_⟩
    · rw [hexec]
      simp only [Machine.exec, machine, hround₁, htodo₁, List.isEmpty_nil, if_true,
        Option.bind_some]
    · rw [ReplayLoop.iteration, if_pos hcond, endRound, hconnected₁]
      exact congrArg (fun s : ReplayLoop × Bool => { s.1 with
        replayPending := s.1.replayPending &&
          !(s.2 && o.nodes.keys.all (· ∈ s.1.syncedNodes)) }) hloop₁
  · refine ⟨[], begun, rfl, rfl, if_neg hcond, ?_⟩
    rw [ReplayLoop.iteration, if_neg hcond]
    rfl

end Orchestrator

end Timpani
