import Timpani.Orchestrator.ReplayLoop
import Timpani.Scheduler.Replay

/-!
# The epochs of the nodes

All nodes should count their hyperperiods from one epoch.  The orchestrator stamps a table with the
wall clock while it builds it, one node after the other, and anew in every regeneration; the replay
loop then pushes tables only to the nodes whose table changed apart from the epoch.

* `Clocked` : the orchestrator together with a wall clock whose readings strictly increase;
* `epochNs_ne` : two nodes never hold tables with TT slots and the same epoch;
* `sharedEpoch_iff` : so they share an epoch only as long as at most one of them holds TT slots,
  which is the case when such tables are pushed to one node at a time;
* `not_sharedEpoch_two_nodes` : one workload with tasks on two nodes.
-/

namespace Timpani

namespace Orchestrator

open SchedInfoService

variable {U : Type} [Floating U]

/-! ### Clock readings -/

/-- The readings of a regeneration that succeeds: one for each node in turn.  (One that fails throws
its tables away.) -/
def regenerationReadings (G : GlobalScheduler U) (clock : ℕ → UInt64) (workloads : WorkloadMap)
    (tables : ScheduleTableMap) : Option (List UInt64) :=
  match regenerateAllSchedules G clock workloads tables with
  | .ok _ => some ((List.range (allNodes workloads tables).length).map clock)
  | .error _ => none

/-- The readings an action stamps on tables of the store. -/
def readings (G : GlobalScheduler U) (o : Orchestrator) : Action → List UInt64
  | .addSchedInfo clock clock' request =>
    match requestedEntry G request with
    | none => []
    | some entry =>
      let workloads := o.service.workloadTasks.insert request.workloadId entry
      match regenerationReadings G clock workloads o.service.scheduleTables with
      | some rs => rs
      | none => (regenerationReadings G clock' (workloads.erase request.workloadId)
          o.service.scheduleTables).getD []
  | .enforceRecoveryPolicy clock workloadId policy =>
    match resolve o.service.workloadTasks workloadId with
    | .ok (some actualId) =>
      if policy = .stop then
        (regenerationReadings G clock (o.service.workloadTasks.erase actualId)
          o.service.scheduleTables).getD []
      else []
    | _ => []
  | _ => []

/-- The orchestrator and the latest reading of the wall clock. -/
structure Clocked where
  system : Orchestrator
  latest : UInt64

/-- The orchestrator with strictly increasing clock readings. -/
def clocked (G : GlobalScheduler U) : Machine Clocked Action where
  init c := c.system = new
  next c a :=
    if (c.latest :: readings G c.system a).Pairwise (· < ·) then
      ((machine G).next c.system a).map fun o => ⟨o, (readings G c.system a).getLastD c.latest⟩
    else none

/-! ### The property and the condition -/

/-- The last table that was pushed to a connected node. -/
def Holds (o : Orchestrator) (n : Text) (table : HierarchicalScheduleTable) : Prop :=
  o.nodes[n]?.bind lastTable = some table

/-- A connected node whose last pushed table has TT slots. -/
def HoldsTt (o : Orchestrator) (n : Text) (table : HierarchicalScheduleTable) : Prop :=
  o.Holds n table ∧ table.slots ≠ []

/-- Nothing is flagged and nothing is pending. -/
def Quiet (o : Orchestrator) : Prop :=
  o.service.scheduleChanged = false ∧ o.loop.replayPending = false

/-- If nothing is flagged or pending, any two nodes that hold TT slots have the same epoch. -/
def SharedEpoch (o : Orchestrator) : Prop :=
  o.Quiet → ∀ n m table table', o.HoldsTt n table → o.HoldsTt m table' →
    table.epochNs = table'.epochNs

/-- At most one node holds TT slots. -/
def OneTtNode (o : Orchestrator) : Prop :=
  ∀ n m table table', o.HoldsTt n table → o.HoldsTt m table' → n = m

/-- A table with TT slots is pushed only while no other connected node holds one. -/
def OneAtATime (c : Clocked) : Action → Prop
  | .pushNext _ => ∀ r n rest table, c.system.round = some r → r.todo = n :: rest →
      c.system.loop.skips r.now n = false → r.schedTables[n]? = some table → table.slots ≠ [] →
      ∀ m table', c.system.HoldsTt m table' → m = n
  | _ => True

/-! ### The tables that are around -/

/-- The tables the loop is working with. -/
def Working (o : Orchestrator) (tables : ScheduleTableMap) : Prop :=
  (∃ s, o.snapshot = some s ∧ s.schedTables = tables) ∨
    ∃ r, o.round = some r ∧ r.schedTables = tables

/-- A table of a node that may be pushed, or a table with TT slots that it holds. -/
inductive Carries (o : Orchestrator) (n : Text) (table : HierarchicalScheduleTable) : Prop
  | stored (h : o.service.scheduleTables[n]? = some table)
  | snapshot (tables : ScheduleTableMap) (ht : o.Working tables) (h : tables[n]? = some table)
  | held (h : o.HoldsTt n table)

/-- Epochs are readings of the past, and tables of different nodes have different ones. -/
structure Stamped (c : Clocked) : Prop where
  le_latest : ∀ n table, c.system.Carries n table → table.epochNs ≤ c.latest
  apart : ∀ n m table table', c.system.Carries n table → c.system.Carries m table' → n ≠ m →
    table.epochNs ≠ table'.epochNs

theorem le_getLastD {rs : List UInt64} {latest : UInt64} (h : (latest :: rs).Pairwise (· < ·)) :
    latest ≤ rs.getLastD latest ∧ ∀ r ∈ rs, r ≤ rs.getLastD latest := by
  induction rs generalizing latest with
  | nil => simp
  | cons r rs ih =>
    have hlt : latest < r := (List.pairwise_cons.1 h).1 r List.mem_cons_self
    obtain ⟨hle, hall⟩ := ih (List.pairwise_cons.1 h).2
    rw [List.getLastD_cons]
    refine ⟨UInt64.le_trans (UInt64.le_of_lt hlt) hle, fun x hx => ?_⟩
    rcases List.mem_cons.1 hx with rfl | hx
    · exact hle
    · exact hall x hx

/-- Every table around in the second state is an old one, or was stamped in the turn of its node. -/
def Stamps (o o' : Orchestrator) (rs : List UInt64) : Prop :=
  ∃ order : List Text, ∀ n table, o'.Carries n table → o.Carries n table ∨
    ∃ i : ℕ, order[i]? = some n ∧ rs[i]? = some table.epochNs

theorem Stamped.step {c : Clocked} {o : Orchestrator} {rs : List UInt64} (h : Stamped c)
    (hrs : (c.latest :: rs).Pairwise (· < ·)) (hnew : Stamps c.system o rs) :
    Stamped ⟨o, rs.getLastD c.latest⟩ := by
  obtain ⟨order, hnew⟩ := hnew
  obtain ⟨hlatest, hpast⟩ := le_getLastD hrs
  obtain ⟨hlater, hrs⟩ := List.pairwise_cons.1 hrs
  have hold : ∀ {n table} {i : ℕ} {t : UInt64}, c.system.Carries n table → rs[i]? = some t →
      table.epochNs ≠ t := by
    intro n table i t hc ht
    exact UInt64.ne_of_lt (UInt64.lt_of_le_of_lt (h.le_latest n table hc)
      (hlater t (List.mem_of_getElem? ht)))
  refine ⟨fun n table hc => ?_, fun n m table table' hc hc' hne => ?_⟩
  · rcases hnew n table hc with hc | ⟨i, -, hi⟩
    · exact UInt64.le_trans (h.le_latest n table hc) hlatest
    · exact hpast _ (List.mem_of_getElem? hi)
  · rcases hnew n table hc with hc | ⟨i, hn, hi⟩ <;> rcases hnew m table' hc' with hc' | ⟨j, hm, hj⟩
    · exact h.apart n m table table' hc hc' hne
    · exact hold hc hj
    · exact (hold hc' hi).symm
    · -- two tables of one regeneration have different positions
      obtain ⟨hi', hi⟩ := List.getElem?_eq_some_iff.1 hi
      obtain ⟨hj', hj⟩ := List.getElem?_eq_some_iff.1 hj
      rcases Nat.lt_trichotomy i j with hij | rfl | hij
      · exact hi ▸ hj ▸ UInt64.ne_of_lt (List.pairwise_iff_getElem.1 hrs i j hi' hj' hij)
      · exact absurd (Option.some.inj (hn.symm.trans hm)) hne
      · exact hi ▸ hj ▸ (UInt64.ne_of_lt (List.pairwise_iff_getElem.1 hrs j i hj' hi' hij)).symm

/-! ### What the calls store -/

variable {G : GlobalScheduler U} {o o' : Orchestrator}

/-- A call leaves the stored tables alone, or stores those of a regeneration with the readings. -/
def Restocks (G : GlobalScheduler U) (s s' : SchedInfoService) (rs : List UInt64) : Prop :=
  s'.scheduleTables = s.scheduleTables ∨ ∃ clock workloads,
    regenerateAllSchedules G clock workloads s.scheduleTables = .ok s'.scheduleTables ∧
      rs = (List.range (allNodes workloads s.scheduleTables).length).map clock

theorem Restocks.stamped {s s' : SchedInfoService} {rs : List UInt64} (h : Restocks G s s' rs) :
    ∃ order : List Text, ∀ n table, s'.scheduleTables[n]? = some table →
      s.scheduleTables[n]? = some table ∨
        ∃ i : ℕ, order[i]? = some n ∧ rs[i]? = some table.epochNs := by
  rcases h with heq | ⟨clock, workloads, hreg, rfl⟩
  · exact ⟨[], fun n table hn => Or.inl (heq ▸ hn)⟩
  · refine ⟨allNodes workloads s.scheduleTables, fun n table hn => Or.inr ?_⟩
    obtain ⟨i, hi, hgen⟩ := (regenerateAllSchedules_generated hreg).2 n table hn
    refine ⟨i, hi, ?_⟩
    obtain ⟨hlt, -⟩ := List.getElem?_eq_some_iff.1 hi
    rw [GlobalScheduler.epochNs_generateSchedule hgen, List.getElem?_map,
      List.getElem?_range hlt, Option.map_some]

theorem restocks_addSchedInfo (clock clock' : ℕ → UInt64) (request : SchedInfo) :
    Restocks G o.service (addSchedInfo G clock clock' o.service request).1
      (readings G o (.addSchedInfo clock clock' request)) := by
  unfold readings addSchedInfo
  cases hentry : requestedEntry G request with
  | none => exact Or.inl rfl
  | some entry =>
    dsimp only
    rw [hentry]
    dsimp only [regenerationReadings]
    cases hreg : regenerateAllSchedules G clock
      (o.service.workloadTasks.insert request.workloadId entry) o.service.scheduleTables with
    | ok tables => exact Or.inr ⟨clock, _, hreg, rfl⟩
    | error e =>
      cases hroll : regenerateAllSchedules G clock'
        ((o.service.workloadTasks.insert request.workloadId entry).erase request.workloadId)
        o.service.scheduleTables with
      | ok tables => exact Or.inr ⟨clock', _, hroll, rfl⟩
      | error e => exact Or.inl rfl

theorem restocks_beginRecovery {clock : ℕ → UInt64} {workloadId : Text}
    {policy : RecoveryPolicy} {service : SchedInfoService} {stop : Option Text}
    (h : beginRecovery G clock o.service workloadId policy = .ok (service, stop)) :
    Restocks G o.service service (readings G o (.enforceRecoveryPolicy clock workloadId policy)) := by
  rcases beginRecovery_cases h with ⟨-, rfl, -⟩ | ⟨r, hpolicy, hr, rfl, -⟩
  · exact Or.inl rfl
  · obtain ⟨found, hfound, hr⟩ := bind_eq_ok.1 hr
    simp only [readings, hfound, if_pos hpolicy]
    cases found with
    | none => cases hr; exact Or.inl rfl
    | some actualId =>
      dsimp only [regenerationReadings] at hr ⊢
      cases hreg : regenerateAllSchedules G clock (o.service.workloadTasks.erase actualId)
        o.service.scheduleTables with
      | ok tables =>
        rw [hreg] at hr
        cases hr
        exact Or.inr ⟨clock, _, hreg, rfl⟩
      | error e =>
        rw [hreg] at hr
        cases hr
        exact Or.inl rfl

/-! ### Every action -/

/-- What a node holds after a push: the table of the snapshot, an empty one, or what it held. -/
theorem holdsTt_pushNext {r : Round} {wall : UInt64} {m : Text} {rest : List Text} {n : Text}
    {table : HierarchicalScheduleTable} (h : (o.pushNext r wall m rest).HoldsTt n table) :
    o.HoldsTt n table ∨
      n = m ∧ o.loop.skips r.now m = false ∧ r.schedTables[m]? = some table := by
  obtain ⟨h, hslots⟩ := h
  rcases o.pushNext_cases r wall m rest with
    ⟨-, heq⟩ | ⟨-, -, heq⟩ | ⟨old, pushed, hskip, hm, hpushed, heq⟩ <;> rw [heq] at h
  · exact Or.inl ⟨h, hslots⟩
  · exact Or.inl ⟨h, hslots⟩
  · simp only [Holds, Std.ExtTreeMap.getElem?_insert] at h
    split_ifs at h with hn
    · rw [Option.bind_some, lastTable_append_fullTable, hpushed] at h
      refine Or.inr ⟨ReplayLoop.compare_eq_iff.1 hn, hskip, ?_⟩
      cases hsnap : r.schedTables[m]? with
      | some t =>
        rw [hsnap] at h
        exact h
      | none =>
        rw [hsnap] at h
        cases h
        exact absurd rfl hslots
    · exact Or.inl ⟨h, hslots⟩

theorem service_pushNext (r : Round) (wall : UInt64) (m : Text) (rest : List Text) :
    (o.pushNext r wall m rest).service = o.service := by
  rcases o.pushNext_cases r wall m rest with ⟨-, heq⟩ | ⟨-, -, heq⟩ | ⟨_, _, -, -, -, heq⟩ <;>
    rw [heq]

theorem working_pushNext {r : Round} {wall : UInt64} {m : Text} {rest : List Text}
    {tables : ScheduleTableMap} (hr : o.round = some r)
    (h : (o.pushNext r wall m rest).Working tables) : o.Working tables := by
  rcases o.pushNext_cases r wall m rest with ⟨-, heq⟩ | ⟨-, -, heq⟩ | ⟨_, _, -, -, -, heq⟩ <;>
    rw [heq] at h <;> obtain h | ⟨_, ⟨⟩, h⟩ := h
  all_goals first
    | exact Or.inl h
    | exact Or.inr ⟨r, hr, h⟩

theorem restocks_next {a : Action} (hn : (machine G).next o a = some o') :
    Restocks G o.service o'.service (readings G o a) := by
  cases a with
  | addSchedInfo clock clock' request =>
    cases hn
    exact restocks_addSchedInfo clock clock' request
  | enforceRecoveryPolicy clock workloadId policy =>
    obtain rfl | ⟨service, stop, hcall, rfl⟩ := next_enforceRecoveryPolicy hn
    · exact Or.inl rfl
    · exact restocks_beginRecovery hcall
  | broadcastRecoverySignal i =>
    obtain ⟨id, -, rfl⟩ := next_broadcastRecoverySignal hn
    exact Or.inl rfl
  | connect m => cases hn; exact Or.inl rfl
  | disconnect m => cases hn; exact Or.inl rfl
  | getScheduleTables =>
    obtain ⟨-, -, rfl⟩ := next_getScheduleTables hn
    exact Or.inl rfl
  | beginRound now =>
    obtain ⟨s, -, rfl⟩ := next_beginRound hn
    exact Or.inl rfl
  | pushNext wall =>
    obtain ⟨r, m, rest, -, -, rfl⟩ := next_pushNext hn
    exact Or.inl (by rw [service_pushNext])
  | endRound =>
    obtain ⟨r, -, -, rfl⟩ := next_endRound hn
    exact Or.inl rfl

/-- The tables the loop works with are those it worked with before, or taken from the store. -/
theorem working_next {a : Action} {tables : ScheduleTableMap}
    (hn : (machine G).next o a = some o') (h : o'.Working tables) :
    o.Working tables ∨ o.service.scheduleTables = tables := by
  cases a with
  | addSchedInfo clock clock' request => cases hn; exact Or.inl h
  | enforceRecoveryPolicy clock workloadId policy =>
    obtain rfl | ⟨service, stop, -, rfl⟩ := next_enforceRecoveryPolicy hn <;> exact Or.inl h
  | broadcastRecoverySignal i =>
    obtain ⟨id, -, rfl⟩ := next_broadcastRecoverySignal hn
    exact Or.inl h
  | connect m => cases hn; exact Or.inl h
  | disconnect m => cases hn; exact Or.inl h
  | getScheduleTables =>
    obtain ⟨-, hround, rfl⟩ := next_getScheduleTables hn
    rcases h with ⟨s, ⟨⟩, rfl⟩ | ⟨r, hr, -⟩
    · exact Or.inr rfl
    · cases hround.symm.trans hr
  | beginRound now =>
    obtain ⟨s, hs, rfl⟩ := next_beginRound hn
    rcases h with ⟨_, ⟨⟩, -⟩ | ⟨r, hr, rfl⟩
    unfold Orchestrator.beginRound at hr
    dsimp only at hr
    split_ifs at hr
    cases hr
    exact Or.inl (Or.inl ⟨s, hs, rfl⟩)
  | pushNext wall =>
    obtain ⟨r, m, rest, hr, -, rfl⟩ := next_pushNext hn
    exact Or.inl (working_pushNext hr h)
  | endRound =>
    obtain ⟨r, -, -, rfl⟩ := next_endRound hn
    rcases h with h | ⟨_, ⟨⟩, -⟩
    exact Or.inl (Or.inl h)

theorem holdsTt_next {a : Action} {n : Text} {table : HierarchicalScheduleTable}
    (hn : (machine G).next o a = some o') (h : o'.HoldsTt n table) :
    o.HoldsTt n table ∨ ∃ wall r rest, a = .pushNext wall ∧ o.round = some r ∧
      r.todo = n :: rest ∧ o.loop.skips r.now n = false ∧ r.schedTables[n]? = some table := by
  cases a with
  | addSchedInfo clock clock' request => cases hn; exact Or.inl h
  | enforceRecoveryPolicy clock workloadId policy =>
    obtain rfl | ⟨service, stop, -, rfl⟩ := next_enforceRecoveryPolicy hn <;> exact Or.inl h
  | broadcastRecoverySignal i =>
    obtain ⟨id, -, rfl⟩ := next_broadcastRecoverySignal hn
    obtain ⟨h, hslots⟩ := h
    obtain ⟨stream, hstream, hlast⟩ := Option.bind_eq_some_iff.1 h
    obtain ⟨old, hold, rfl⟩ := getElem?_broadcast hstream
    rw [lastTable_append_recovery] at hlast
    exact Or.inl ⟨Option.bind_eq_some_iff.2 ⟨old, hold, hlast⟩, hslots⟩
  | connect m =>
    cases hn
    obtain ⟨h, hslots⟩ := h
    simp only [Holds, Std.ExtTreeMap.getElem?_insert] at h
    split_ifs at h
    · cases h
    · exact Or.inl ⟨h, hslots⟩
  | disconnect m =>
    cases hn
    obtain ⟨h, hslots⟩ := h
    simp only [Holds, Std.ExtTreeMap.getElem?_erase] at h
    split_ifs at h
    · cases h
    · exact Or.inl ⟨h, hslots⟩
  | getScheduleTables =>
    obtain ⟨-, -, rfl⟩ := next_getScheduleTables hn
    exact Or.inl h
  | beginRound now =>
    obtain ⟨s, -, rfl⟩ := next_beginRound hn
    exact Or.inl h
  | pushNext wall =>
    obtain ⟨r, m, rest, hr, htodo, rfl⟩ := next_pushNext hn
    refine (holdsTt_pushNext h).imp_right ?_
    rintro ⟨rfl, hskip, hsnap⟩
    exact ⟨wall, r, rest, rfl, hr, htodo, hskip, hsnap⟩
  | endRound =>
    obtain ⟨r, -, -, rfl⟩ := next_endRound hn
    exact Or.inl h

theorem stamps_next {a : Action} (hn : (machine G).next o a = some o') :
    Stamps o o' (readings G o a) := by
  obtain ⟨order, horder⟩ := (restocks_next hn).stamped
  refine ⟨order, fun n table hc => ?_⟩
  rcases hc with h | ⟨tables, ht, h⟩ | h
  · exact (horder n table h).imp_left .stored
  · rcases working_next hn ht with ht | rfl
    · exact Or.inl (.snapshot tables ht h)
    · exact Or.inl (.stored h)
  · rcases holdsTt_next hn h with h | ⟨wall, r, rest, -, hr, -, -, h⟩
    · exact Or.inl (.held h)
    · exact Or.inl (.snapshot r.schedTables (Or.inr ⟨r, hr, rfl⟩) h)

variable {c : Clocked}

theorem Stamped.next {c' : Clocked} {a : Action} (h : Stamped c)
    (hn : (clocked G).next c a = some c') : Stamped c' := by
  obtain ⟨hrs, hn⟩ := Option.ite_none_right_eq_some.1 hn
  obtain ⟨o, hnext, rfl⟩ := Option.map_eq_some_iff.1 hn
  exact h.step hrs (stamps_next hnext)

theorem stamped_of_reachable (h : (clocked G).Reachable c) : Stamped c := by
  refine h.invariant ?_ fun c a c' hinv _ hn => hinv.next hn
  rintro ⟨_, latest⟩ rfl
  have hnone : ∀ n table, ¬ new.Carries n table := by
    rintro n table (h | ⟨_, ⟨_, ⟨⟩, -⟩ | ⟨_, ⟨⟩, -⟩, -⟩ | h)
    · simp [new, SchedInfoService.new] at h
    · simp [HoldsTt, Holds, new] at h
  exact ⟨fun n table h => absurd h (hnone n table), fun n m table table' h => absurd h (hnone n table)⟩

/-- **Two nodes never hold tables with TT slots and the same epoch.** -/
theorem epochNs_ne (h : (clocked G).Reachable c) {n m : Text}
    {table table' : HierarchicalScheduleTable} (hn : c.system.HoldsTt n table)
    (hm : c.system.HoldsTt m table') (hne : n ≠ m) : table.epochNs ≠ table'.epochNs :=
  (stamped_of_reachable h).apart n m table table' (.held hn) (.held hm) hne

/-! ### When the epoch is shared -/

/-- One node at a time: the only new holder is the node a table with TT slots is pushed to. -/
theorem OneTtNode.next {c' : Clocked} {a : Action} (h : c.system.OneTtNode) (hok : OneAtATime c a)
    (hstep : (clocked G).next c a = some c') : c'.system.OneTtNode := by
  obtain ⟨-, hstep⟩ := Option.ite_none_right_eq_some.1 hstep
  obtain ⟨o, hnext, rfl⟩ := Option.map_eq_some_iff.1 hstep
  -- a node that is pushed a table with TT slots is the only holder
  have hpushed : ∀ {n m table table'}, o.HoldsTt n table → ¬ c.system.HoldsTt n table →
      o.HoldsTt m table' → n = m := by
    intro n m table table' hn hnot hm
    obtain ⟨wall, r, rest, rfl, hr, htodo, hskip, hsnap⟩ :=
      (holdsTt_next hnext hn).resolve_left hnot
    rcases holdsTt_next hnext hm with hm | ⟨wall', r', rest', -, hr', htodo', -, -⟩
    · exact (hok r n rest table hr htodo hskip hsnap hn.2 m table' hm).symm
    · obtain rfl := Option.some.inj (hr.symm.trans hr')
      exact (List.cons.inj (htodo.symm.trans htodo')).1
  intro n m table table' hn hm
  by_cases hn' : c.system.HoldsTt n table
  · by_cases hm' : c.system.HoldsTt m table'
    · exact h n m table table' hn' hm'
    · exact (hpushed hm hm' hn).symm
  · exact hpushed hn hn' hm

/-- **When the epoch is shared.** -/
theorem sharedEpoch_iff (G : GlobalScheduler U) (c : Clocked) (h : (clocked G).Reachable c) :
    (c.system.SharedEpoch ↔ (c.system.Quiet → c.system.OneTtNode)) ∧
      ((clocked G).ReachableIf OneAtATime c → c.system.OneTtNode) := by
  refine ⟨⟨?_, ?_⟩, fun h => ?_⟩
  · intro hshared hquiet n m table table' hn hm
    by_contra hne
    exact epochNs_ne h hn hm hne (hshared hquiet n m table table' hn hm)
  · intro hone hquiet n m table table' hn hm
    obtain rfl := hone hquiet n m table table' hn hm
    rw [Option.some.inj (hn.1.symm.trans hm.1)]
  · refine h.invariant (I := fun c => c.system.OneTtNode) ?_
      fun c a c' hinv hok hn => OneTtNode.next hinv hok hn
    rintro ⟨_, latest⟩ rfl n m table table' hn
    simp [HoldsTt, Holds, new] at hn

/-- A periodic workload with one task on each of the nodes. -/
def onNodes (nodes : List String) : SchedInfo where
  workloadId := text "w"
  tasks := nodes.map fun n =>
    { name := text "t", period := 10, runtime := 1, deadline := 10, maxDmiss := 0,
      nodeId := text n }
  temporalClass := .periodic

/-- Two nodes are connected and get their tables; the clock reads 1, 2, … -/
def twoNodes (request : SchedInfo) : List Action :=
  [.connect (text "m"), .connect (text "n"),
    .addSchedInfo (fun i => .ofNat (i + 1)) (fun i => .ofNat (i + 1)) request,
    .getScheduleTables, .beginRound 0, .pushNext 5, .pushNext 6, .endRound]

/-- The first replay of a workload with tasks on two nodes: the regeneration reads the clock once
for each of them, both tables are pushed in one round, and their epochs differ. -/
theorem not_sharedEpoch_two_nodes :
    ∃ c, (clocked GlobalScheduler.unconfigured).Reachable c ∧ c.system.Quiet ∧
      (∃ table, c.system.HoldsTt (text "m") table ∧ table.epochNs = 1) ∧
      (∃ table, c.system.HoldsTt (text "n") table ∧ table.epochNs = 2) ∧
      ¬ c.system.SharedEpoch := by
  have heval : ((clocked GlobalScheduler.unconfigured).exec ⟨new, 0⟩
      (twoNodes (onNodes ["n", "m"]))).any (fun c => decide (
        (c.system.service.scheduleChanged = false ∧ c.system.loop.replayPending = false) ∧
        (c.system.nodes[text "m"]?.bind lastTable).map (fun t => (t.slots.length, t.epochNs)) =
          some (2, 1) ∧
        (c.system.nodes[text "n"]?.bind lastTable).map (fun t => (t.slots.length, t.epochNs)) =
          some (2, 2))) = true := by decide +kernel
  obtain ⟨c, hc, hall⟩ := (Option.any_eq_true _ _).1 heval
  obtain ⟨hquiet, hm, hn⟩ := of_decide_eq_true hall
  have hholds : ∀ {n epoch}, (c.system.nodes[n]?.bind lastTable).map
      (fun t => (t.slots.length, t.epochNs)) = some (2, epoch) →
      ∃ table, c.system.HoldsTt n table ∧ table.epochNs = epoch := by
    intro n epoch h
    obtain ⟨table, htable, h⟩ := Option.map_eq_some_iff.1 h
    obtain ⟨hlen, hepoch⟩ := Prod.mk.inj h
    refine ⟨table, ⟨htable, fun hnil => ?_⟩, hepoch⟩
    rw [hnil] at hlen
    cases hlen
  obtain ⟨table, hm, hm1⟩ := hholds hm
  obtain ⟨table', hn, hn2⟩ := hholds hn
  have hinit : (clocked GlobalScheduler.unconfigured).init ⟨new, 0⟩ := rfl
  refine ⟨c, Machine.reachable_of_exec hinit hc, hquiet, ⟨table, hm, hm1⟩, ⟨table', hn, hn2⟩, ?_⟩
  intro hshared
  have := hshared hquiet _ _ table table' hm hn
  rw [hm1, hn2] at this
  exact absurd this (by decide)

/-- The same with a workload for one of the two nodes. -/
theorem sharedEpoch_iff_one_node :
    ∃ c, (clocked GlobalScheduler.unconfigured).Reachable c ∧ c.system.Quiet ∧
      (∃ table, c.system.HoldsTt (text "n") table) ∧
      ((c.system.SharedEpoch ↔ (c.system.Quiet → c.system.OneTtNode)) ∧
        ((clocked GlobalScheduler.unconfigured).ReachableIf OneAtATime c →
          c.system.OneTtNode)) := by
  have heval : ((clocked GlobalScheduler.unconfigured).exec ⟨new, 0⟩
      (twoNodes (onNodes ["n"]))).any (fun c => decide (
        (c.system.service.scheduleChanged = false ∧ c.system.loop.replayPending = false) ∧
        (c.system.nodes[text "n"]?.bind lastTable).map (·.slots.length) = some 1)) = true := by
    decide +kernel
  obtain ⟨c, hc, hall⟩ := (Option.any_eq_true _ _).1 heval
  obtain ⟨hquiet, hn⟩ := of_decide_eq_true hall
  obtain ⟨table, htable, hlen⟩ := Option.map_eq_some_iff.1 hn
  have hinit : (clocked GlobalScheduler.unconfigured).init ⟨new, 0⟩ := rfl
  have hreach := Machine.reachable_of_exec hinit hc
  refine ⟨c, hreach, hquiet, ⟨table, htable, fun hnil => ?_⟩, sharedEpoch_iff _ c hreach⟩
  rw [hnil] at hlen
  cases hlen

end Orchestrator

end Timpani
