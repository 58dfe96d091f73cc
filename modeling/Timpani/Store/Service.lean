import Timpani.Cpp.Parse
import Timpani.Scheduler.Generate
import Mathlib

/-!
# The workload store

`SchedInfoServiceImpl` of Timpani-O keeps the classified tasks of every accepted workload and one
schedule table per node.  `AddSchedInfo` stores or replaces a workload, `RemoveWorkload` erases one;
both then regenerate the tables of all nodes, which may fail.

Requests are the gRPC messages of `schedinfo.proto`, without the fields that are only logged.  Each
generated table reads the wall clock once; the readings of one regeneration are a function of the
position of the node in it.

* `regenerateAllSchedules_eq_ok` : what a successful regeneration produces;
* `requestedEntry_eq_some` : what is stored for a request;
* `addSchedInfo_cases`, `removeWorkload_cases` : everything a call can do.
-/

namespace Timpani

/-! ### Requests -/

/-- The temporal class of a workload; protobuf enums are open, so a request may carry any number. -/
inductive TemporalClass where
  | periodic
  | sporadic
  | other (value : Int32)
  deriving DecidableEq, Repr

/-- The fields of `TaskInfo` that scheduling uses. -/
structure TaskInfo where
  name : Text
  period : Int32
  runtime : Int32
  deadline : Int32
  maxDmiss : Int32
  nodeId : Text
  deriving DecidableEq, Repr

/-- The workload of an `AddSchedInfo` request. -/
structure SchedInfo where
  workloadId : Text
  tasks : List TaskInfo
  temporalClass : TemporalClass
  deriving DecidableEq, Repr

/-! ### State -/

/-- What is stored for a workload. -/
structure WorkloadEntry where
  targetNodes : Std.ExtTreeSet Text
  tasks : List ClassifiedTask

/-- `workload_tasks_` -/
abbrev WorkloadMap := Std.ExtTreeMap Text WorkloadEntry

/-- `schedule_tables_` -/
abbrev ScheduleTableMap := Std.ExtTreeMap Text HierarchicalScheduleTable

/-- The state of `SchedInfoServiceImpl`. -/
structure SchedInfoService where
  workloadTasks : WorkloadMap
  scheduleTables : ScheduleTableMap
  scheduleChanged : Bool

namespace SchedInfoService

/-- The state after construction. -/
def new : SchedInfoService := ⟨∅, ∅, false⟩

/-! ### Regeneration -/

/-- All tasks destined for a node, by workload id. -/
def tasksFor (workloads : WorkloadMap) (nodeId : Text) : List ClassifiedTask :=
  workloads.toList.flatMap fun (_, entry) => if nodeId ∈ entry.targetNodes then entry.tasks else []

/-- The target nodes of all workloads, and the nodes that already have a table. -/
def allNodes (workloads : WorkloadMap) (tables : ScheduleTableMap) : List Text :=
  stdSet (workloads.toList.flatMap (fun (_, entry) => entry.targetNodes.toList) ++ tables.keys)

variable {U : Type} [Floating U]

/-- The new table of one node. -/
def regenerateNode (G : GlobalScheduler U) (workloads : WorkloadMap) (now : UInt64) (nodeId : Text) :
    Except Text (Text × HierarchicalScheduleTable) :=
  match G.generateSchedule now nodeId (tasksFor workloads nodeId) with
  | .ok table => .ok (nodeId, table)
  | .error err => .error (text "node '" ++ nodeId ++ text "': " ++ err.details)

/-- `RegenerateAllSchedules`: the new tables, or the error detail of the first infeasible node. -/
def regenerateAllSchedules (G : GlobalScheduler U) (clock : ℕ → UInt64) (workloads : WorkloadMap)
    (tables : ScheduleTableMap) : Except Text ScheduleTableMap := do
  let entries ← (allNodes workloads tables).zipIdx.mapM
    fun (nodeId, i) => regenerateNode G workloads (clock i) nodeId
  return .ofList entries

/-! ### AddSchedInfo -/

/-- `ConvertToClassifiedTasks` for one task: the period is the deadline when none is set. -/
def classifyTask (workloadId : Text) (mechanism : Mechanism) (t : TaskInfo) : ClassifiedTask :=
  let periodUs := t.period.toUInt32
  let deadlineUs := t.deadline.toUInt32
  { workloadId := workloadId
    taskId := t.name
    mechanism := mechanism
    periodUs := periodUs
    wcetUs := t.runtime.toUInt32
    deadlineUs := if deadlineUs = 0 ∧ 0 < periodUs then periodUs else deadlineUs
    maxDmiss := t.maxDmiss.toUInt32
    assignedCpu := -1 }

omit [Floating U] in
/-- The nodes the tasks name; if they name none, all configured nodes, or the node `default`. -/
def targetNodes (G : GlobalScheduler U) (request : SchedInfo) : Std.ExtTreeSet Text :=
  let named := (request.tasks.map (·.nodeId)).filter (· ≠ [])
  let configured := match G.nodeConfigManager with
    | some m => if m.loaded then m.nodes.keys else []
    | none => []
  .ofList (if named ≠ [] then named else if configured ≠ [] then configured else [text "default"])

omit [Floating U] in
/-- The entry a request asks to store; there is none for an unknown temporal class and for a
request without tasks. -/
def requestedEntry (G : GlobalScheduler U) (request : SchedInfo) : Option WorkloadEntry :=
  let classify (mechanism : Mechanism) : Option WorkloadEntry :=
    let classified := request.tasks.map (classifyTask request.workloadId mechanism)
    if classified.isEmpty then none
    else some { targetNodes := targetNodes G request, tasks := classified }
  match request.temporalClass with
  | .periodic => classify .tt
  | .sporadic => classify .cbs
  | .other _ => none

/-- `AddSchedInfo`: the state after the call and the status of the reply.  `clock` and `clock'` are
the clock readings of the regeneration and of the one after a rollback. -/
def addSchedInfo (G : GlobalScheduler U) (clock clock' : ℕ → UInt64) (s : SchedInfoService)
    (request : SchedInfo) : SchedInfoService × ℤ :=
  match requestedEntry G request with
  | none => (s, -1)
  | some entry =>
    let workloads := s.workloadTasks.insert request.workloadId entry
    match regenerateAllSchedules G clock workloads s.scheduleTables with
    | .ok tables => ({ workloadTasks := workloads, scheduleTables := tables,
                       scheduleChanged := true }, 0)
    | .error _ =>
      -- roll back: remove the workload that caused the failure
      let workloads := workloads.erase request.workloadId
      match regenerateAllSchedules G clock' workloads s.scheduleTables with
      | .ok tables => ({ s with workloadTasks := workloads, scheduleTables := tables }, -1)
      | .error _ => ({ s with workloadTasks := workloads }, -1)

/-! ### RemoveWorkload -/

/-- The string is the decimal or the `0x` form of the hash of the name. -/
def namesHash (workloadId name : Text) : Except ConversionError Bool :=
  let h := GlobalScheduler.fnv1aHash name
  if natText h.toNat = workloadId then .ok true
  else if workloadId.take 2 = text "0x" then (stoull16 workloadId).map (· = h)
  else .ok false

/-- The first of the stored names whose hash the string denotes. -/
def findByHash (workloadId : Text) : List Text → Except ConversionError (Option Text)
  | [] => .ok none
  | name :: names =>
    match namesHash workloadId name with
    | .error e => .error e
    | .ok true => .ok (some name)
    | .ok false => findByHash workloadId names

/-- The stored workload a string denotes, by name or by hash. -/
def resolve (workloads : WorkloadMap) (workloadId : Text) : Except ConversionError (Option Text) :=
  if workloadId ∈ workloads then .ok (some workloadId) else findByHash workloadId workloads.keys

/-- The outcome of `RemoveWorkload`. -/
structure Removal where
  service : SchedInfoService
  /-- What is written to `resolved_id`, if anything. -/
  resolvedId : Option Text
  result : Bool

/-- `RemoveWorkload` -/
def removeWorkload (G : GlobalScheduler U) (clock : ℕ → UInt64) (s : SchedInfoService)
    (workloadId : Text) (triggerPush : Bool) : Except ConversionError Removal := do
  match ← resolve s.workloadTasks workloadId with
  | none => return { service := s, resolvedId := none, result := false }
  | some actualId =>
    let workloads := s.workloadTasks.erase actualId
    match regenerateAllSchedules G clock workloads s.scheduleTables with
    | .error _ =>
      return { service := { s with workloadTasks := workloads }
               resolvedId := some actualId
               result := false }
    | .ok tables =>
      return { service := { workloadTasks := workloads, scheduleTables := tables,
                            scheduleChanged := s.scheduleChanged || triggerPush }
               resolvedId := some actualId
               result := true }

/-- The state after `RemoveWorkload`; an exception leaves it as it was. -/
def afterRemove (G : GlobalScheduler U) (clock : ℕ → UInt64) (s : SchedInfoService)
    (workloadId : Text) (triggerPush : Bool) : SchedInfoService :=
  match removeWorkload G clock s workloadId triggerPush with
  | .ok r => r.service
  | .error _ => s

/-! ### What regeneration produces -/

omit [Floating U] in
theorem mem_allNodes {workloads : WorkloadMap} {tables : ScheduleTableMap} {n : Text} :
    n ∈ allNodes workloads tables ↔
      (∃ (id : Text) (entry : WorkloadEntry), workloads[id]? = some entry ∧
        n ∈ entry.targetNodes) ∨ n ∈ tables := by
  simp [allNodes, Std.ExtTreeMap.mem_toList_iff_getElem?_eq_some]

omit [Floating U] in
theorem mem_tasksFor {workloads : WorkloadMap} {n : Text} {t : ClassifiedTask} :
    t ∈ tasksFor workloads n ↔
      ∃ (id : Text) (entry : WorkloadEntry), workloads[id]? = some entry ∧
        n ∈ entry.targetNodes ∧ t ∈ entry.tasks := by
  simp only [tasksFor, List.mem_flatMap, Prod.exists, Std.ExtTreeMap.mem_toList_iff_getElem?_eq_some]
  refine exists_congr fun id => exists_congr fun entry => and_congr_right fun _ => ?_
  split_ifs with h <;> simp [h]

/-- The table is, up to its epoch, what the scheduler generates for the node now. -/
def Fresh (G : GlobalScheduler U) (workloads : WorkloadMap) (n : Text)
    (table : HierarchicalScheduleTable) : Prop :=
  (G.generateSchedule 0 n (tasksFor workloads n)).map (·.sansEpoch) = .ok table.sansEpoch

/-- All nodes can be scheduled. -/
def Schedulable (G : GlobalScheduler U) (workloads : WorkloadMap) (tables : ScheduleTableMap) :
    Prop :=
  ∀ n ∈ allNodes workloads tables, ∃ table, Fresh G workloads n table

variable {G : GlobalScheduler U} {workloads : WorkloadMap} {tables : ScheduleTableMap}
  {clock : ℕ → UInt64}

theorem fresh_of_generateSchedule {now : UInt64} {n : Text} {table : HierarchicalScheduleTable}
    (h : G.generateSchedule now n (tasksFor workloads n) = .ok table) :
    Fresh G workloads n table := by
  rw [Fresh, G.generateSchedule_now now 0, h]
  rfl

theorem Fresh.exists_generateSchedule {n : Text} {table : HierarchicalScheduleTable}
    (h : Fresh G workloads n table) (now : UInt64) :
    ∃ table', G.generateSchedule now n (tasksFor workloads n) = .ok table' := by
  rw [Fresh] at h
  rw [G.generateSchedule_now 0 now]
  cases hg : G.generateSchedule 0 n (tasksFor workloads n) with
  | error e => rw [hg] at h; cases h
  | ok table' => exact ⟨_, rfl⟩

theorem Fresh.sansEpoch_eq {n : Text} {table table' : HierarchicalScheduleTable}
    (h : Fresh G workloads n table) (h' : Fresh G workloads n table') :
    table.sansEpoch = table'.sansEpoch :=
  Except.ok.inj (h.symm.trans h')

theorem regenerateNode_eq_ok {now : UInt64} {n : Text} {p : Text × HierarchicalScheduleTable} :
    regenerateNode G workloads now n = .ok p ↔
      p.1 = n ∧ G.generateSchedule now n (tasksFor workloads n) = .ok p.2 := by
  unfold regenerateNode
  cases G.generateSchedule now n (tasksFor workloads n) with
  | error e => simp
  | ok table =>
    constructor
    · intro h; cases h; exact ⟨rfl, rfl⟩
    · rintro ⟨rfl, h⟩; cases h; rfl

/-- The tables of a successful regeneration: every node has the one that was generated in its
turn, and there are no others. -/
theorem regenerateAllSchedules_generated {new : ScheduleTableMap}
    (h : regenerateAllSchedules G clock workloads tables = .ok new) :
    (∀ n, n ∈ new ↔ n ∈ allNodes workloads tables) ∧
      ∀ n table, new[n]? = some table → ∃ i : ℕ, (allNodes workloads tables)[i]? = some n ∧
        G.generateSchedule (clock i) n (tasksFor workloads n) = .ok table := by
  obtain ⟨entries, hentries, h⟩ := bind_eq_ok.1 h
  cases h
  rw [mapM_eq_ok] at hentries
  have hrel : List.Forall₂ (fun (a : Text × ℕ) p => p.1 = a.1 ∧
        G.generateSchedule (clock a.2) p.1 (tasksFor workloads p.1) = .ok p.2)
      (allNodes workloads tables).zipIdx entries := by
    refine hentries.imp fun a p hp => ?_
    obtain ⟨h₁, h₂⟩ := regenerateNode_eq_ok.1 hp
    exact ⟨h₁, h₁ ▸ h₂⟩
  have hkeys : entries.map Prod.fst = allNodes workloads tables := by
    have hfst : List.Forall₂ (· = ·) (entries.map Prod.fst)
        ((allNodes workloads tables).zipIdx.map Prod.fst) := by
      rw [List.forall₂_map_left_iff, List.forall₂_map_right_iff]
      exact (hrel.imp fun _ _ h => h.1).flip
    rw [List.forall₂_eq_eq_eq] at hfst
    rw [hfst, List.zipIdx_map_fst]
  constructor
  · intro n
    rw [Std.ExtTreeMap.mem_ofList, List.contains_iff_mem, hkeys]
  · intro n table hn
    have hdistinct : entries.Pairwise fun a b => ¬ compare a.1 b.1 = .eq := by
      have hnd : (entries.map Prod.fst).Nodup := hkeys ▸ nodup_stdSet _
      rw [List.Nodup, List.pairwise_map] at hnd
      exact hnd.imp fun hab heq => hab (Std.LawfulEqCmp.eq_of_compare heq)
    have hmem : n ∈ entries.map Prod.fst := by
      by_contra hnot
      rw [Std.ExtTreeMap.getElem?_ofList_of_contains_eq_false (by simpa using hnot)] at hn
      cases hn
    obtain ⟨⟨n', table'⟩, hp, rfl⟩ := List.mem_map.1 hmem
    rw [Std.ExtTreeMap.getElem?_ofList_of_mem Std.ReflCmp.compare_self hdistinct hp] at hn
    cases hn
    obtain ⟨⟨m, i⟩, ha, hm, hgen⟩ := exists_of_forall₂_right hrel hp
    rw [List.mem_zipIdx_iff_getElem?] at ha
    exact ⟨i, hm ▸ ha, hgen⟩

/-- **A successful regeneration** makes an up-to-date table for every node, and no other. -/
theorem regenerateAllSchedules_eq_ok {new : ScheduleTableMap}
    (h : regenerateAllSchedules G clock workloads tables = .ok new) :
    (∀ n, n ∈ new ↔ n ∈ allNodes workloads tables) ∧
      ∀ n table, new[n]? = some table → Fresh G workloads n table := by
  obtain ⟨hmem, hgen⟩ := regenerateAllSchedules_generated h
  refine ⟨hmem, fun n table hn => ?_⟩
  obtain ⟨i, -, hi⟩ := hgen n table hn
  exact fresh_of_generateSchedule hi

/-- **Regeneration succeeds iff all nodes can be scheduled**, whatever the clock reads. -/
theorem regenerateAllSchedules_isOk_iff :
    (∃ new, regenerateAllSchedules G clock workloads tables = .ok new) ↔
      Schedulable G workloads tables := by
  constructor
  · rintro ⟨new, h⟩ n hn
    obtain ⟨hmem, hfresh⟩ := regenerateAllSchedules_eq_ok h
    obtain ⟨table, htable⟩ := Std.ExtTreeMap.mem_iff_isSome_getElem?.1 ((hmem n).2 hn) |>
      Option.isSome_iff_exists.1
    exact ⟨table, hfresh n table htable⟩
  · intro h
    have hall : ∀ a ∈ (allNodes workloads tables).zipIdx,
        ∃ p, regenerateNode G workloads (clock a.2) a.1 = .ok p := by
      intro a ha
      obtain ⟨table, hfresh⟩ := h a.1 (List.fst_mem_of_mem_zipIdx ha)
      obtain ⟨table', hgen⟩ := hfresh.exists_generateSchedule (clock a.2)
      exact ⟨(a.1, table'), regenerateNode_eq_ok.2 ⟨rfl, hgen⟩⟩
    obtain ⟨entries, hentries⟩ := exists_mapM_eq_ok hall
    exact ⟨_, bind_eq_ok.2 ⟨entries, hentries, rfl⟩⟩

theorem regenerateAllSchedules_eq_error {e : Text}
    (h : regenerateAllSchedules G clock workloads tables = .error e) :
    ¬ Schedulable G workloads tables := by
  intro hs
  obtain ⟨new, hnew⟩ := (@regenerateAllSchedules_isOk_iff _ _ _ _ _ clock).2 hs
  rw [h] at hnew
  cases hnew

/-! ### What the calls do -/

omit [Floating U] in
/-- The entry of a request has its target nodes and its tasks, of which there is at least one. -/
theorem requestedEntry_eq_some {r : SchedInfo} {entry : WorkloadEntry}
    (h : requestedEntry G r = some entry) : r.tasks ≠ [] ∧ entry.targetNodes = targetNodes G r ∧
      ∃ mechanism, (mechanism = .tt ↔ r.temporalClass = .periodic) ∧
        entry.tasks = r.tasks.map (classifyTask r.workloadId mechanism) := by
  unfold requestedEntry at h
  dsimp only at h
  cases hclass : r.temporalClass with
  | periodic =>
    simp only [hclass] at h
    split_ifs at h with hemp
    cases h
    exact ⟨by simpa using hemp, rfl, .tt, by simp, rfl⟩
  | sporadic =>
    simp only [hclass] at h
    split_ifs at h with hemp
    cases h
    exact ⟨by simpa using hemp, rfl, .cbs, by simp, rfl⟩
  | other v => simp [hclass] at h

omit [Floating U] in
theorem erase_insert (workloads : WorkloadMap) (id : Text) (entry : WorkloadEntry) :
    (workloads.insert id entry).erase id = workloads.erase id := by
  refine Std.ExtTreeMap.ext_getElem? fun k => ?_
  rw [Std.ExtTreeMap.getElem?_erase, Std.ExtTreeMap.getElem?_erase, Std.ExtTreeMap.getElem?_insert]
  split_ifs <;> rfl

omit [Floating U] in
theorem erase_of_notMem {workloads : WorkloadMap} {id : Text} (h : id ∉ workloads) :
    workloads.erase id = workloads := by
  refine Std.ExtTreeMap.ext_getElem? fun k => ?_
  rw [Std.ExtTreeMap.getElem?_erase]
  split_ifs with hk
  · rw [← Std.LawfulEqCmp.eq_of_compare hk]
    exact (Std.ExtTreeMap.getElem?_eq_none h).symm
  · rfl

/-- What erasing a workload and regenerating leaves behind: new tables, or the old ones if some
node cannot be scheduled any more. -/
def Erased (G : GlobalScheduler U) (s : SchedInfoService) (id : Text) (s' : SchedInfoService) :
    Prop :=
  s'.workloadTasks = s.workloadTasks.erase id ∧
    ((∃ clock, regenerateAllSchedules G clock (s.workloadTasks.erase id) s.scheduleTables
        = .ok s'.scheduleTables) ∨
      ¬ Schedulable G (s.workloadTasks.erase id) s.scheduleTables ∧
        s'.scheduleTables = s.scheduleTables)

/-- Everything `AddSchedInfo` can do. -/
theorem addSchedInfo_cases (G : GlobalScheduler U) (clock clock' : ℕ → UInt64)
    (s : SchedInfoService) (request : SchedInfo) :
    (requestedEntry G request = none ∧ addSchedInfo G clock clock' s request = (s, -1)) ∨
    ∃ entry, requestedEntry G request = some entry ∧
      ((∃ tables, regenerateAllSchedules G clock
          (s.workloadTasks.insert request.workloadId entry) s.scheduleTables = .ok tables ∧
        addSchedInfo G clock clock' s request =
          (⟨s.workloadTasks.insert request.workloadId entry, tables, true⟩, 0)) ∨
      (¬ Schedulable G (s.workloadTasks.insert request.workloadId entry) s.scheduleTables ∧
        (addSchedInfo G clock clock' s request).2 = -1 ∧
        (addSchedInfo G clock clock' s request).1.scheduleChanged = s.scheduleChanged ∧
        Erased G s request.workloadId (addSchedInfo G clock clock' s request).1)) := by
  unfold addSchedInfo
  cases hentry : requestedEntry G request with
  | none => exact Or.inl ⟨rfl, rfl⟩
  | some entry =>
    refine Or.inr ⟨entry, rfl, ?_⟩
    dsimp only
    cases hreg : regenerateAllSchedules G clock
      (s.workloadTasks.insert request.workloadId entry) s.scheduleTables with
    | ok tables => exact Or.inl ⟨tables, rfl, rfl⟩
    | error e =>
      refine Or.inr ⟨regenerateAllSchedules_eq_error hreg, ?_⟩
      rw [erase_insert]
      cases hroll : regenerateAllSchedules G clock' (s.workloadTasks.erase request.workloadId)
        s.scheduleTables with
      | ok tables => exact ⟨rfl, rfl, rfl, Or.inl ⟨clock', hroll⟩⟩
      | error e' =>
        exact ⟨rfl, rfl, rfl, Or.inr ⟨regenerateAllSchedules_eq_error hroll, rfl⟩⟩

/-- Everything `RemoveWorkload` can do when it returns. -/
theorem removeWorkload_cases {clock : ℕ → UInt64} {s : SchedInfoService} {id : Text}
    {triggerPush : Bool} {r : Removal} (h : removeWorkload G clock s id triggerPush = .ok r) :
    (resolve s.workloadTasks id = .ok none ∧ r = ⟨s, none, false⟩) ∨
    ∃ actualId, resolve s.workloadTasks id = .ok (some actualId) ∧ r.resolvedId = some actualId ∧
      Erased G s actualId r.service ∧
      r.service.scheduleChanged = (s.scheduleChanged || r.result && triggerPush) := by
  obtain ⟨found, hfound, h⟩ := bind_eq_ok.1 h
  cases found with
  | none => cases h; exact Or.inl ⟨hfound, rfl⟩
  | some actualId =>
    refine Or.inr ⟨actualId, hfound, ?_⟩
    dsimp only at h
    cases hreg : regenerateAllSchedules G clock (s.workloadTasks.erase actualId)
      s.scheduleTables with
    | ok tables =>
      rw [hreg] at h
      cases h
      exact ⟨rfl, ⟨rfl, Or.inl ⟨clock, hreg⟩⟩, by simp⟩
    | error e =>
      rw [hreg] at h
      cases h
      exact ⟨rfl, ⟨rfl, Or.inr ⟨regenerateAllSchedules_eq_error hreg, rfl⟩⟩, by simp⟩

theorem resolve_of_removeWorkload_error {clock : ℕ → UInt64} {s : SchedInfoService} {id : Text}
    {triggerPush : Bool} {e : ConversionError}
    (h : removeWorkload G clock s id triggerPush = .error e) :
    resolve s.workloadTasks id = .error e := by
  unfold removeWorkload at h
  cases hfound : resolve s.workloadTasks id with
  | error e' =>
    rw [hfound] at h
    cases h
    rfl
  | ok found =>
    rw [hfound] at h
    cases found with
    | none => cases h
    | some actualId =>
      dsimp only [bind, Except.bind] at h
      split at h <;> cases h

end SchedInfoService

end Timpani
