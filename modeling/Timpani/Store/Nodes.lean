import Timpani.Store.Coherence

/-!
# Tasks and the nodes they name

A task of a request may name the node it is for.  `AddSchedInfo` reduces a request to one set of
target nodes and one list of tasks, so that a workload whose tasks name several nodes is scheduled
as a whole on each of them.

The store itself forgets which task named which node; here it is run together with the requests it
accepted.

* `OnNamedNodes` : a task that names a node only appears in the table of that node;
* `onNamedNodes_of_not_spans` : this holds iff no stored request spans several nodes;
* `not_onNamedNodes_two_nodes` : a workload with one task for each of two nodes.
-/

namespace Timpani

namespace SchedInfo

/-- The task appears in schedules: it is sporadic, or it has a period. -/
def Scheduled (r : SchedInfo) (t : TaskInfo) : Prop :=
  r.temporalClass = .periodic → t.period.toUInt32 ≠ 0

/-- Two tasks of the request name different nodes, and the first one is scheduled. -/
def Spans (r : SchedInfo) : Prop :=
  ∃ t ∈ r.tasks, ∃ t' ∈ r.tasks, t.nodeId ≠ [] ∧ t'.nodeId ≠ [] ∧ t.nodeId ≠ t'.nodeId ∧
    ∃ u ∈ r.tasks, u.name = t.name ∧ r.Scheduled u

instance (r : SchedInfo) (t : TaskInfo) : Decidable (r.Scheduled t) :=
  inferInstanceAs (Decidable (_ → _))

instance (r : SchedInfo) : Decidable r.Spans := by
  unfold Spans
  infer_instance

end SchedInfo

namespace SchedInfoService

/-- The store and the request behind each stored workload. -/
structure Submissions where
  service : SchedInfoService
  requests : Std.ExtTreeMap Text SchedInfo

/-- An `AddSchedInfo` call, with the clock readings it sees. -/
structure Submission where
  clock : ℕ → UInt64
  clock' : ℕ → UInt64
  request : SchedInfo

namespace Submissions

variable {U : Type} [Floating U]

/-- Any sequence of accepted requests. -/
def machine (G : GlobalScheduler U) : Machine Submissions Submission where
  init s := s = ⟨new, ∅⟩
  next s a :=
    let (service, status) := addSchedInfo G a.clock a.clock' s.service a.request
    if status = 0 then some ⟨service, s.requests.insert a.request.workloadId a.request⟩ else none

/-- A task that names a node appears in the table of no other node. -/
def OnNamedNodes (s : Submissions) : Prop :=
  ∀ (id : Text) (r : SchedInfo), s.requests[id]? = some r → ∀ t ∈ r.tasks, t.nodeId ≠ [] →
    ∀ (m : Text) (table : HierarchicalScheduleTable), s.service.scheduleTables[m]? = some table →
      (id, t.name) ∈ table.pairs → m = t.nodeId

/-! ### Stored requests -/

/-- The store holds what its requests ask for, and its tables are up to date. -/
structure Stored (G : GlobalScheduler U) (s : Submissions) : Prop where
  coherent : Coherent G s.service
  entries : ∀ id : Text, s.service.workloadTasks[id]? = s.requests[id]?.bind (requestedEntry G)
  ids : ∀ (id : Text) (r : SchedInfo), s.requests[id]? = some r →
    r.workloadId = id ∧ (requestedEntry G r).isSome

variable {G : GlobalScheduler U} {s s' : Submissions}

theorem stored_init : Stored G ⟨new, ∅⟩ where
  coherent := coherent_new
  entries id := by simp [new]
  ids id r h := by simp at h

theorem Stored.next {a : Submission} (h : Stored G s) (hn : (machine G).next s a = some s') :
    Stored G s' := by
  simp only [machine] at hn
  rcases addSchedInfo_cases G a.clock a.clock' s.service a.request with
    ⟨-, heq⟩ | ⟨entry, hentry, ⟨tables, hreg, heq⟩ | ⟨-, hrej, -, -⟩⟩
  · simp [heq] at hn
  · rw [heq] at hn
    cases hn
    refine ⟨coherent_of_regenerate hreg, fun id => ?_, fun id r hr => ?_⟩
    · simp only [Std.ExtTreeMap.getElem?_insert]
      split_ifs
      · rw [Option.bind_some, hentry]
      · exact h.entries id
    · rw [Std.ExtTreeMap.getElem?_insert] at hr
      split_ifs at hr with hid
      · cases hr
        exact ⟨Std.LawfulEqCmp.eq_of_compare hid, by rw [hentry]; rfl⟩
      · exact h.ids id r hr
  · simp [hrej] at hn

theorem stored_of_reachable (h : (machine G).Reachable s) : Stored G s :=
  h.invariant (I := Stored G) (by rintro _ rfl; exact stored_init) fun _ _ _ hs _ hn => hs.next hn

/-! ### Where the tasks of a request appear -/

omit [Floating U] in
theorem mem_targetNodes {r : SchedInfo} {t : TaskInfo} (ht : t ∈ r.tasks) (hne : t.nodeId ≠ [])
    {n : Text} : n ∈ targetNodes G r ↔ n ≠ [] ∧ ∃ t' ∈ r.tasks, t'.nodeId = n := by
  have hnamed : (r.tasks.map (·.nodeId)).filter (· ≠ []) ≠ [] :=
    List.ne_nil_of_mem (List.mem_filter.2 ⟨List.mem_map_of_mem ht, decide_eq_true hne⟩)
  unfold targetNodes
  dsimp only
  rw [if_pos hnamed, Std.ExtTreeSet.mem_ofList, List.contains_iff_mem, List.mem_filter,
    List.mem_map, decide_eq_true_iff, and_comm]

/-- **A name of a request appears in the table of a node** iff the node is one of its target nodes
and the name is that of a scheduled task. -/
theorem Stored.mem_pairs_iff [LawfulFloating U] (h : Stored G s) {id : Text} {r : SchedInfo}
    (hr : s.requests[id]? = some r) {m : Text} {table : HierarchicalScheduleTable}
    (htable : s.service.scheduleTables[m]? = some table) {name : Text} :
    (id, name) ∈ table.pairs ↔
      m ∈ targetNodes G r ∧ ∃ u ∈ r.tasks, u.name = name ∧ r.Scheduled u := by
  obtain ⟨table', hgen⟩ := (h.coherent.fresh m table htable).exists_generateSchedule 0
  rw [HierarchicalScheduleTable.pairs_eq_of_sansEpoch_eq
    ((h.coherent.fresh m table htable).sansEpoch_eq (fresh_of_generateSchedule hgen)),
    GlobalScheduler.mem_pairs_generateSchedule hgen]
  constructor
  · rintro ⟨c, hc, h0, hids⟩
    obtain ⟨id', entry, hentry, hm, hc⟩ := mem_tasksFor.1 hc
    rw [h.entries id', Option.bind_eq_some_iff] at hentry
    obtain ⟨r', hr', hentry⟩ := hentry
    obtain ⟨-, htargets, mechanism, hmech, htasks⟩ := requestedEntry_eq_some hentry
    rw [htasks] at hc
    obtain ⟨u, hu, rfl⟩ := List.mem_map.1 hc
    obtain ⟨hid, rfl⟩ := Prod.mk.inj hids
    -- the task carries the id of its workload, so the request is the one of `id`
    obtain rfl : id' = id := ((h.ids id' r' hr').1).symm.trans hid.symm
    rw [hr] at hr'
    cases hr'
    exact ⟨htargets ▸ hm, u, hu, rfl, fun hp => h0 (hmech.2 hp)⟩
  · rintro ⟨hm, u, hu, rfl, hsched⟩
    obtain ⟨hid, hsome⟩ := h.ids id r hr
    obtain ⟨entry, hentry⟩ := Option.isSome_iff_exists.1 hsome
    obtain ⟨-, htargets, mechanism, hmech, htasks⟩ := requestedEntry_eq_some hentry
    refine ⟨classifyTask r.workloadId mechanism u, mem_tasksFor.2 ⟨id, entry, ?_, ?_, ?_⟩,
      fun hp => hsched (hmech.1 hp), by rw [← hid]; rfl⟩
    · rw [h.entries id, hr, Option.bind_some, hentry]
    · rwa [htargets]
    · rw [htasks]
      exact List.mem_map_of_mem hu

theorem Stored.exists_table (h : Stored G s) {id : Text} {r : SchedInfo}
    (hr : s.requests[id]? = some r) {m : Text} (hm : m ∈ targetNodes G r) :
    ∃ table, s.service.scheduleTables[m]? = some table := by
  obtain ⟨entry, hentry⟩ := Option.isSome_iff_exists.1 (h.ids id r hr).2
  have hmem := h.coherent.targets id entry (by rw [h.entries id, hr, Option.bind_some, hentry]) m
    ((requestedEntry_eq_some hentry).2.1 ▸ hm)
  exact Option.isSome_iff_exists.1 (Std.ExtTreeMap.mem_iff_isSome_getElem?.1 hmem)

/-! ### Main result -/

theorem Stored.onNamedNodes_iff [LawfulFloating U] (h : Stored G s) :
    OnNamedNodes s ↔ ∀ (id : Text) (r : SchedInfo), s.requests[id]? = some r → ¬ r.Spans := by
  constructor
  · rintro hnodes id r hr ⟨t, ht, t', ht', hne, hne', hdiff, hshown⟩
    have hm : t'.nodeId ∈ targetNodes G r := (mem_targetNodes ht hne).2 ⟨hne', t', ht', rfl⟩
    obtain ⟨table, htable⟩ := h.exists_table hr hm
    have hpair := (h.mem_pairs_iff hr htable).2 ⟨hm, hshown⟩
    exact hdiff (hnodes id r hr t ht hne t'.nodeId table htable hpair).symm
  · intro hspans id r hr t ht hne m table htable hpair
    obtain ⟨hm, hshown⟩ := (h.mem_pairs_iff hr htable).1 hpair
    obtain ⟨hne', t', ht', rfl⟩ := (mem_targetNodes ht hne).1 hm
    by_contra hdiff
    exact hspans id r hr ⟨t, ht, t', ht', hne, hne', Ne.symm hdiff, hshown⟩

/-- **Tasks are scheduled on the nodes they name** in every run whose requests do not span several
nodes; and after any run iff none of the stored requests does. -/
theorem onNamedNodes_of_not_spans [LawfulFloating U] (G : GlobalScheduler U) :
    (∀ s, (machine G).ReachableIf (fun _ a => ¬ a.request.Spans) s → OnNamedNodes s) ∧
    ∀ s, (machine G).Reachable s → (OnNamedNodes s ↔
      ∀ (id : Text) (r : SchedInfo), s.requests[id]? = some r → ¬ r.Spans) := by
  refine ⟨fun s hs => ?_, fun s hs => (stored_of_reachable hs).onNamedNodes_iff⟩
  refine (stored_of_reachable hs.reachable).onNamedNodes_iff.2 ?_
  refine hs.invariant (I := fun s => ∀ (id : Text) (r : SchedInfo), s.requests[id]? = some r →
    ¬ r.Spans) ?_ ?_
  · rintro _ rfl id r hr
    simp at hr
  · intro s a s' hall hok hn id r hr
    simp only [machine] at hn
    obtain ⟨-, hn⟩ := Option.ite_none_right_eq_some.1 hn
    cases hn
    rw [Std.ExtTreeMap.getElem?_insert] at hr
    split_ifs at hr
    · cases hr
      exact hok
    · exact hall id r hr

/-- A workload of two periodic tasks, each with the node it names. -/
def pairOn (node node' : String) : SchedInfo where
  workloadId := text "w"
  tasks :=
    [{ name := text "t", period := 10, runtime := 1, deadline := 10, maxDmiss := 0,
       nodeId := text node },
     { name := text "u", period := 10, runtime := 1, deadline := 10, maxDmiss := 0,
       nodeId := text node' }]
  temporalClass := .periodic

/-- The run that submits one request. -/
def submit (request : SchedInfo) : Option Submissions :=
  (machine singleCpu).exec ⟨new, ∅⟩ [⟨fun _ => 0, fun _ => 0, request⟩]

/-- Two tasks for one node. -/
theorem onNamedNodes_one_node : ∃ s, submit (pairOn "n" "n") = some s ∧ text "n" ∈
    s.service.scheduleTables ∧ OnNamedNodes s := by
  have hrun : (submit (pairOn "n" "n")).any (fun s =>
      decide (text "n" ∈ s.service.scheduleTables)) = true := by decide +kernel
  obtain ⟨s, hs, hmem⟩ := (Option.any_eq_true _ _).1 hrun
  have hexec : (machine singleCpu).exec ⟨new, ∅⟩ [⟨fun _ => 0, fun _ => 0, pairOn "n" "n"⟩]
      = some s := hs
  refine ⟨s, hs, of_decide_eq_true hmem, (onNamedNodes_of_not_spans singleCpu).1 s
    ⟨_, rfl, Machine.leads_of_exec ?_ hexec⟩⟩
  simp only [List.mem_singleton, forall_eq]
  exact fun _ => by decide

/-- **A workload with one task for each of two nodes**: the task for `n` is in the table of `m`. -/
theorem not_onNamedNodes_two_nodes : ∃ s, (machine singleCpu).Reachable s ∧
    s.requests[text "w"]? = some (pairOn "n" "m") ∧
    (∃ table, s.service.scheduleTables[text "m"]? = some table ∧
      (text "w", text "t") ∈ table.pairs) ∧ ¬ OnNamedNodes s := by
  have hrun : (submit (pairOn "n" "m")).any (fun s =>
      decide (s.requests[text "w"]? = some (pairOn "n" "m")) &&
      (s.service.scheduleTables[text "m"]?).any fun table =>
        decide ((text "w", text "t") ∈ table.pairs)) = true := by decide +kernel
  obtain ⟨s, hs, hfacts⟩ := (Option.any_eq_true _ _).1 hrun
  obtain ⟨hr, htable⟩ := Bool.and_eq_true_iff.1 hfacts
  have hr := of_decide_eq_true hr
  obtain ⟨table, htable, hpair⟩ := (Option.any_eq_true _ _).1 htable
  have hpair := of_decide_eq_true hpair
  refine ⟨s, Machine.reachable_of_exec rfl hs, hr, ⟨table, htable, hpair⟩, fun hnodes => ?_⟩
  have hm := hnodes (text "w") _ hr _ List.mem_cons_self (by decide) (text "m") table htable hpair
  exact absurd hm (by decide)

end Submissions

end SchedInfoService

end Timpani
