import Timpani.Node.TableApply
import Timpani.Scheduler.Validity

/-!
# Independence of the CBS servers

Every CBS entry of a table should have a server of its own.  The key of a server is the XOR of the
hashes of its workload and its task, which forgets which is which.

* `independent_iff` : the servers of a table are independent iff no two entries have swapped names,
  are both named like their workloads, or have four different names whose hashes happen to cancel;
* `swapped_names_share_server` : the tasks `a/b` and `b/a` of a generated table share one server.
-/

namespace Timpani

open GlobalScheduler (fnv1aHash)

/-! ### Keys -/

namespace CbsConfig

/-- The ways two entries with different pairs can have the same key although their names do not
collide. -/
def Clash (e e' : CbsConfig) : Prop :=
  e.workloadId = e'.taskId ∧ e.taskId = e'.workloadId ∨
  e.workloadId = e.taskId ∧ e'.workloadId = e'.taskId ∨
  [e.workloadId, e.taskId, e'.workloadId, e'.taskId].Nodup ∧
    fnv1aHash e.workloadId ^^^ fnv1aHash e.taskId ^^^ fnv1aHash e'.workloadId ^^^
      fnv1aHash e'.taskId = 0

/-- The hashes of the entry are those of its names. -/
def Hashed (e : CbsConfig) : Prop :=
  e.workloadIdHash = fnv1aHash e.workloadId ∧ e.taskIdHash = fnv1aHash e.taskId

theorem xor_eq_iff {a b c d : UInt64} : a ^^^ b = c ^^^ d ↔ a ^^^ b ^^^ c ^^^ d = 0 := by
  rw [← UInt64.xor_eq_zero_iff, UInt64.xor_assoc (a ^^^ b)]

theorem key_eq_iff {e e' : CbsConfig} {names : Set Text} (h : e.Hashed) (h' : e'.Hashed)
    (hinj : Set.InjOn fnv1aHash names) (hnames : e.workloadId ∈ names ∧ e.taskId ∈ names)
    (hnames' : e'.workloadId ∈ names ∧ e'.taskId ∈ names) (hne : e.pair ≠ e'.pair) :
    e.key = e'.key ↔ Clash e e' := by
  obtain ⟨hw, ht⟩ := hnames
  obtain ⟨hw', ht'⟩ := hnames'
  rw [key, key, h.1, h.2, h'.1, h'.2]
  constructor
  · intro heq
    by_cases h₁ : e.workloadId = e'.workloadId
    · rw [h₁, UInt64.xor_right_inj] at heq
      exact absurd (Prod.ext h₁ (hinj ht ht' heq)) hne
    by_cases h₂ : e.taskId = e'.taskId
    · rw [h₂, UInt64.xor_left_inj] at heq
      exact absurd (Prod.ext (hinj hw hw' heq) h₂) hne
    by_cases h₃ : e.workloadId = e'.taskId
    · rw [h₃, UInt64.xor_comm, UInt64.xor_left_inj] at heq
      exact Or.inl ⟨h₃, hinj ht hw' heq⟩
    by_cases h₄ : e.taskId = e'.workloadId
    · rw [h₄, UInt64.xor_comm, UInt64.xor_right_inj] at heq
      exact Or.inl ⟨hinj hw ht' heq, h₄⟩
    by_cases h₅ : e.workloadId = e.taskId
    · rw [h₅, UInt64.xor_self, eq_comm, UInt64.xor_eq_zero_iff] at heq
      exact Or.inr (Or.inl ⟨h₅, hinj hw' ht' heq⟩)
    by_cases h₆ : e'.workloadId = e'.taskId
    · rw [h₆, UInt64.xor_self, UInt64.xor_eq_zero_iff] at heq
      exact absurd (hinj hw ht heq) h₅
    refine Or.inr (Or.inr ⟨?_, xor_eq_iff.1 heq⟩)
    simp [h₁, h₂, h₃, h₄, h₅, h₆]
  · rintro (⟨h₁, h₂⟩ | ⟨h₁, h₂⟩ | ⟨-, hxor⟩)
    · rw [h₁, h₂, UInt64.xor_comm]
    · rw [h₁, h₂, UInt64.xor_self, UInt64.xor_self]
    · exact xor_eq_iff.2 hxor

end CbsConfig

/-! ### Independence -/

namespace HierarchicalScheduleTable

/-- The names in the CBS entries. -/
def cbsNames (t : HierarchicalScheduleTable) : Set Text :=
  {x | ∃ e ∈ t.cbsEntries, x = e.workloadId ∨ x = e.taskId}

/-- All CBS entries carry the hashes of their names. -/
def CbsHashed (t : HierarchicalScheduleTable) : Prop := ∀ e ∈ t.cbsEntries, e.Hashed

/-- The CBS tasks of the table are budgeted independently. -/
structure Independent (t : HierarchicalScheduleTable) : Prop where
  keys : ∀ e ∈ t.cbsEntries, ∀ e' ∈ t.cbsEntries, e.pair ≠ e'.pair → e.key ≠ e'.key
  /-- Applying the table makes a server for every entry. -/
  servers : ∀ (n : Node) (findPid : ℕ → Option UInt32) (clock : ℕ → UInt64),
    (n.tableCallback findPid clock t).2 = [] → ∀ e ∈ t.cbsEntries,
    (∀ e' ∈ t.cbsEntries, e'.pair = e.pair → e' = e) →
    ∃ i, (n.tableCallback findPid clock t).1.bpf.cbsMap.lookup e.key = some (e.initial (clock i))
  /-- Running or stopping the task of one entry does not touch the server of another. -/
  frame : ∀ e ∈ t.cbsEntries, ∀ e' ∈ t.cbsEntries, e.pair ≠ e'.pair →
    ∀ (s : BpfState) (pid : UInt32) (m : TaskMeta), s.taskMetaMap.lookup pid = some m →
    m.workloadIdHash = e.workloadIdHash → m.taskIdHash = e.taskIdHash → ∀ cpu runnable now,
    (s.running pid cpu now).1.cbsMap.lookup e'.key = s.cbsMap.lookup e'.key ∧
      (s.stopping pid cpu runnable now).cbsMap.lookup e'.key = s.cbsMap.lookup e'.key

theorem independent_of_keys {t : HierarchicalScheduleTable}
    (h : ∀ e ∈ t.cbsEntries, ∀ e' ∈ t.cbsEntries, e.pair ≠ e'.pair → e.key ≠ e'.key) :
    Independent t where
  keys := h
  servers n findPid clock herr e he hsame := by
    refine lookup_cbsMap_tableCallback herr he fun e' he' hkey => hsame e' he' ?_
    by_contra hne
    exact h e' he' e he hne hkey
  frame e he e' he' hne s pid m hm hw ht cpu runnable now := by
    have hserves : s.serves pid e'.key = false := by
      rw [Bool.eq_false_iff]
      intro hs
      have hkey : m.cbsKey = e.key := by rw [TaskMeta.cbsKey, hw, ht, CbsConfig.key]
      exact h e he e' he' hne (hkey.symm.trans ((BpfState.serves_of_lookup hm).1 hs).2)
    rw [BpfState.lookup_cbsMap_running, BpfState.lookup_cbsMap_stopping, BpfState.onServer,
      BpfState.onServer, hserves]
    simp

/-- **The servers of a table are independent iff no two of its entries clash.** -/
theorem independent_iff (t : HierarchicalScheduleTable) (hashed : t.CbsHashed)
    (hinj : Set.InjOn fnv1aHash t.cbsNames) :
    Independent t ↔ ∀ e ∈ t.cbsEntries, ∀ e' ∈ t.cbsEntries, e.pair ≠ e'.pair → ¬ e.Clash e' := by
  have hnames : ∀ e ∈ t.cbsEntries, e.workloadId ∈ t.cbsNames ∧ e.taskId ∈ t.cbsNames :=
    fun e he => ⟨⟨e, he, Or.inl rfl⟩, ⟨e, he, Or.inr rfl⟩⟩
  have hkey : ∀ e ∈ t.cbsEntries, ∀ e' ∈ t.cbsEntries, e.pair ≠ e'.pair →
      (e.key = e'.key ↔ e.Clash e') := fun e he e' he' hne =>
    CbsConfig.key_eq_iff (hashed e he) (hashed e' he') hinj (hnames e he) (hnames e' he') hne
  constructor
  · intro h e he e' he' hne hclash
    exact h.keys e he e' he' hne ((hkey e he e' he' hne).2 hclash)
  · intro h
    exact independent_of_keys fun e he e' he' hne heq =>
      h e he e' he' hne ((hkey e he e' he' hne).1 heq)

theorem cbsHashed_generateSchedule {U : Type} [Floating U] {G : GlobalScheduler U} {now : UInt64}
    {nodeId : Text} {tasks : List ClassifiedTask} {t : HierarchicalScheduleTable}
    (h : G.generateSchedule now nodeId tasks = .ok t) : t.CbsHashed := by
  have hbuild : ∀ (scheds : List (PerCpuSchedule U)) (hp : UInt64),
      (GlobalScheduler.buildTable now nodeId scheds hp).CbsHashed := by
    intro scheds hp e he
    simp only [cbsEntries, layers, GlobalScheduler.buildTable, GlobalScheduler.partitionOf,
      List.mem_flatMap, List.mem_map] at he
    obtain ⟨l, ⟨p, ⟨s, -, rfl⟩, hl⟩, he⟩ := he
    obtain rfl := List.mem_singleton.1 hl
    obtain ⟨alloc, -, rfl⟩ := List.mem_map.1 he
    exact ⟨rfl, rfl⟩
  by_cases hne : tasks = []
  · subst hne
    cases h
    exact hbuild _ _
  · obtain ⟨a, allocated, -, rfl⟩ := (GlobalScheduler.generateSchedule_eq_ok hne).1 h
    exact hbuild _ _

/-- A CBS task with a period of 10 ms. -/
def cbsTask (workloadId taskId : String) (budgetUs : UInt32) : ClassifiedTask :=
  { ClassifiedTask.periodic (text workloadId) (text taskId) 10000 budgetUs 10000 with
    mechanism := .cbs }

theorem injOn_cbsNames {t : HierarchicalScheduleTable} {names : List Text}
    (hsub : ∀ p ∈ t.cbsEntries.map CbsConfig.pair, p.1 ∈ names ∧ p.2 ∈ names)
    (hinj : ∀ x ∈ names, ∀ y ∈ names, fnv1aHash x = fnv1aHash y → x = y) :
    Set.InjOn fnv1aHash t.cbsNames := by
  have hmem : ∀ x ∈ t.cbsNames, x ∈ names := by
    rintro x ⟨e, he, rfl | rfl⟩
    · exact (hsub _ (List.mem_map_of_mem he)).1
    · exact (hsub _ (List.mem_map_of_mem he)).2
  exact fun x hx y hy => hinj x (hmem x hx) y (hmem y hy)

/-- Two tasks of one workload have independent servers. -/
theorem independent_of_one_workload :
    ∃ t, GlobalScheduler.unconfigured.generateSchedule 0 (text "n")
        [cbsTask "a" "b" 100, cbsTask "a" "c" 200] = .ok t ∧
      t.cbsEntries.map CbsConfig.pair = [(text "a", text "c"), (text "a", text "b")] ∧
      Independent t := by
  have heval : (GlobalScheduler.unconfigured.generateSchedule 0 (text "n")
      [cbsTask "a" "b" 100, cbsTask "a" "c" 200]).toOption.any (fun t => decide
        (t.cbsEntries.map CbsConfig.pair = [(text "a", text "c"), (text "a", text "b")])) = true := by
    decide +kernel
  obtain ⟨t, ht, hall⟩ := (Option.any_eq_true _ _).1 heval
  have hgen := toOption_eq_some.1 ht
  have hpairs := of_decide_eq_true hall
  refine ⟨t, hgen, hpairs, (independent_iff t (cbsHashed_generateSchedule hgen) ?_).2 ?_⟩
  · refine @injOn_cbsNames t [text "a", text "b", text "c"] ?_ (by decide +kernel)
    rw [hpairs]
    decide +kernel
  · -- the workload is the same and no task is named like it
    have hname : ∀ e ∈ t.cbsEntries, e.workloadId = text "a" ∧ e.taskId ≠ text "a" := by
      intro e he
      have hall : ∀ p ∈ t.cbsEntries.map CbsConfig.pair, p.1 = text "a" ∧ p.2 ≠ text "a" := by
        rw [hpairs]
        decide +kernel
      exact hall _ (List.mem_map_of_mem he)
    intro e he e' he' _ hclash
    rcases hclash with ⟨hswap, -⟩ | ⟨hself, -⟩ | ⟨hnodup, -⟩
    · exact (hname e' he').2 (hswap ▸ (hname e he).1)
    · exact (hname e he).2 (hself ▸ (hname e he).1)
    · simp [(hname e he).1, (hname e' he').1] at hnodup

/-- The tasks `a/b` and `b/a`: the names do not collide and the table has two entries with budgets
of their own, but the entries share a key and so a server. -/
theorem swapped_names_share_server :
    ∃ t, GlobalScheduler.unconfigured.generateSchedule 0 (text "n")
        [cbsTask "a" "b" 100, cbsTask "b" "a" 200] = .ok t ∧
      t.CbsHashed ∧ Set.InjOn fnv1aHash t.cbsNames ∧
      (∃ e ∈ t.cbsEntries, ∃ e' ∈ t.cbsEntries,
        e.pair ≠ e'.pair ∧ e.budgetUs ≠ e'.budgetUs ∧ e.key = e'.key) ∧ ¬ Independent t := by
  have heval : (GlobalScheduler.unconfigured.generateSchedule 0 (text "n")
      [cbsTask "a" "b" 100, cbsTask "b" "a" 200]).toOption.any (fun t => decide
        (t.cbsEntries.map CbsConfig.pair = [(text "b", text "a"), (text "a", text "b")] ∧
        ∃ e ∈ t.cbsEntries, ∃ e' ∈ t.cbsEntries,
          e.pair ≠ e'.pair ∧ e.budgetUs ≠ e'.budgetUs ∧ e.key = e'.key)) = true := by
    decide +kernel
  obtain ⟨t, ht, hall⟩ := (Option.any_eq_true _ _).1 heval
  have hgen := toOption_eq_some.1 ht
  obtain ⟨hpairs, hshared⟩ := of_decide_eq_true hall
  refine ⟨t, hgen, cbsHashed_generateSchedule hgen, ?_, hshared, fun hind => ?_⟩
  · refine @injOn_cbsNames t [text "a", text "b"] ?_ (by decide +kernel)
    rw [hpairs]
    decide +kernel
  · obtain ⟨e, he, e', he', hne, -, hkey⟩ := hshared
    exact hind.keys e he e' he' hne hkey

end HierarchicalScheduleTable

end Timpani
