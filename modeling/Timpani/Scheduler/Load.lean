import Timpani.Scheduler.Generate

/-!
# The loads of the CPUs during the assignment

`assign_cpus` keeps two utilisations per CPU.  Here both its loops are described by what they do to
these loads alone, which is how two assignments are compared.

* `loaded` : the schedules with given loads;
* `cpuSchedules_foldl_assignTtWorkload` : the loads the TT workloads leave behind;
* `worstFitRun` : the CPUs chosen for the CBS tasks, from their utilisations;
* `assignCpus_eq_ok_iff` : the assignment in these terms.
-/

namespace Timpani

namespace GlobalScheduler

variable {U : Type} [Floating U]

/-- The schedules during the assignment, from the loads of the CPUs. -/
def loaded (cpus : List ℤ) (uTt uCbs : ℤ → U) : List (PerCpuSchedule U) :=
  (stdSet cpus).map fun c => { (.new c : PerCpuSchedule U) with uTt := uTt c, uCbs := uCbs c }

/-- No load. -/
def unloaded : ℤ → U := fun _ => Floating.ofDecimal 0 0

/-- The residual capacity of a CPU, as the search computes it. -/
def residual (uTt uCbs : U) : U :=
  Floating.sub (Floating.sub (Floating.sub uBound uTt) uCbs) uOverhead

section Loaded

variable {cpus : List ℤ} {uTt uCbs : ℤ → U} {cpu : ℤ}

theorem updateCpu_uTt_loaded (u : U) :
    updateCpu cpu (fun s => { s with uTt := Floating.add s.uTt u }) (loaded cpus uTt uCbs) =
      loaded cpus (Function.update uTt cpu (Floating.add (uTt cpu) u)) uCbs := by
  rw [updateCpu, loaded, loaded, List.map_map]
  refine List.map_congr_left fun c _ => ?_
  by_cases hc : c = cpu
  · subst hc
    simp [PerCpuSchedule.new]
  · simp [PerCpuSchedule.new, hc]

theorem updateCpu_uCbs_loaded (u : U) :
    updateCpu cpu (fun s => { s with uCbs := Floating.add s.uCbs u }) (loaded cpus uTt uCbs) =
      loaded cpus uTt (Function.update uCbs cpu (Floating.add (uCbs cpu) u)) := by
  rw [updateCpu, loaded, loaded, List.map_map]
  refine List.map_congr_left fun c _ => ?_
  by_cases hc : c = cpu
  · subst hc
    simp [PerCpuSchedule.new]
  · simp [PerCpuSchedule.new, hc]

theorem find?_loaded (hc : cpu ∈ cpus) : (loaded cpus uTt uCbs).find? (·.cpuId = cpu) =
    some { (.new cpu : PerCpuSchedule U) with uTt := uTt cpu, uCbs := uCbs cpu } := by
  have hmem : cpu ∈ stdSet cpus := mem_stdSet.2 hc
  rw [loaded, List.find?_map]
  have hfind : (stdSet cpus).find? (fun c => decide (c = cpu)) = some cpu := by
    obtain ⟨c, hc⟩ := Option.isSome_iff_exists.1
      ((List.find?_isSome (p := fun c => decide (c = cpu))).2 ⟨cpu, hmem, decide_eq_true rfl⟩)
    have heq : c = cpu := by simpa using List.find?_some hc
    rw [hc, heq]
  exact congrArg (Option.map _) hfind

theorem worstFitStep_loaded (hc : cpu ∈ cpus) (us : U) (best : ℤ × U) :
    worstFitStep (loaded cpus uTt uCbs) us best cpu =
      if Floating.le us (residual (uTt cpu) (uCbs cpu)) &&
        Floating.lt best.2 (residual (uTt cpu) (uCbs cpu))
      then (cpu, residual (uTt cpu) (uCbs cpu)) else best := by
  rw [worstFitStep, find?_loaded hc]
  rfl

end Loaded

/-! ### The loop over the TT workloads -/

theorem filter_filter_ne {tt : List ClassifiedTask} {w w' : Text} (h : w' ≠ w) :
    (tt.filter (·.workloadId ≠ w)).filter (·.workloadId = w') =
      tt.filter (·.workloadId = w') := by
  rw [List.filter_filter]
  refine List.filter_congr fun t _ => ?_
  by_cases ht : t.workloadId = w'
  · simp [ht, h]
  · simp [ht]

theorem mem_ttWorkloadIds_filter {tt : List ClassifiedTask} {w w' : Text} :
    w' ∈ ttWorkloadIds (tt.filter (·.workloadId ≠ w)) ↔ w' ∈ ttWorkloadIds tt ∧ w' ≠ w := by
  simp only [mem_ttWorkloadIds, List.mem_filter, decide_eq_true_eq]
  constructor
  · rintro ⟨t, ⟨ht, hne⟩, rfl⟩
    exact ⟨⟨t, ht, rfl⟩, hne⟩
  · rintro ⟨⟨t, ht, rfl⟩, hne⟩
    exact ⟨t, ⟨ht, hne⟩, rfl⟩

/-- The utilisation of a TT workload, summed up in the order of its tasks. -/
def workloadUtilization (tt : List ClassifiedTask) (wlId : Text) : U :=
  (tt.filter (·.workloadId = wlId)).foldl
    (fun u t => if 0 < t.periodUs then Floating.add u t.utilization else u) (Floating.ofDecimal 0 0)

/-- The utilisation of the TT workloads `ids` a CPU is dedicated to. -/
def ttUtilization (cpus : List ℤ) (ids : List Text) (tt : List ClassifiedTask) (cpu : ℤ) : U :=
  (ids.filter (dedicatedCpu cpus ids · = cpu)).foldl
    (fun u wlId => Floating.add u (workloadUtilization tt wlId)) (Floating.ofDecimal 0 0)

theorem dedicatedCpu_append {cpus : List ℤ} {ids ids' : List Text} {w : Text} (hw : w ∈ ids) :
    dedicatedCpu cpus (ids ++ ids') w = dedicatedCpu cpus ids w := by
  rw [dedicatedCpu, dedicatedCpu, List.idxOf_append_of_mem hw]

theorem workloadUtilization_map {tt : List ClassifiedTask} {f : ClassifiedTask → ClassifiedTask}
    (hf : ∀ t, ∃ cpu, f t = t.onCpu cpu) (w : Text) :
    (workloadUtilization (tt.map f) w : U) = workloadUtilization tt w := by
  have hwl : ∀ t, (f t).workloadId = t.workloadId := fun t => by
    obtain ⟨cpu, h⟩ := hf t
    rw [h]
    rfl
  rw [workloadUtilization, workloadUtilization, List.filter_map, List.foldl_map]
  have hfilter : tt.filter ((fun t : ClassifiedTask => decide (t.workloadId = w)) ∘ f) =
      tt.filter (·.workloadId = w) := List.filter_congr fun t _ => by simp [hwl]
  rw [hfilter]
  congr 1
  funext u t
  obtain ⟨cpu, h⟩ := hf t
  rw [h]
  rfl

theorem ttUtilization_append (cpus : List ℤ) {ids : List Text} {w : Text}
    (tt : List ClassifiedTask) :
    (ttUtilization cpus (ids ++ [w]) tt : ℤ → U) = Function.update (ttUtilization cpus ids tt)
      (dedicatedCpu cpus (ids ++ [w]) w)
      (Floating.add (ttUtilization cpus ids tt (dedicatedCpu cpus (ids ++ [w]) w))
        (workloadUtilization tt w)) := by
  funext c
  have hkeep : ids.filter (dedicatedCpu cpus (ids ++ [w]) · = c) =
      ids.filter (dedicatedCpu cpus ids · = c) :=
    List.filter_congr fun w' hw' => by rw [dedicatedCpu_append hw']
  by_cases hc : c = dedicatedCpu cpus (ids ++ [w]) w
  · subst hc
    rw [Function.update_self, ttUtilization, ttUtilization, List.filter_append, hkeep,
      List.filter_singleton, decide_eq_true rfl]
    simp
  · rw [Function.update_of_ne hc, ttUtilization, ttUtilization, List.filter_append, hkeep,
      List.filter_singleton, decide_eq_false (Ne.symm hc)]
    simp

/-- **The loads after the loop over the TT workloads.** -/
theorem cpuSchedules_foldl_assignTtWorkload {cpus : List ℤ} (hne : cpus ≠ []) {ids : List Text}
    (hnd : ids.Nodup) (tt : List ClassifiedTask) :
    (ids.foldl (assignTtWorkload cpus)
      { cpuIdx := 0, ttTasks := tt, cpuSchedules := (stdSet cpus).map .new }).cpuSchedules =
      loaded cpus (ttUtilization cpus ids tt : ℤ → U) unloaded := by
  induction ids using List.reverseRecOn with
  | nil => rfl
  | append_singleton ids w ih =>
    have hpos := List.length_pos_of_ne_nil hne
    rw [List.nodup_append_comm, List.singleton_append, List.nodup_cons] at hnd
    obtain ⟨hw, hnd⟩ := hnd
    obtain ⟨hidx, htt, -⟩ := foldl_assignTtWorkload hne hnd tt ((stdSet cpus).map (.new (U := U)))
    rw [List.foldl_append, List.foldl_cons, List.foldl_nil, assignTtWorkload]
    dsimp only
    rw [ih hnd, hidx, updateCpu_uTt_loaded]
    -- the CPU of this iteration is the dedicated one
    have hcpu : cpus.getD (if cpus.length ≤ min ids.length cpus.length then cpus.length - 1
        else min ids.length cpus.length) 0 = dedicatedCpu cpus (ids ++ [w]) w := by
      have hlast : (ids ++ [w]).idxOf w = ids.length := by
        rw [List.idxOf_append_of_notMem hw]; simp
      rw [dedicatedCpu, hlast]
      congr 1
      split_ifs <;> omega
    have hutil : (workloadUtilization (ids.foldl (assignTtWorkload cpus)
        { cpuIdx := 0, ttTasks := tt, cpuSchedules := (stdSet cpus).map (.new (U := U)) }).ttTasks w
        : U) = workloadUtilization tt w := by
      rw [htt]
      refine workloadUtilization_map (fun t => ?_) w
      split_ifs
      · exact ⟨_, rfl⟩
      · exact ⟨t.assignedCpu, rfl⟩
    rw [hcpu, ttUtilization_append]
    change loaded cpus (Function.update (ttUtilization cpus ids tt) _ (Floating.add _
      (workloadUtilization _ w))) unloaded = _
    rw [hutil]

/-! ### The loop over the CBS tasks -/

/-- The CPUs worst fit chooses for tasks with the given utilisations, and the CBS loads at the
end. -/
def worstFitRun (cpus : List ℤ) (uTt : ℤ → U) : (ℤ → U) → List U → Except Unit (List ℤ × (ℤ → U))
  | uCbs, [] => .ok ([], uCbs)
  | uCbs, us :: rest =>
    let cpu := worstFitCpu cpus (loaded cpus uTt uCbs) us
    if cpu < 0 then .error ()
    else (worstFitRun cpus uTt (Function.update uCbs cpu (Floating.add (uCbs cpu) us)) rest).map
      fun (chosen, uCbs) => (cpu :: chosen, uCbs)

theorem worstFitRun_cons {cpus : List ℤ} {uTt uCbs uCbs' : ℤ → U} {us : U} {rest : List U}
    {chosen : List ℤ} : worstFitRun cpus uTt uCbs (us :: rest) = .ok (chosen, uCbs') ↔
      ∃ cpu chosen', cpu = worstFitCpu cpus (loaded cpus uTt uCbs) us ∧ ¬ cpu < 0 ∧
        worstFitRun cpus uTt (Function.update uCbs cpu (Floating.add (uCbs cpu) us)) rest =
          .ok (chosen', uCbs') ∧ chosen = cpu :: chosen' := by
  rw [worstFitRun]
  dsimp only
  split_ifs with hneg
  · constructor
    · intro h; cases h
    · rintro ⟨_, _, rfl, hn, -, -⟩
      exact absurd hneg hn
  · constructor
    · intro h
      cases hr : worstFitRun cpus uTt _ rest with
      | error => rw [hr] at h; cases h
      | ok p => rw [hr] at h; cases h; exact ⟨_, _, rfl, hneg, hr, rfl⟩
    · rintro ⟨_, chosen', rfl, -, hr, rfl⟩
      rw [hr]
      rfl

theorem worstFitRun_append {cpus : List ℤ} {uTt uCbs uCbs' : ℤ → U} {us₁ us₂ : List U}
    {chosen : List ℤ} : worstFitRun cpus uTt uCbs (us₁ ++ us₂) = .ok (chosen, uCbs') ↔
      ∃ chosen₁ uCbs₁ chosen₂, worstFitRun cpus uTt uCbs us₁ = .ok (chosen₁, uCbs₁) ∧
        worstFitRun cpus uTt uCbs₁ us₂ = .ok (chosen₂, uCbs') ∧ chosen = chosen₁ ++ chosen₂ := by
  induction us₁ generalizing uCbs chosen with
  | nil =>
    constructor
    · intro h
      exact ⟨[], uCbs, chosen, rfl, h, rfl⟩
    · rintro ⟨_, _, chosen₂, h₁, h₂, rfl⟩
      cases h₁
      exact h₂
  | cons u us₁ ih =>
    rw [List.cons_append, worstFitRun_cons]
    constructor
    · rintro ⟨cpu, rest, hcpu, hneg, hrest, rfl⟩
      obtain ⟨chosen₁, uCbs₁, chosen₂, h₁, h₂, rfl⟩ := ih.1 hrest
      exact ⟨cpu :: chosen₁, uCbs₁, chosen₂,
        worstFitRun_cons.2 ⟨cpu, chosen₁, hcpu, hneg, h₁, rfl⟩, h₂, rfl⟩
    · rintro ⟨_, uCbs₁, chosen₂, h₁, h₂, rfl⟩
      obtain ⟨cpu, chosen₁, hcpu, hneg, hrest, rfl⟩ := worstFitRun_cons.1 h₁
      exact ⟨cpu, chosen₁ ++ chosen₂, hcpu, hneg,
        ih.2 ⟨chosen₁, uCbs₁, chosen₂, hrest, h₂, rfl⟩, rfl⟩

/-- The tasks with the CPUs chosen for them. -/
def assignAll (cbs : List ClassifiedTask) (choices : List (Fin cbs.length × ℤ)) :
    List ClassifiedTask :=
  choices.foldl (fun ts x => ts.modify x.1 (·.onCpu x.2)) cbs

section CbsLoop

variable {cpus : List ℤ} {uTt uCbs : ℤ → U} {cbs : List ClassifiedTask}

theorem assignCbsTask_loaded {ts : List ClassifiedTask} {idx : Fin cbs.length}
    {st : CbsAssignment U} :
    assignCbsTask cpus cbs ⟨ts, loaded cpus uTt uCbs⟩ idx = .ok st ↔
      ∃ cpu, cpu = worstFitCpu cpus (loaded cpus uTt uCbs) ((cbs.get idx).utilization : U) ∧
        ¬ cpu < 0 ∧ st = ⟨ts.modify idx (·.onCpu cpu), loaded cpus uTt
          (Function.update uCbs cpu (Floating.add (uCbs cpu) (cbs.get idx).utilization))⟩ := by
  unfold assignCbsTask
  dsimp only
  rw [updateCpu_uCbs_loaded]
  split_ifs with hneg
  · constructor
    · intro h; cases h
    · rintro ⟨_, rfl, hn, -⟩
      exact absurd hneg hn
  · constructor
    · intro h; cases h; exact ⟨_, rfl, hneg, rfl⟩
    · rintro ⟨_, rfl, -, rfl⟩
      rfl

/-- **The loop over the CBS tasks** is a run of worst fit over their utilisations. -/
theorem foldlM_assignCbsTask_loaded {idxs : List (Fin cbs.length)} {ts : List ClassifiedTask}
    {st : CbsAssignment U} :
    idxs.foldlM (assignCbsTask cpus cbs) ⟨ts, loaded cpus uTt uCbs⟩ = .ok st ↔
      ∃ chosen uCbs', worstFitRun cpus uTt uCbs (idxs.map fun i => (cbs.get i).utilization)
          = .ok (chosen, uCbs') ∧
        st = ⟨(idxs.zip chosen).foldl (fun ts x => ts.modify x.1 (·.onCpu x.2)) ts,
          loaded cpus uTt uCbs'⟩ := by
  induction idxs generalizing ts uCbs with
  | nil =>
    constructor
    · intro h; cases h; exact ⟨[], uCbs, rfl, rfl⟩
    · rintro ⟨chosen, uCbs', h, rfl⟩
      cases h
      rfl
  | cons idx idxs ih =>
    rw [foldlM_cons_eq_ok]
    simp only [List.map_cons, worstFitRun_cons, assignCbsTask_loaded]
    constructor
    · rintro ⟨_, ⟨cpu, hcpu, hneg, rfl⟩, h⟩
      obtain ⟨chosen, uCbs', hrun, rfl⟩ := ih.1 h
      exact ⟨cpu :: chosen, uCbs', ⟨cpu, chosen, hcpu, hneg, hrun, rfl⟩, rfl⟩
    · rintro ⟨_, uCbs', ⟨cpu, chosen, hcpu, hneg, hrun, rfl⟩, rfl⟩
      exact ⟨_, ⟨cpu, hcpu, hneg, rfl⟩, ih.2 ⟨chosen, uCbs', hrun, rfl⟩⟩

theorem worstFitRun_length {us : List U} {chosen : List ℤ} {uCbs' : ℤ → U}
    (h : worstFitRun cpus uTt uCbs us = .ok (chosen, uCbs')) : chosen.length = us.length := by
  induction us generalizing uCbs chosen with
  | nil => cases h; rfl
  | cons u us ih =>
    obtain ⟨cpu, chosen', -, -, hrun, rfl⟩ := worstFitRun_cons.1 h
    rw [List.length_cons, List.length_cons, ih hrun]

omit [Floating U] in
theorem getElem?_assignAll {choices : List (Fin cbs.length × ℤ)}
    (hnd : (choices.map Prod.fst).Nodup) {i : Fin cbs.length} {cpu : ℤ} (h : (i, cpu) ∈ choices) :
    (assignAll cbs choices)[i.val]? = some ((cbs.get i).onCpu cpu) := by
  -- the choices before and after that of `i` do not touch its task
  have hother : ∀ (cs : List (Fin cbs.length × ℤ)) (ts : List ClassifiedTask),
      i ∉ cs.map Prod.fst →
      (cs.foldl (fun ts x => ts.modify x.1 (·.onCpu x.2)) ts)[i.val]? = ts[i.val]? := by
    intro cs
    induction cs with
    | nil => exact fun _ _ => rfl
    | cons c cs ih =>
      intro ts hi
      rw [List.map_cons, List.mem_cons, not_or] at hi
      have hne : ¬ c.1.val = i.val := fun heq => hi.1 (Fin.ext heq.symm)
      rw [List.foldl_cons, ih _ hi.2, List.getElem?_modify]
      simp [hne]
  obtain ⟨before, after, rfl⟩ := List.append_of_mem h
  rw [List.map_append, List.map_cons, List.nodup_middle, List.nodup_cons, List.mem_append,
    not_or] at hnd
  rw [assignAll, List.foldl_append, List.foldl_cons, hother _ _ hnd.1.2, List.getElem?_modify,
    hother _ _ hnd.1.1, List.getElem?_eq_getElem i.isLt]
  simp

omit [Floating U] in
theorem length_assignAll (choices : List (Fin cbs.length × ℤ)) :
    (assignAll cbs choices).length = cbs.length := by
  induction choices using List.reverseRecOn with
  | nil => rfl
  | append_singleton choices x ih =>
    rw [assignAll, List.foldl_append, List.foldl_cons, List.foldl_nil, List.length_modify]
    exact ih

omit [Floating U] in
theorem perm_assignAll {choices : List (Fin cbs.length × ℤ)}
    (hperm : (choices.map Prod.fst).Perm (List.finRange cbs.length)) :
    (assignAll cbs choices).Perm (choices.map fun x => (cbs.get x.1).onCpu x.2) := by
  have hnd := hperm.nodup_iff.2 (List.nodup_finRange _)
  have hindex : ((choices.map fun x => (cbs.get x.1).onCpu x.2).map some) =
      ((choices.map Prod.fst).map Fin.val).map ((assignAll cbs choices)[·]?) := by
    rw [List.map_map, List.map_map, List.map_map]
    exact List.map_congr_left fun x hx => (getElem?_assignAll hnd hx).symm
  have hall : (assignAll cbs choices).map some =
      ((List.finRange cbs.length).map Fin.val).map ((assignAll cbs choices)[·]?) := by
    rw [List.map_coe_finRange_eq_range, ← length_assignAll choices]
    refine List.ext_getElem (by simp) fun i h₁ h₂ => ?_
    simp only [List.getElem_map, List.getElem_range]
    exact (List.getElem?_eq_getElem (by simpa using h₁)).symm
  have hsome : ((assignAll cbs choices).map some).Perm
      ((choices.map fun x => (cbs.get x.1).onCpu x.2).map some) := by
    rw [hall, hindex]
    exact (hperm.symm.map _).map _
  simpa using hsome.filterMap id

end CbsLoop

/-! ### The assignment -/

/-- The TT tasks a CPU of the node is dedicated to. -/
def ttTasksOn (cpus : List ℤ) (tt : List ClassifiedTask) (cpu : ℤ) : List ClassifiedTask :=
  tt.filter (dedicatedCpu cpus (ttWorkloadIds tt) ·.workloadId = cpu)

section Assignment

variable {G : GlobalScheduler U} {nodeId : Text} {tt cbs : List ClassifiedTask} {a : Assignment U}

/-- The TT loads of the CPUs of a node. -/
def ttLoads (G : GlobalScheduler U) (nodeId : Text) (tt : List ClassifiedTask) : ℤ → U :=
  ttUtilization (G.availableCpus nodeId) (ttWorkloadIds tt) tt

/-- The order in which the CBS tasks are assigned. -/
def cbsOrder (G : GlobalScheduler U) (cbs : List ClassifiedTask) : List (Fin cbs.length) :=
  G.stdSort.sort (fun a b => (cbs.get a).byUtilization U (cbs.get b)) (List.finRange cbs.length)

theorem perm_cbsOrder [LawfulFloating U] (G : GlobalScheduler U) (cbs : List ClassifiedTask) :
    (G.cbsOrder cbs).Perm (List.finRange cbs.length) :=
  G.stdSort.perm (ClassifiedTask.byUtilization_strictWeak.comap cbs.get) _

theorem perm_assignedTo [LawfulFloating U] {chosen : List ℤ}
    (hlen : chosen.length = (G.cbsOrder cbs).length) (c : ℤ) :
    (assignedTo c (assignAll cbs ((G.cbsOrder cbs).zip chosen))).Perm
      ((((G.cbsOrder cbs).zip chosen).filter (·.2 = c)).map fun x => (cbs.get x.1).onCpu x.2) := by
  have hfst : (((G.cbsOrder cbs).zip chosen).map Prod.fst).Perm (List.finRange cbs.length) := by
    rw [List.map_fst_zip hlen.ge]
    exact G.perm_cbsOrder cbs
  refine ((perm_assignAll hfst).filter _).trans (.of_eq ?_)
  rw [List.filter_map]
  rfl

theorem assignedTo_ne_nil_iff [LawfulFloating U] {chosen : List ℤ}
    (hlen : chosen.length = (G.cbsOrder cbs).length) (c : ℤ) :
    assignedTo c (assignAll cbs ((G.cbsOrder cbs).zip chosen)) ≠ [] ↔ c ∈ chosen := by
  have hsnd : ((G.cbsOrder cbs).zip chosen).map Prod.snd = chosen := List.map_snd_zip hlen.le
  rw [Ne, ← List.perm_nil, (perm_assignedTo hlen c).congr_left, List.perm_nil, List.map_eq_nil_iff,
    List.filter_eq_nil_iff]
  nth_rewrite 2 [← hsnd]
  simp

theorem assignedTo_ttTasks (cpus : List ℤ) (tt : List ClassifiedTask) (c : ℤ) :
    assignedTo c (tt.map fun t => t.onCpu (dedicatedCpu cpus (ttWorkloadIds tt) t.workloadId)) =
      (ttTasksOn cpus tt c).map (·.onCpu c) := by
  rw [assignedTo, List.filter_map, ttTasksOn]
  refine List.map_congr_left fun t ht => ?_
  have hcpu : dedicatedCpu cpus (ttWorkloadIds tt) t.workloadId = c :=
    of_decide_eq_true (List.mem_filter.1 ht).2
  rw [hcpu]

/-- **The assignment succeeds iff worst fit does.** -/
theorem assignCpus_eq_ok_iff : G.assignCpus nodeId tt cbs = .ok a ↔
    ∃ chosen uCbs, worstFitRun (G.availableCpus nodeId) (G.ttLoads nodeId tt) unloaded
        ((G.cbsOrder cbs).map fun i => (cbs.get i).utilization) = .ok (chosen, uCbs) ∧
      a = { ttTasks := tt.map fun t => t.onCpu
              (dedicatedCpu (G.availableCpus nodeId) (ttWorkloadIds tt) t.workloadId)
            cbsTasks := assignAll cbs ((G.cbsOrder cbs).zip chosen)
            cpuSchedules := loaded (G.availableCpus nodeId) (G.ttLoads nodeId tt) uCbs } := by
  have hloads := cpuSchedules_foldl_assignTtWorkload (U := U) (G.availableCpus_ne_nil nodeId)
    (nodup_ttWorkloadIds tt) tt
  constructor
  · intro h
    have htt := ttTasks_assignCpus h
    obtain ⟨st, hst, rfl⟩ := assignCpus_eq_ok h
    rw [hloads] at hst
    obtain ⟨chosen, uCbs, hrun, rfl⟩ := foldlM_assignCbsTask_loaded.1 hst
    exact ⟨chosen, uCbs, hrun, by rw [← htt]; rfl⟩
  · rintro ⟨chosen, uCbs, hrun, rfl⟩
    have hok : G.assignCpus nodeId tt cbs = .ok
        { ttTasks := ((ttWorkloadIds tt).foldl (assignTtWorkload (G.availableCpus nodeId))
            { cpuIdx := 0, ttTasks := tt
              cpuSchedules := (stdSet (G.availableCpus nodeId)).map (.new (U := U)) }).ttTasks
          cbsTasks := assignAll cbs ((G.cbsOrder cbs).zip chosen)
          cpuSchedules := loaded (G.availableCpus nodeId) (G.ttLoads nodeId tt) uCbs } := by
      refine bind_eq_ok.2 ⟨⟨assignAll cbs ((G.cbsOrder cbs).zip chosen),
        loaded (G.availableCpus nodeId) (G.ttLoads nodeId tt) uCbs⟩, ?_, rfl⟩
      rw [hloads]
      exact foldlM_assignCbsTask_loaded.2 ⟨chosen, uCbs, hrun, rfl⟩
    rw [hok, ← ttTasks_assignCpus hok]

end Assignment

end GlobalScheduler

end Timpani
