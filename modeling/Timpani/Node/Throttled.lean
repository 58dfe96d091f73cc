import Timpani.Bpf.Queues
import Timpani.Bpf.Enforcement
import Timpani.Node.Writes
import Timpani.Node.Exact

/-!
# Throttled tasks

A CBS task without budget waits in `DSQ_THROTTLED` until `dispatch` finds its server replenished.
To find the server `dispatch` goes through the metadata of the task, and both are written by the
daemon: a table or a STOP that takes away the metadata or the server of a task that is waiting
leaves it in the queue for good.

* `Throttling.notStranded_iff` : as long as the daemon leaves the metadata and the servers of the
  waiting tasks in place, every one of them is replenished some day and then moves over;
* `Throttling.stranded_by_stop` : a STOP strands a task.
-/

namespace Timpani

namespace BpfState

variable {s s' : BpfState} {pid pid' cpu : UInt32} {key : UInt64} {m : TaskMeta} {now : UInt64}

/-! ### Servers that are replenished -/

/-- The process is a CBS task, and its server gets a budget every period. -/
def Refilled (s : BpfState) (pid : UInt32) : Prop :=
  ∃ m c, s.taskMetaMap.lookup pid = some m ∧ m.schedulingType = .cbs ∧
    s.cbsMap.lookup m.cbsKey = some c ∧ 0 < c.periodUs ∧ 0 < c.budgetUs

/-- The period and the budget of a server. -/
def terms (s : BpfState) (key : UInt64) : Option (UInt32 × UInt32) :=
  (s.cbsMap.lookup key).map fun c => (c.periodUs, c.budgetUs)

/-- Whether a task is replenished depends on its registration and the terms of its server only. -/
theorem refilled_iff : s.Refilled pid ↔ ∃ r p b, s.registration pid = some r ∧
    r.schedulingType = .cbs ∧ s.terms (r.workloadIdHash ^^^ r.taskIdHash) = some (p, b) ∧
    0 < p ∧ 0 < b := by
  constructor
  · rintro ⟨m, c, hm, ht, hc, hp, hb⟩
    refine ⟨m.registration, c.periodUs, c.budgetUs, ?_, ht, ?_, hp, hb⟩
    · rw [registration, hm, Option.map_some]
    · exact Option.map_eq_some_iff.2 ⟨c, hc, rfl⟩
  · rintro ⟨r, p, b, hr, ht, hterms, hp, hb⟩
    obtain ⟨m, hm, rfl⟩ := Option.map_eq_some_iff.1 hr
    obtain ⟨c, hc, heq⟩ := Option.map_eq_some_iff.1 hterms
    cases heq
    exact ⟨m, c, hm, ht, hc, hp, hb⟩

theorem Frame.refilled_iff (h : Frame s s') (hterms : ∀ key, s'.terms key = s.terms key) :
    s'.Refilled pid ↔ s.Refilled pid := by
  simp only [BpfState.refilled_iff, h.registration, hterms]

theorem terms_of_onServer {f : CbsState → CbsState}
    (h : s'.cbsMap.lookup key = s.onServer pid f key)
    (hf : ∀ c, (f c).periodUs = c.periodUs ∧ (f c).budgetUs = c.budgetUs) :
    s'.terms key = s.terms key := by
  unfold terms
  rw [h, onServer]
  split_ifs
  · cases s.cbsMap.lookup key with
    | none => rfl
    | some c => simp [hf c]
  · rfl

theorem terms_dispatch : (s.dispatch cpu now).1.terms key = s.terms key := by
  refine dispatch_induction (P := fun t => t.terms key = s.terms key) rfl ?_ (fun _ _ h => h)
  intro acc pid h
  exact (terms_of_onServer lookup_cbsMap_promoteOne (by simp)).trans h

/-! ### The throttled queue -/

/-- A CBS task whose server has no budget at `now`. -/
def exhausted (s : BpfState) (now : UInt64) (pid : UInt32) : Bool :=
  (s.serverOf pid).any fun (_, c) => (c.lazyReplenish now).remainingUs = 0

theorem dsqThrottled_selectCpu {prevCpu : UInt32} :
    (s.selectCpu pid prevCpu now).1.dsqThrottled = s.dsqThrottled := by
  unfold selectCpu
  split
  · split_ifs <;> rfl
  · rfl

theorem dsqThrottled_enqueue : (s.enqueue pid now).1.dsqThrottled =
    if s.exhausted now pid then s.dsqThrottled ++ [pid] else s.dsqThrottled := by
  unfold enqueue exhausted
  cases hm : s.taskMetaMap.lookup pid with
  | none => simp [serverOf_of_none hm]
  | some m =>
    rw [serverOf_of_lookup hm]
    dsimp only
    cases ht : m.schedulingType with
    | tt =>
      simp only [reduceCtorEq, if_false, Option.any_none, Bool.false_eq_true]
      split_ifs
      · unfold markTtRunnable
        split_ifs <;> rfl
      · rfl
    | bestEffort => simp
    | cbs =>
      cases hc : s.cbsMap.lookup m.cbsKey with
      | none => simp
      | some c =>
        simp only [if_true, Option.map_some, Option.any_some, decide_eq_true_eq]
        split_ifs <;> rfl

theorem dsqThrottled_running : (s.running pid cpu now).1.dsqThrottled = s.dsqThrottled := by
  unfold running
  split <;> rfl

theorem dsqThrottled_stopping {runnable : Bool} :
    (s.stopping pid cpu runnable now).dsqThrottled = s.dsqThrottled := by
  have hcbs : ∀ m, (s.stoppingCbs pid m cpu now).dsqThrottled = s.dsqThrottled := by
    intro m
    unfold stoppingCbs
    split
    · rfl
    · dsimp only
      split_ifs <;> rfl
  have htt : ∀ m, (s.stoppingTt pid m cpu now).dsqThrottled = s.dsqThrottled := by
    intro m
    unfold stoppingTt markTtNotRunnable
    dsimp only
    split_ifs <;> rfl
  unfold stopping
  split
  · rfl
  · split
    · exact hcbs _
    · split_ifs
      · rfl
      · exact htt _
    · rfl

theorem dsqThrottled_dispatch_subset :
    (s.dispatch cpu now).1.dsqThrottled ⊆ s.dsqThrottled := by
  cases hactive : s.ttActiveOnCpu cpu now with
  | true => rw [dispatch_of_ttActive hactive]; exact List.Subset.refl _
  | false => rw [(taken_dispatch hactive).2.2]; exact List.diff_subset _ _

/-- The task leaves the throttled queue: it waits in `DSQ_CBS`, or the CPU has taken it. -/
def Moves (s : BpfState) (pid cpu : UInt32) (now : UInt64) : Prop :=
  (pid ∈ (s.dispatch cpu now).1.dsqCbs ∨ (s.dispatch cpu now).2 = some pid) ∧
    (s.dispatch cpu now).1.dsqThrottled.count pid < s.dsqThrottled.count pid

theorem moves_of_promotable (hpid : pid ∈ s.dsqThrottled.take 16)
    (hprom : s.promotable now pid = true) (hactive : s.ttActiveOnCpu cpu now = false) :
    s.Moves pid cpu now := by
  obtain ⟨htaken, hcbs, hthrottled⟩ := taken_dispatch hactive
  have hready : pid ∈ (s.dsqThrottled.take 16).filter (s.promotable now) :=
    List.mem_filter.2 ⟨hpid, hprom⟩
  have hwaiting : pid ∈ s.waiting now := List.mem_append_right _ hready
  constructor
  · rw [htaken, hcbs]
    cases hw : s.waiting now with
    | nil =>
      rw [hw] at hwaiting
      cases hwaiting
    | cons pid' rest =>
      rw [hw] at hwaiting
      rcases List.mem_cons.1 hwaiting with rfl | hrest
      · exact Or.inr rfl
      · exact Or.inl hrest
  · rw [hthrottled, List.count_diff]
    have hqueued := List.count_pos_iff.2 (List.mem_of_mem_take hpid)
    have hmoved := List.count_pos_iff.2 hready
    omega

theorem Refilled.promotable (h : s.Refilled pid) :
    ∃ late, ∀ now, late ≤ now → s.promotable now pid = true := by
  obtain ⟨m, c, hm, ht, hc, hp, hb⟩ := h
  refine ⟨c.replenishAtNs, fun now hle => ?_⟩
  have hfull : (c.lazyReplenish now).remainingUs = c.budgetUs := by
    rw [CbsState.lazyReplenish_of_le hp hle]
  simp [BpfState.promotable, serverOf_of_lookup hm, ht, hc, hfull, hb]

end BpfState

/-! ### Runs -/

namespace Throttling

open BpfState (Refilled Moves Frame)

inductive Action where
  | selectCpu (pid prevCpu : UInt32) (now : UInt64)
  | enqueue (pid : UInt32) (now : UInt64)
  | dispatch (cpu : UInt32) (now : UInt64)
  | running (pid cpu : UInt32) (now : UInt64)
  | stopping (pid cpu : UInt32) (runnable : Bool) (now : UInt64)
  | write (w : MapWrite)

/-- The callbacks and the writes of the daemon in any order, from empty maps. -/
def machine : Machine BpfState Action where
  init s := s.taskMetaMap = .empty ∧ s.cbsMap = .empty ∧ s.dsqCbs = [] ∧ s.dsqThrottled = []
  next s
    | .selectCpu pid prevCpu now => some (s.selectCpu pid prevCpu now).1
    | .enqueue pid now => some (s.enqueue pid now).1
    | .dispatch cpu now => some (s.dispatch cpu now).1
    | .running pid cpu now => some (s.running pid cpu now).1
    | .stopping pid cpu runnable now => some (s.stopping pid cpu runnable now)
    | .write w => some (w.apply s)

/-- Every task in `DSQ_THROTTLED` is a CBS task whose server is replenished. -/
def NotStranded (s : BpfState) : Prop := ∀ pid ∈ s.dsqThrottled, s.Refilled pid

/-- The daemon takes neither the metadata nor the server of a throttled task away, nor replaces them
by some that do not replenish it; no task is throttled whose server has no period or no budget. -/
def Careful (s : BpfState) : Action → Prop
  | .enqueue pid now => ∀ key c, s.serverOf pid = some (key, c) →
      (c.lazyReplenish now).remainingUs = 0 → 0 < c.periodUs ∧ 0 < c.budgetUs
  | .write (.updateTaskMeta pid r) => pid ∈ s.dsqThrottled → r.schedulingType = .cbs ∧
      ∃ c, s.cbsMap.lookup (r.workloadIdHash ^^^ r.taskIdHash) = some c ∧
        0 < c.periodUs ∧ 0 < c.budgetUs
  | .write (.deleteTaskMeta pid) => pid ∉ s.dsqThrottled
  | .write (.updateCbsState key c) => (∃ pid ∈ s.dsqThrottled, s.serves pid key = true) →
      0 < c.periodUs ∧ 0 < c.budgetUs
  | .write (.deleteCbsState key) => ∀ pid ∈ s.dsqThrottled, s.serves pid key = false
  | _ => True

variable {s s' : BpfState} {a : Action} {pid : UInt32} {now : UInt64}

theorem NotStranded.of_frame (h : NotStranded s) (hframe : Frame s s')
    (hterms : ∀ key, s'.terms key = s.terms key) (hqueue : s'.dsqThrottled ⊆ s.dsqThrottled) :
    NotStranded s' :=
  fun pid hpid => (hframe.refilled_iff hterms).2 (h pid (hqueue hpid))

theorem refilled_of_serverOf {key : UInt64} {c : CbsState} (h : s.serverOf pid = some (key, c)) :
    s.Refilled pid ↔ 0 < c.periodUs ∧ 0 < c.budgetUs := by
  cases hm : s.taskMetaMap.lookup pid with
  | none => simp [BpfState.serverOf_of_none hm] at h
  | some m =>
    rw [BpfState.serverOf_of_lookup hm] at h
    split_ifs at h with ht
    obtain ⟨c', hc, heq⟩ := Option.map_eq_some_iff.1 h
    cases heq
    simp [Refilled, hm, ht, hc]

theorem notStranded_enqueue_iff (h : NotStranded s) :
    NotStranded (s.enqueue pid now).1 ↔ Careful s (.enqueue pid now) := by
  have hsame : ∀ pid', (s.enqueue pid now).1.Refilled pid' ↔ s.Refilled pid' := fun pid' =>
    BpfState.frame_enqueue.refilled_iff fun key =>
      BpfState.terms_of_onServer BpfState.lookup_cbsMap_enqueue (by simp)
  have hjoins : NotStranded (s.enqueue pid now).1 ↔ (s.exhausted now pid = true → s.Refilled pid) := by
    simp only [NotStranded, hsame, BpfState.dsqThrottled_enqueue]
    split_ifs with hzero
    · constructor
      · exact fun hall _ => hall pid (List.mem_append_right _ (List.mem_singleton.2 rfl))
      · intro hpid pid' hmem
        rcases List.mem_append.1 hmem with hold | hnew
        · exact h pid' hold
        · exact List.mem_singleton.1 hnew ▸ hpid hzero
    · exact ⟨fun _ hpos => absurd hpos hzero, fun _ => h⟩
  rw [hjoins]
  unfold BpfState.exhausted Careful
  cases hserver : s.serverOf pid with
  | none => simp [hserver]
  | some server =>
    obtain ⟨key, c⟩ := server
    rw [refilled_of_serverOf hserver, Option.any_some, decide_eq_true_eq]
    constructor
    · intro hpos _ _ heq hzero
      cases hserver.symm.trans heq
      exact hpos hzero
    · exact fun hpos => hpos key c hserver

/-! ### Writes of the daemon -/

theorem refilled_updateTaskMeta {r : Registration} (hm : (s.taskMetaMap.lookup pid).isSome)
    (pid' : UInt32) : ((MapWrite.updateTaskMeta pid r).apply s).Refilled pid' ↔
      if pid = pid' then r.schedulingType = .cbs ∧
        ∃ c, s.cbsMap.lookup (r.workloadIdHash ^^^ r.taskIdHash) = some c ∧
          0 < c.periodUs ∧ 0 < c.budgetUs
      else s.Refilled pid' := by
  have hdone := BpfHash.update_eq_true (v := r.toMeta) hm
  unfold Refilled MapWrite.apply
  simp only [BpfHash.lookup_update, hdone, and_true]
  split_ifs
  · simp [Registration.toMeta, TaskMeta.cbsKey]
  · rfl

theorem notStranded_updateTaskMeta_iff {r : Registration} (h : NotStranded s) :
    NotStranded ((MapWrite.updateTaskMeta pid r).apply s) ↔
      Careful s (.write (.updateTaskMeta pid r)) := by
  by_cases hpid : pid ∈ s.dsqThrottled
  · obtain ⟨m, c, hm, -⟩ := h pid hpid
    have hiff := refilled_updateTaskMeta (r := r) (Option.isSome_of_eq_some hm)
    simp only [Careful, hpid, true_imp_iff]
    constructor
    · intro hall
      simpa using (hiff pid).1 (hall pid hpid)
    · intro hr pid' hpid'
      rw [hiff pid']
      split_ifs
      · exact hr
      · exact h pid' hpid'
  · refine iff_of_true (fun pid' hpid' => ?_) fun hmem => absurd hmem hpid
    obtain ⟨m, c, hm, hrest⟩ := h pid' hpid'
    refine ⟨m, c, ?_, hrest⟩
    have hne : pid ≠ pid' := fun heq => hpid (heq ▸ hpid')
    rw [MapWrite.apply, BpfHash.lookup_update, if_neg fun hk => hne hk.1, hm]

theorem notStranded_deleteTaskMeta_iff (h : NotStranded s) :
    NotStranded ((MapWrite.deleteTaskMeta pid).apply s) ↔
      Careful s (.write (.deleteTaskMeta pid)) := by
  constructor
  · intro hall hpid
    obtain ⟨m, c, hm, -⟩ := hall pid hpid
    rw [MapWrite.apply, BpfHash.lookup_delete, if_pos rfl] at hm
    cases hm
  · intro hnot pid' hpid'
    obtain ⟨m, c, hm, hrest⟩ := h pid' hpid'
    refine ⟨m, c, ?_, hrest⟩
    have hne : pid ≠ pid' := fun heq => hnot (heq ▸ hpid')
    rw [MapWrite.apply, BpfHash.lookup_delete, if_neg hne, hm]

theorem notStranded_updateCbsState_iff {key : UInt64} {c : CbsState} (h : NotStranded s) :
    NotStranded ((MapWrite.updateCbsState key c).apply s) ↔
      Careful s (.write (.updateCbsState key c)) := by
  constructor
  · rintro hall ⟨pid, hpid, hserves⟩
    obtain ⟨m, c₀, hm, -, hc₀, -⟩ := h pid hpid
    obtain ⟨m', c', hm', -, hc', hpos⟩ := hall pid hpid
    obtain rfl : m = m' := Option.some.inj (hm.symm.trans hm')
    obtain ⟨-, rfl⟩ := (BpfState.serves_of_lookup hm).1 hserves
    have hdone := BpfHash.update_eq_true (v := c) (Option.isSome_of_eq_some hc₀)
    rw [MapWrite.apply, BpfHash.lookup_update, if_pos ⟨rfl, hdone⟩] at hc'
    exact Option.some.inj hc' ▸ hpos
  · intro hok pid hpid
    obtain ⟨m, c₀, hm, ht, hc₀, hpos⟩ := h pid hpid
    by_cases hkey : m.cbsKey = key
    · have hdone := BpfHash.update_eq_true (v := c) (Option.isSome_of_eq_some hc₀)
      refine ⟨m, c, hm, ht, ?_, hok ⟨pid, hpid, (BpfState.serves_of_lookup hm).2 ⟨ht, hkey⟩⟩⟩
      rw [MapWrite.apply, BpfHash.lookup_update, if_pos ⟨hkey.symm, hkey ▸ hdone⟩]
    · refine ⟨m, c₀, hm, ht, ?_, hpos⟩
      rw [MapWrite.apply, BpfHash.lookup_update, if_neg fun hk => hkey hk.1.symm, hc₀]

theorem notStranded_deleteCbsState_iff {key : UInt64} (h : NotStranded s) :
    NotStranded ((MapWrite.deleteCbsState key).apply s) ↔
      Careful s (.write (.deleteCbsState key)) := by
  constructor
  · intro hall pid hpid
    refine Bool.eq_false_iff.2 fun hserves => ?_
    obtain ⟨m, c, hm, -, hc, -⟩ := hall pid hpid
    obtain ⟨-, rfl⟩ := (BpfState.serves_of_lookup hm).1 hserves
    rw [MapWrite.apply, BpfHash.lookup_delete, if_pos rfl] at hc
    cases hc
  · intro hok pid hpid
    obtain ⟨m, c, hm, ht, hc, hpos⟩ := h pid hpid
    refine ⟨m, c, hm, ht, ?_, hpos⟩
    have hne : key ≠ m.cbsKey := fun heq => by
      have hserves := (BpfState.serves_of_lookup hm).2 ⟨ht, heq.symm⟩
      exact Bool.false_ne_true ((hok pid hpid).symm.trans hserves)
    rw [MapWrite.apply, BpfHash.lookup_delete, if_neg hne, hc]

/-! ### Whole runs -/

theorem notStranded_next_iff (h : NotStranded s) (hn : machine.next s a = some s') :
    NotStranded s' ↔ Careful s a := by
  cases a with
  | selectCpu pid prevCpu now =>
    cases hn
    have hcbs : (s.selectCpu pid prevCpu now).1.cbsMap = s.cbsMap := by
      unfold BpfState.selectCpu
      split
      · split_ifs <;> rfl
      · rfl
    refine iff_of_true (h.of_frame BpfState.frame_selectCpu (fun key => ?_) ?_) trivial
    · rw [BpfState.terms, hcbs, BpfState.terms]
    · rw [BpfState.dsqThrottled_selectCpu]
      exact List.Subset.refl _
  | enqueue pid now =>
    cases hn
    exact notStranded_enqueue_iff h
  | dispatch cpu now =>
    cases hn
    exact iff_of_true (h.of_frame BpfState.frame_dispatch (fun key => BpfState.terms_dispatch)
      BpfState.dsqThrottled_dispatch_subset) trivial
  | running pid cpu now =>
    cases hn
    refine iff_of_true (h.of_frame BpfState.frame_running (fun key =>
      BpfState.terms_of_onServer BpfState.lookup_cbsMap_running (by simp)) ?_) trivial
    rw [BpfState.dsqThrottled_running]
    exact List.Subset.refl _
  | stopping pid cpu runnable now =>
    cases hn
    refine iff_of_true (h.of_frame BpfState.frame_stopping (fun key =>
      BpfState.terms_of_onServer BpfState.lookup_cbsMap_stopping (by simp)) ?_) trivial
    rw [BpfState.dsqThrottled_stopping]
    exact List.Subset.refl _
  | write w =>
    cases hn
    cases w with
    | updateTaskMeta pid r => exact notStranded_updateTaskMeta_iff h
    | deleteTaskMeta pid => exact notStranded_deleteTaskMeta_iff h
    | updateCbsState key c => exact notStranded_updateCbsState_iff h
    | deleteCbsState key => exact notStranded_deleteCbsState_iff h
    | updateTtSlot key slot => exact iff_of_true h trivial
    | deleteTtSlot key => exact iff_of_true h trivial

/-- **When no throttled task is stranded**: in every run of careful steps; each of the first 16 tasks
of the queue then moves over when a CPU without TT work looks for work late enough.  Any step that is
not careful strands a task. -/
theorem notStranded_iff (s : BpfState) (h : machine.ReachableIf Careful s) :
    NotStranded s ∧
      (∀ pid ∈ s.dsqThrottled.take 16, ∃ late, ∀ cpu now, late ≤ now →
        s.ttActiveOnCpu cpu now = false → s.Moves pid cpu now) ∧
      ∀ a s', machine.next s a = some s' → (NotStranded s' ↔ Careful s a) := by
  have hs : NotStranded s := by
    refine h.invariant ?_ fun s a s' hs hok hn => (notStranded_next_iff hs hn).2 hok
    rintro s ⟨-, -, -, hqueue⟩ pid hpid
    rw [hqueue] at hpid
    cases hpid
  refine ⟨hs, fun pid hpid => ?_, fun a s' hn => notStranded_next_iff hs hn⟩
  obtain ⟨late, hlate⟩ := (hs pid (List.mem_of_mem_take hpid)).promotable
  exact ⟨late, fun cpu now hle => BpfState.moves_of_promotable hpid (hlate now hle)⟩

/-! ### A task that is stopped while it is throttled -/

open Daemon (started tableOf sampleServer finding)

theorem leads_of_written {ok : BpfState → Action → Prop} (h : BpfState.Written s s')
    (hok : ∀ s₁ w, s₁.dsqThrottled = s.dsqThrottled → ok s₁ (.write w)) :
    machine.Leads ok s s' := by
  obtain ⟨ws, rfl⟩ := h
  induction ws generalizing s with
  | nil => exact .refl
  | cons w ws ih =>
    have hqueue : (w.apply s).dsqThrottled = s.dsqThrottled := by cases w <;> rfl
    exact .head ⟨.write w, hok s w rfl, rfl⟩ (ih fun s₁ w h₁ => hok s₁ w (h₁.trans hqueue))

theorem careful_of_empty (h : s.dsqThrottled = []) (w : MapWrite) : Careful s (.write w) := by
  cases w <;> simp [Careful, h]

/-- The node after a table with one CBS task, which is found as process 8. -/
def oneServer : Node :=
  (started.node.tableCallback (finding [some 8]) (fun _ => 0) (tableOf [] [sampleServer "b" "u"])).1

/-- The task uses up its budget and wakes up again. -/
def usesUp : List Action :=
  [.enqueue 8 1000, .dispatch 2 1000, .running 8 2 1000, .stopping 8 2 false 1001000,
    .enqueue 8 1002000]

theorem reachableIf_oneServer : machine.ReachableIf Careful oneServer.bpf := by
  have hinit : machine.init started.node.bpf := ⟨rfl, rfl, rfl, rfl⟩
  exact (Machine.ReachableIf.of_init hinit).leads
    (leads_of_written (Node.written_tableCallback _ _ _ _) fun _ w hs => careful_of_empty hs w)

/-- A STOP of its workload deletes the metadata and the server of a throttled task; it has no budget
at any later time. -/
theorem stranded_by_stop :
    ∃ s, machine.exec oneServer.bpf usesUp = some s ∧ s.dsqThrottled = [8] ∧ s.Refilled 8 ∧
      ∃ s', s' = ({ oneServer with bpf := s }.stopWorkload (text "b")).bpf ∧
        machine.Reachable s' ∧ ¬ NotStranded s' ∧ ∀ now, s'.promotable now 8 = false := by
  have heval : (machine.exec oneServer.bpf usesUp).any (fun s =>
      decide (s.dsqThrottled = [8] ∧
        (s.serverOf 8).any (fun (_, c) => 0 < c.periodUs ∧ 0 < c.budgetUs) = true ∧
        (({ oneServer with bpf := s }.stopWorkload (text "b")).bpf.taskMetaMap.lookup 8) = none))
      = true := by decide +kernel
  obtain ⟨s, hs, hall⟩ := (Option.any_eq_true _ _).1 heval
  obtain ⟨hqueue, hserver, hnone⟩ := of_decide_eq_true hall
  obtain ⟨⟨key, c⟩, hsome, hpos⟩ := (Option.any_eq_true _ _).1 hserver
  have hreach : machine.Reachable s :=
    (reachableIf_oneServer.mono fun _ _ _ => trivial).leads
      (Machine.leads_of_exec (fun _ _ _ => trivial) hs)
  refine ⟨s, hs, hqueue, (refilled_of_serverOf hsome).2 (of_decide_eq_true hpos), _, rfl,
    hreach.leads (leads_of_written (Node.written_stopWorkload { oneServer with bpf := s } _)
      fun _ _ _ => trivial), fun hall => ?_, fun now => ?_⟩
  · obtain ⟨m, _, hm, -⟩ := hall 8 (hqueue ▸ List.mem_singleton.2 rfl)
    rw [hnone] at hm
    cases hm
  · rw [BpfState.promotable, BpfState.serverOf_of_none hnone, Option.any_none]

/-- A callback that throttles no task without a budget per period. -/
def servedOnly (s : BpfState) : Action → Bool
  | .enqueue pid _ => (s.serverOf pid).all fun (_, c) => 0 < c.periodUs ∧ 0 < c.budgetUs
  | .write _ => false
  | _ => true

theorem careful_of_servedOnly (h : servedOnly s a = true) : Careful s a := by
  cases a with
  | enqueue pid now =>
    intro key c hserver _
    simpa [servedOnly, hserver] using h
  | write w => cases h
  | selectCpu | dispatch | running | stopping => trivial

/-- The task is throttled and will move. -/
theorem notStranded_while_throttled :
    ∃ s, machine.ReachableIf Careful s ∧ s.dsqThrottled = [8] ∧
      (NotStranded s ∧
        (∀ pid ∈ s.dsqThrottled.take 16, ∃ late, ∀ cpu now, late ≤ now →
          s.ttActiveOnCpu cpu now = false → s.Moves pid cpu now) ∧
        ∀ a s', machine.next s a = some s' → (NotStranded s' ↔ Careful s a)) := by
  have heval : (machine.execIf servedOnly oneServer.bpf usesUp).any
      (fun s => decide (s.dsqThrottled = [8])) = true := by decide +kernel
  obtain ⟨s, hs, hqueue⟩ := (Option.any_eq_true _ _).1 heval
  have hreach : machine.ReachableIf Careful s := reachableIf_oneServer.leads
    (Machine.leads_of_execIf (fun _ _ => careful_of_servedOnly) hs)
  exact ⟨s, hreach, of_decide_eq_true hqueue, notStranded_iff s hreach⟩

end Throttling

end Timpani
