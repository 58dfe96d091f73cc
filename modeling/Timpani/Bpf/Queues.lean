import Timpani.Bpf.Accounting
import Timpani.Bpf.Frame

/-!
# The queues of the CBS tasks

All CBS tasks of a node share two queues: those with budget wait in `DSQ_CBS`, those without in
`DSQ_THROTTLED`.  A CPU without TT work that has nothing to run first moves throttled tasks whose
servers are replenished over, looking at no more than 16, and then takes the first task of
`DSQ_CBS`.  The CPU a task is assigned to plays no role in this.

* `queues_promoteThrottledIfReplenished` : what moves from one queue to the other;
* `taken_dispatch` : the task a CPU takes;
* `Placement.takenLocally_iff` : every task is taken by the CPU it is assigned to as long as no CPU
  looks for work while a task of another CPU is first in the queue, and no longer;
* `Placement.taken_elsewhere` : a CPU that has nothing to do takes the task of another one.
-/

namespace Timpani

namespace CbsState

theorem remainingUs_lazyReplenish_lazyReplenish (c : CbsState) (now : UInt64) :
    ((c.lazyReplenish now).lazyReplenish now).remainingUs = (c.lazyReplenish now).remainingUs := by
  by_cases h : c.periodUs = 0 ∨ now < c.replenishAtNs
  · have hsame : c.lazyReplenish now = c := if_pos h
    rw [hsame, hsame]
  · have hfull : (c.lazyReplenish now).remainingUs = c.budgetUs ∧
        (c.lazyReplenish now).budgetUs = c.budgetUs := by
      rw [lazyReplenish, if_neg h]
      exact ⟨rfl, rfl⟩
    rw [hfull.1]
    generalize c.lazyReplenish now = c' at hfull
    unfold lazyReplenish
    split_ifs
    · exact hfull.1
    · exact hfull.2

end CbsState

namespace BpfState

variable {s : BpfState} {pid pid' cpu : UInt32} {now : UInt64} {acc : BpfState × List UInt32}

/-! ### Promotion -/

/-- A CBS task whose server has budget at `now`. -/
def promotable (s : BpfState) (now : UInt64) (pid : UInt32) : Bool :=
  (s.serverOf pid).any fun (_, c) => 0 < (c.lazyReplenish now).remainingUs

/-- The CBS tasks a CPU that looks for work can choose from, in their order. -/
def waiting (s : BpfState) (now : UInt64) : List UInt32 :=
  s.dsqCbs ++ (s.dsqThrottled.take 16).filter (s.promotable now)

theorem serverOf_of_lookup {m : TaskMeta} (hm : s.taskMetaMap.lookup pid = some m) :
    s.serverOf pid =
      if m.schedulingType = .cbs then (s.cbsMap.lookup m.cbsKey).map (m.cbsKey, ·) else none := by
  unfold serverOf
  rw [hm]
  dsimp only [Option.bind_eq_bind, Option.bind_some]
  split_ifs
  · cases s.cbsMap.lookup m.cbsKey <;> rfl
  · rfl

theorem serverOf_of_none (hm : s.taskMetaMap.lookup pid = none) : s.serverOf pid = none := by
  unfold serverOf
  rw [hm]
  rfl

theorem taskMetaMap_promoteOne : (promoteOne now acc pid).1.taskMetaMap = acc.1.taskMetaMap := by
  obtain ⟨_, _, _, h⟩ := @exists_promoteOne_eq now acc pid
  rw [h]

theorem queues_promoteOne :
    (promoteOne now acc pid).1.dsqCbs =
        acc.1.dsqCbs ++ (if acc.1.promotable now pid then [pid] else []) ∧
      (promoteOne now acc pid).1.dsqThrottled =
        if acc.1.promotable now pid then acc.1.dsqThrottled.erase pid else acc.1.dsqThrottled := by
  obtain ⟨s, kicks⟩ := acc
  cases hm : s.taskMetaMap.lookup pid with
  | none => simp [promotable, serverOf_of_none hm, promoteOne, hm]
  | some m =>
    have hserver := serverOf_of_lookup hm
    by_cases ht : m.schedulingType = .cbs
    · rw [if_pos ht] at hserver
      cases hc : s.cbsMap.lookup m.cbsKey with
      | none => simp [promotable, hserver, promoteOne, hm, ht, hc]
      | some c =>
        by_cases hpos : 0 < (c.lazyReplenish now).remainingUs <;>
          simp [promotable, hserver, promoteOne, hm, ht, hc, hpos]
    · rw [if_neg ht] at hserver
      simp [promotable, hserver, promoteOne, hm, ht]

theorem promotable_promoteOne :
    (promoteOne now acc pid').1.promotable now pid = acc.1.promotable now pid := by
  have hmetas : (promoteOne now acc pid').1.taskMetaMap.lookup pid =
      acc.1.taskMetaMap.lookup pid := by rw [taskMetaMap_promoteOne]
  unfold promotable
  cases hm : acc.1.taskMetaMap.lookup pid with
  | none => rw [serverOf_of_none hm, serverOf_of_none (hmetas.trans hm)]
  | some m =>
    rw [serverOf_of_lookup hm, serverOf_of_lookup (hmetas.trans hm), lookup_cbsMap_promoteOne,
      onServer]
    split_ifs
    · cases acc.1.cbsMap.lookup m.cbsKey with
      | none => rfl
      | some c => simp [c.remainingUs_lazyReplenish_lazyReplenish]
    · rfl
    · rfl

/-- **What moves from one queue to the other.** -/
theorem queues_promoteThrottledIfReplenished :
    (s.promoteThrottledIfReplenished now).1.dsqCbs = s.waiting now ∧
      (s.promoteThrottledIfReplenished now).1.dsqThrottled =
        s.dsqThrottled.diff ((s.dsqThrottled.take 16).filter (s.promotable now)) := by
  have hfold : ∀ (pids : List UInt32) (acc : BpfState × List UInt32),
      (pids.foldl (promoteOne now) acc).1.dsqCbs =
          acc.1.dsqCbs ++ pids.filter (acc.1.promotable now) ∧
        (pids.foldl (promoteOne now) acc).1.dsqThrottled =
          acc.1.dsqThrottled.diff (pids.filter (acc.1.promotable now)) := by
    intro pids
    induction pids with
    | nil => simp
    | cons pid pids ih =>
      intro acc
      obtain ⟨hcbs, hthrottled⟩ := @queues_promoteOne pid now acc
      obtain ⟨ih₁, ih₂⟩ := ih (promoteOne now acc pid)
      have hsame : (promoteOne now acc pid).1.promotable now = acc.1.promotable now :=
        funext fun _ => promotable_promoteOne
      rw [hsame] at ih₁ ih₂
      rw [List.foldl_cons, ih₁, ih₂, hcbs, hthrottled, List.filter_cons]
      split_ifs <;> simp
  exact hfold _ (s, [])

/-! ### Dispatch -/

/-- A CPU without TT work takes the first task that is waiting. -/
theorem taken_dispatch (h : s.ttActiveOnCpu cpu now = false) :
    (s.dispatch cpu now).2 = (s.waiting now).head? ∧
      (s.dispatch cpu now).1.dsqCbs = (s.waiting now).tail ∧
      (s.dispatch cpu now).1.dsqThrottled =
        s.dsqThrottled.diff ((s.dsqThrottled.take 16).filter (s.promotable now)) := by
  obtain ⟨hcbs, hthrottled⟩ := @queues_promoteThrottledIfReplenished s now
  unfold dispatch
  rw [if_neg (by simp [h])]
  dsimp only
  rw [← hcbs, ← hthrottled]
  split
  · next heq => simp [heq]
  · next heq => simp [heq]

theorem taskMetaMap_dispatch : (s.dispatch cpu now).1.taskMetaMap = s.taskMetaMap := by
  obtain ⟨_, _, _, h⟩ := s.exists_dispatch_eq cpu now
  rw [h]

theorem dispatch_of_ttActive (h : s.ttActiveOnCpu cpu now = true) :
    s.dispatch cpu now = (s, none) := if_pos h

theorem TtFrame.ttActiveOnCpu {s' : BpfState} (h : TtFrame s s') (cpu : UInt32) (now : UInt64) :
    s'.ttActiveOnCpu cpu now = s.ttActiveOnCpu cpu now := by
  rw [BpfState.ttActiveOnCpu, h.counts, h.active, BpfState.ttActiveOnCpu]

/-! ### Assignment -/

/-- If the process is a CBS task, it is assigned to the CPU. -/
def AssignedTo (s : BpfState) (pid cpu : UInt32) : Prop :=
  ∀ m, s.taskMetaMap.lookup pid = some m → m.schedulingType = .cbs → m.assignedCpu = cpu

theorem assignedTo_iff : s.AssignedTo pid cpu ↔
    ∀ r, s.registration pid = some r → r.schedulingType = .cbs → r.assignedCpu = cpu := by
  unfold AssignedTo registration
  cases s.taskMetaMap.lookup pid with
  | none => simp
  | some m => simp [TaskMeta.registration]

theorem Frame.assignedTo_iff {s' : BpfState} (h : Frame s s') :
    s'.AssignedTo pid cpu ↔ s.AssignedTo pid cpu := by
  rw [BpfState.assignedTo_iff, h.registration, BpfState.assignedTo_iff]

end BpfState

/-! ### Runs -/

/-- The BPF state, and which CPU took which CBS task. -/
structure Placement where
  bpf : BpfState
  taken : List (UInt32 × UInt32)

namespace Placement

inductive Action where
  | selectCpu (pid prevCpu : UInt32) (now : UInt64)
  | enqueue (pid : UInt32) (now : UInt64)
  | dispatch (cpu : UInt32) (now : UInt64)

/-- Tasks wake up and CPUs look for work, in any order; any tasks are registered. -/
def machine : Machine Placement Action where
  init k := k.bpf.dsqCbs = [] ∧ k.bpf.dsqThrottled = [] ∧ k.taken = []
  next k
    | .selectCpu pid prevCpu now => some { k with bpf := (k.bpf.selectCpu pid prevCpu now).1 }
    | .enqueue pid now => some { k with bpf := (k.bpf.enqueue pid now).1 }
    | .dispatch cpu now => some
        { bpf := (k.bpf.dispatch cpu now).1
          taken := k.taken ++ ((k.bpf.dispatch cpu now).2.map fun pid => (cpu, pid)).toList }

/-- Every CBS task was taken by the CPU it is assigned to. -/
def TakenLocally (k : Placement) : Prop := ∀ t ∈ k.taken, k.bpf.AssignedTo t.2 t.1

/-- When a CPU without TT work looks for work, the CBS task that is first in the queue is its own. -/
def OwnFirst (k : Placement) : Action → Prop
  | .dispatch cpu now => k.bpf.ttActiveOnCpu cpu now = false →
      ∀ pid ∈ (k.bpf.waiting now).head?, k.bpf.AssignedTo pid cpu
  | _ => True

variable {k k' : Placement} {a : Action} {pid cpu : UInt32} {now : UInt64}

/-- One callback: tasks stay on their CPUs iff the CPU does not find that of another one. -/
theorem TakenLocally.next_iff (h : TakenLocally k) (hn : machine.next k a = some k') :
    TakenLocally k' ↔ OwnFirst k a := by
  cases a with
  | selectCpu pid prevCpu now =>
    cases hn
    exact iff_of_true (fun t ht => BpfState.frame_selectCpu.assignedTo_iff.2 (h t ht)) trivial
  | enqueue pid now =>
    cases hn
    exact iff_of_true (fun t ht => BpfState.frame_enqueue.assignedTo_iff.2 (h t ht)) trivial
  | dispatch cpu now =>
    cases hn
    constructor
    · intro hlocal hactive pid hpid
      have htaken : (k.bpf.dispatch cpu now).2 = some pid := (BpfState.taken_dispatch hactive).1.trans hpid
      exact BpfState.frame_dispatch.assignedTo_iff.1
        (hlocal (cpu, pid) (List.mem_append_right _ (by simp [htaken])))
    · intro hok t ht
      rw [BpfState.frame_dispatch.assignedTo_iff]
      rcases List.mem_append.1 ht with ht | ht
      · exact h t ht
      · obtain ⟨pid, hpid, rfl⟩ := Option.map_eq_some_iff.1 (Option.mem_toList.1 ht)
        cases hactive : k.bpf.ttActiveOnCpu cpu now with
        | true =>
          rw [BpfState.dispatch_of_ttActive hactive] at hpid
          cases hpid
        | false =>
          rw [(BpfState.taken_dispatch hactive).1] at hpid
          exact hok hactive pid hpid

/-- **When CBS tasks stay on their CPUs**: in every run in which no CPU looks for work while a task of
another CPU is first in the queue; a CPU that does look for work then takes that task. -/
theorem takenLocally_iff (k : Placement) (h : machine.ReachableIf OwnFirst k) :
    TakenLocally k ∧ ∀ a k', machine.next k a = some k' → (TakenLocally k' ↔ OwnFirst k a) := by
  have hlocal : TakenLocally k := by
    refine h.invariant ?_ fun k a k' hk hok hn => (hk.next_iff hn).2 hok
    rintro k ⟨-, -, htaken⟩ t ht
    rw [htaken] at ht
    cases ht
  exact ⟨hlocal, fun a k' hn => hlocal.next_iff hn⟩

/-- The isolated CPUs 2 and 3, and a CBS task for CPU 2 with a budget of 1 ms every 10 ms. -/
def oneTask : Placement where
  bpf := { Kernel.booted.bpf with
    isolatedCpuMask := 12
    taskMetaMap := (BpfHash.empty.update 7
      (Registration.toMeta ⟨1, 2, 2, 0, .cbs, 1⟩)).1
    cbsMap := (BpfHash.empty.update (1 ^^^ 2) ⟨2, 1000, 10000, 1000, 0, 10000000, 0⟩).1 }
  taken := []

theorem init_oneTask : machine.init oneTask := ⟨rfl, rfl, rfl⟩

/-- CPU 3 has nothing to do and takes the task of CPU 2. -/
theorem taken_elsewhere :
    ∃ k, machine.Reachable k ∧ (3, 7) ∈ k.taken ∧
      (k.bpf.taskMetaMap.lookup 7).map (fun m => (m.schedulingType, m.assignedCpu)) =
        some (.cbs, 2) ∧ ¬ TakenLocally k := by
  have heval : (machine.exec oneTask
      [.selectCpu 7 3 1000, .enqueue 7 1000, .dispatch 3 2000]).any (fun k =>
      decide ((3, 7) ∈ k.taken ∧ (k.bpf.taskMetaMap.lookup 7).map
        (fun m => (m.schedulingType, m.assignedCpu)) = some (.cbs, 2))) = true := by decide +kernel
  obtain ⟨k, hk, hall⟩ := (Option.any_eq_true _ _).1 heval
  obtain ⟨htaken, hmeta⟩ := of_decide_eq_true hall
  refine ⟨k, Machine.reachable_of_exec init_oneTask hk, htaken, hmeta, fun hlocal => ?_⟩
  obtain ⟨m, hm, heq⟩ := Option.map_eq_some_iff.1 hmeta
  obtain ⟨ht, hcpu⟩ := Prod.mk.inj heq
  have : (2 : UInt32) = 3 := hcpu ▸ hlocal (3, 7) htaken m hm ht
  exact absurd this (by decide)

/-- CPU 2 takes its own task. -/
theorem takenLocally_own_cpu :
    ∃ k, machine.ReachableIf OwnFirst k ∧ k.taken = [(2, 7)] ∧
      (TakenLocally k ∧ ∀ a k', machine.next k a = some k' → (TakenLocally k' ↔ OwnFirst k a)) := by
  -- the server has budget, and the task is the only one
  have henqueued : (machine.exec oneTask [.selectCpu 7 3 1000, .enqueue 7 1000]).any (fun k =>
      decide (k.bpf.waiting 2000 = [7] ∧
        (k.bpf.taskMetaMap.lookup 7).map (·.assignedCpu) = some 2 ∧
        (k.bpf.dispatch 2 2000).2 = some 7 ∧ k.taken = [])) = true := by decide +kernel
  obtain ⟨k, hk, hall⟩ := (Option.any_eq_true _ _).1 henqueued
  obtain ⟨hwaiting, hmeta, hdispatch, htaken⟩ := of_decide_eq_true hall
  have hreach : machine.ReachableIf OwnFirst k := by
    refine ⟨oneTask, init_oneTask, Machine.leads_of_exec ?_ hk⟩
    simp only [List.mem_cons, List.not_mem_nil, or_false]
    rintro a (rfl | rfl) k <;> trivial
  have hown : OwnFirst k (.dispatch 2 2000) := by
    intro _ pid hpid m hm _
    rw [hwaiting] at hpid
    obtain rfl : 7 = pid := Option.some.inj hpid
    rw [hm] at hmeta
    exact Option.some.inj hmeta
  have hnext := hreach.next hown rfl
  exact ⟨_, hnext, by simp [htaken, hdispatch], takenLocally_iff _ hnext⟩

end Placement

end Timpani
