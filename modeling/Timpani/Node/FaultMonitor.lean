import Timpani.Bpf.Callbacks
import Mathlib.Data.List.DropRight

/-!
# FaultMonitor

FaultMonitor reads the fault events of the BPF scheduler from the ring buffer and decides which of
them the orchestrator hears about.  A deadline miss is reported only when its task has missed more
often than its limit allows, and then once per workload; all other faults are.  The counts, the
limits and the reported workloads are three maps; a new table clears them all and sets new limits.

* `ringBufCallback_dmiss` : what one deadline miss does;
* `Tracks` : the three maps as functions of the calls made so far;
* `tracks_run` : **the maps follow the history**, for every sequence of calls;
* `report_policy` : **the reporting policy** in terms of the history.
-/

namespace Timpani

/-- The key of the per-task maps, a pair of hashes in the order of `std::pair`. -/
structure TaskKey where
  workloadIdHash : UInt64
  taskIdHash : UInt64
  deriving DecidableEq, Repr

instance : Ord TaskKey :=
  ⟨compareLex (compareOn TaskKey.workloadIdHash) (compareOn TaskKey.taskIdHash)⟩

instance : Std.TransOrd TaskKey := inferInstanceAs
  (Std.TransCmp (compareLex (compareOn TaskKey.workloadIdHash) (compareOn TaskKey.taskIdHash)))

instance : Std.LawfulEqOrd TaskKey where
  eq_of_compare {a b} h := by
    have hlex : (compare a.workloadIdHash b.workloadIdHash).then
        (compare a.taskIdHash b.taskIdHash) = .eq := h
    obtain ⟨hw, ht⟩ := Ordering.then_eq_eq.1 hlex
    cases a
    cases b
    rw [TaskKey.mk.injEq]
    exact ⟨Std.LawfulEqOrd.eq_of_compare hw, Std.LawfulEqOrd.eq_of_compare ht⟩

/-- The key of the task an event is about. -/
def FaultEvent.key (e : FaultEvent) : TaskKey where
  workloadIdHash := e.workloadIdHash
  taskIdHash := e.taskIdHash

/-- The limits of the tasks, by key. -/
abbrev CurrentLimits := Std.ExtTreeMap TaskKey UInt32

structure FaultMonitor where
  taskDmissCounts : Std.ExtTreeMap TaskKey UInt32
  taskCurrentLimits : CurrentLimits
  workloadReported : Std.ExtTreeMap UInt64 Bool
  /-- A callback is set. -/
  callback : Bool

namespace FaultMonitor

/-- The constructor. -/
def new : FaultMonitor where
  taskDmissCounts := ∅
  taskCurrentLimits := ∅
  workloadReported := ∅
  callback := false

/-- `set_callback` -/
def setCallback (m : FaultMonitor) : FaultMonitor := { m with callback := true }

/-- `update_current_limits` -/
def updateCurrentLimits (m : FaultMonitor) (limits : CurrentLimits) : FaultMonitor :=
  { m with taskCurrentLimits := limits }

/-- `clear_state` -/
def clearState (m : FaultMonitor) : FaultMonitor :=
  { m with taskDmissCounts := ∅, taskCurrentLimits := ∅, workloadReported := ∅ }

/-- The call of the callback, with the event and its count, if there is a callback. -/
def invoke (m : FaultMonitor) (event : FaultEvent) (dmissCount : UInt32) :
    Option (FaultEvent × UInt32) :=
  if m.callback then some (event, dmissCount) else none

/-- `ring_buf_callback`: the monitor after an event, and what the callback is called with. -/
def ringBufCallback (m : FaultMonitor) (event : FaultEvent) :
    FaultMonitor × Option (FaultEvent × UInt32) :=
  match event.faultType with
  | .dmiss =>
    let counts := m.taskDmissCounts.insert event.key (m.taskDmissCounts.getD event.key 0 + 1)
    let currentDmiss := counts.getD event.key 0
    let m := { m with taskDmissCounts := counts }
    match m.taskCurrentLimits[event.key]? with
    | some currentLimit =>
      if 0 < currentLimit then
        if currentDmiss > currentLimit then
          if m.workloadReported.getD event.workloadIdHash false then (m, none)
          else
            ({ m with workloadReported := m.workloadReported.insert event.workloadIdHash true },
              m.invoke event currentDmiss)
        else (m, none)
      else (m, none)
    | none => (m, none)
  | .budgetExceed => (m, m.invoke event 0)

/-! ### One deadline miss -/

variable {m : FaultMonitor} {e : FaultEvent}

/-- The task has a limit, and `n` misses are more than it allows. -/
def exceeded (m : FaultMonitor) (key : TaskKey) (n : UInt32) : Bool :=
  m.taskCurrentLimits[key]?.any fun limit => decide (0 < limit) && decide (limit < n)

/-- A miss of the task is reported if it is the `n`-th one. -/
def due (m : FaultMonitor) (key : TaskKey) (n : UInt32) : Bool :=
  m.exceeded key n && !m.workloadReported.getD key.workloadIdHash false

/-- **A deadline miss** is counted, and reported when it is due. -/
theorem ringBufCallback_dmiss (hdmiss : e.faultType = .dmiss) :
    m.ringBufCallback e =
      let n := m.taskDmissCounts.getD e.key 0 + 1
      ({ m with
          taskDmissCounts := m.taskDmissCounts.insert e.key n
          workloadReported := if m.due e.key n then
            m.workloadReported.insert e.workloadIdHash true else m.workloadReported },
        if m.due e.key n then m.invoke e n else none) := by
  have hn : (m.taskDmissCounts.insert e.key (m.taskDmissCounts.getD e.key 0 + 1)).getD e.key 0 =
      m.taskDmissCounts.getD e.key 0 + 1 := Std.ExtTreeMap.getD_insert_self
  have hkey : e.key.workloadIdHash = e.workloadIdHash := rfl
  unfold ringBufCallback
  simp only [hdmiss, hn, due, exceeded, hkey]
  cases m.taskCurrentLimits[e.key]? with
  | none => rfl
  | some limit =>
    cases m.workloadReported.getD e.workloadIdHash false with
    | true => simp
    | false =>
      by_cases hpos : 0 < limit
      · by_cases hlt : limit < m.taskDmissCounts.getD e.key 0 + 1
        · simp [hpos, hlt, invoke]
        · simp [hpos, hlt]
      · simp [hpos]

theorem ringBufCallback_other (hother : e.faultType ≠ .dmiss) :
    m.ringBufCallback e = (m, m.invoke e 0) := by
  unfold ringBufCallback
  cases h : e.faultType with
  | dmiss => exact absurd h hother
  | budgetExceed => rfl

/-! ### Histories -/

/-- The calls of the poll thread and of the table callback. -/
inductive Call where
  | event (e : FaultEvent)
  | clearState
  | updateCurrentLimits (limits : CurrentLimits)

namespace Call

def isClear : Call → Bool
  | clearState => true
  | _ => false

/-- The call is a deadline miss of the task. -/
def isDmissOf (key : TaskKey) : Call → Bool
  | event e => e.faultType = .dmiss && e.key = key
  | _ => false

/-- The limits a call sets. -/
def limits? : Call → Option CurrentLimits
  | updateCurrentLimits limits => some limits
  | _ => none

end Call

/-- The monitor after a call. -/
def step (m : FaultMonitor) : Call → FaultMonitor
  | .event e => (m.ringBufCallback e).1
  | .clearState => m.clearState
  | .updateCurrentLimits limits => m.updateCurrentLimits limits

/-- The monitor after a history of calls; the callback is set before the first one. -/
def run (calls : List Call) : FaultMonitor := calls.foldl step new.setCallback

/-- What the callback is called with for an event that follows the calls. -/
def report (calls : List Call) (e : FaultEvent) : Option (FaultEvent × UInt32) :=
  ((run calls).ringBufCallback e).2

/-- The calls since the last `clear_state`. -/
def sinceClear (calls : List Call) : List Call := calls.rtakeWhile (!·.isClear)

/-- The deadline misses of a task since the last `clear_state`. -/
def dmissCount (calls : List Call) (key : TaskKey) : ℕ :=
  (sinceClear calls).countP (·.isDmissOf key)

/-- The limits in force: those of the last update since the last `clear_state`. -/
def limitsInForce (calls : List Call) : CurrentLimits :=
  ((sinceClear calls).filterMap Call.limits?).getLast?.getD ∅

/-- A deadline miss of the workload was reported since the last `clear_state`. -/
def Reported (calls : List Call) (workloadIdHash : UInt64) : Prop :=
  ∃ before e after, calls = before ++ .event e :: after ∧ (∀ c ∈ after, c.isClear = false) ∧
    e.faultType = .dmiss ∧ e.workloadIdHash = workloadIdHash ∧ (report before e).isSome

variable {calls : List Call} {c : Call}

theorem run_concat (calls : List Call) (c : Call) : run (calls ++ [c]) = (run calls).step c := by
  simp [run]

theorem sinceClear_concat_clear (calls : List Call) : sinceClear (calls ++ [.clearState]) = [] :=
  List.rtakeWhile_concat_neg _ _ _ (by simp [Call.isClear])

theorem sinceClear_concat (calls : List Call) (hc : c.isClear = false) :
    sinceClear (calls ++ [c]) = sinceClear calls ++ [c] :=
  List.rtakeWhile_concat_pos _ _ _ (by simp [hc])

theorem dmissCount_concat (calls : List Call) (hc : c.isClear = false) (key : TaskKey) :
    dmissCount (calls ++ [c]) key =
      dmissCount calls key + if c.isDmissOf key then 1 else 0 := by
  rw [dmissCount, sinceClear_concat calls hc, List.countP_append, List.countP_singleton]
  rfl

theorem reported_concat_iff {w : UInt64} :
    Reported (calls ++ [c]) w ↔
      (c.isClear = false ∧ Reported calls w) ∨
        ∃ e, c = .event e ∧ e.faultType = .dmiss ∧ e.workloadIdHash = w ∧
          (report calls e).isSome := by
  constructor
  · rintro ⟨before, e, after, heq, hafter, hdmiss, hw, hsome⟩
    rcases List.eq_nil_or_concat after with rfl | ⟨after, c', rfl⟩
    · obtain ⟨rfl, hc⟩ := List.append_inj' heq rfl
      exact Or.inr ⟨e, List.singleton_inj.1 hc, hdmiss, hw, hsome⟩
    · rw [List.concat_eq_append] at heq hafter
      rw [← List.cons_append, ← List.append_assoc] at heq
      obtain ⟨rfl, hc⟩ := List.append_inj' heq rfl
      obtain rfl := List.singleton_inj.1 hc
      refine Or.inl ⟨hafter c (by simp), before, e, after, rfl, ?_, hdmiss, hw, hsome⟩
      exact fun c hc => hafter c (List.mem_append_left _ hc)
  · rintro (⟨hc, before, e, after, rfl, hafter, hdmiss, hw, hsome⟩ | ⟨e, rfl, hdmiss, hw, hsome⟩)
    · refine ⟨before, e, after ++ [c], by simp, fun c' hc' => ?_, hdmiss, hw, hsome⟩
      rcases List.mem_append.1 hc' with hc' | hc'
      · exact hafter c' hc'
      · rw [List.mem_singleton.1 hc']
        exact hc
    · exact ⟨calls, e, [], rfl, by simp, hdmiss, hw, hsome⟩

/-! ### The maps follow the history -/

/-- The maps of the monitor after the calls. -/
structure Tracks (calls : List Call) (m : FaultMonitor) : Prop where
  counts : ∀ key, m.taskDmissCounts.getD key 0 = UInt32.ofNat (dmissCount calls key)
  limits : m.taskCurrentLimits = limitsInForce calls
  reported : ∀ w, m.workloadReported.getD w false = true ↔ Reported calls w
  callback : m.callback = true

theorem tracks_nil : Tracks [] new.setCallback where
  counts key := by simp [new, setCallback, dmissCount, sinceClear, List.rtakeWhile]
  limits := by simp [new, setCallback, limitsInForce, sinceClear, List.rtakeWhile]
  reported w := by simp [new, setCallback, Reported]
  callback := rfl

theorem Tracks.clearState (h : Tracks calls m) :
    Tracks (calls ++ [.clearState]) m.clearState where
  counts key := by
    simp [FaultMonitor.clearState, dmissCount, sinceClear_concat_clear]
  limits := by
    simp [FaultMonitor.clearState, limitsInForce, sinceClear_concat_clear]
  reported w := by
    simp [FaultMonitor.clearState, reported_concat_iff, Call.isClear]
  callback := h.callback

theorem Tracks.updateCurrentLimits (h : Tracks calls m) (limits : CurrentLimits) :
    Tracks (calls ++ [.updateCurrentLimits limits]) (m.updateCurrentLimits limits) where
  counts key := by
    rw [dmissCount_concat calls rfl]
    exact h.counts key
  limits := by
    rw [limitsInForce, sinceClear_concat calls rfl, List.filterMap_append]
    simp [FaultMonitor.updateCurrentLimits, Call.limits?]
  reported w := by
    rw [reported_concat_iff]
    refine (h.reported w).trans ?_
    simp [Call.isClear]
  callback := h.callback

theorem limitsInForce_event (calls : List Call) (e : FaultEvent) :
    limitsInForce (calls ++ [.event e]) = limitsInForce calls := by
  rw [limitsInForce, sinceClear_concat calls rfl, List.filterMap_append]
  simp [limitsInForce, Call.limits?]

theorem report_dmiss (h : Tracks calls (run calls)) (hdmiss : e.faultType = .dmiss) :
    report calls e =
      let n := UInt32.ofNat (dmissCount (calls ++ [.event e]) e.key)
      if (run calls).due e.key n then some (e, n) else none := by
  have hn : (run calls).taskDmissCounts.getD e.key 0 + 1 =
      UInt32.ofNat (dmissCount (calls ++ [.event e]) e.key) := by
    rw [h.counts, dmissCount_concat calls rfl, if_pos (by simp [Call.isDmissOf, hdmiss]),
      UInt32.ofNat_add]
    rfl
  rw [report, ringBufCallback_dmiss hdmiss, hn]
  simp only [invoke, h.callback, if_true]

theorem Tracks.dmiss (h : Tracks calls (run calls)) (hdmiss : e.faultType = .dmiss) :
    Tracks (calls ++ [.event e]) ((run calls).ringBufCallback e).1 where
  counts key := by
    rw [ringBufCallback_dmiss hdmiss, dmissCount_concat calls rfl, UInt32.ofNat_add, ← h.counts key]
    simp only [Std.ExtTreeMap.getD_insert, Std.LawfulEqOrd.compare_eq_iff_eq, Call.isDmissOf,
      hdmiss, decide_true, Bool.true_and, decide_eq_true_eq]
    by_cases hkey : e.key = key
    · subst hkey
      simp
    · simp [hkey]
  limits := by
    rw [ringBufCallback_dmiss hdmiss, limitsInForce_event]
    exact h.limits
  reported w := by
    have hsome : (report calls e).isSome = (run calls).due e.key
        ((run calls).taskDmissCounts.getD e.key 0 + 1) := by
      rw [report, ringBufCallback_dmiss hdmiss]
      simp only [invoke, h.callback, if_true]
      split_ifs with hdue <;> simp [hdue]
    rw [reported_concat_iff, ringBufCallback_dmiss hdmiss]
    simp only [Call.event.injEq, exists_eq_left', hdmiss, hsome, Call.isClear, true_and,
      ← h.reported]
    split_ifs with hdue
    · simp only [Std.ExtTreeMap.getD_insert, Std.LawfulEqOrd.compare_eq_iff_eq, hdue, and_true]
      by_cases hw : e.workloadIdHash = w <;> simp [hw]
    · simp [hdue]
  callback := by
    rw [ringBufCallback_dmiss hdmiss]
    exact h.callback

theorem Tracks.other (h : Tracks calls (run calls)) (hother : e.faultType ≠ .dmiss) :
    Tracks (calls ++ [.event e]) ((run calls).ringBufCallback e).1 where
  counts key := by
    rw [ringBufCallback_other hother, dmissCount_concat calls rfl, h.counts]
    simp [Call.isDmissOf, hother]
  limits := by
    rw [ringBufCallback_other hother, limitsInForce_event]
    exact h.limits
  reported w := by
    rw [ringBufCallback_other hother, reported_concat_iff, h.reported]
    simp [Call.isClear, hother]
  callback := by
    rw [ringBufCallback_other hother]
    exact h.callback

/-- **The maps follow the history.** -/
theorem tracks_run (calls : List Call) : Tracks calls (run calls) := by
  induction calls using List.reverseRecOn with
  | nil => exact tracks_nil
  | append_singleton calls c ih =>
    rw [run_concat]
    cases c with
    | event e =>
      by_cases hdmiss : e.faultType = .dmiss
      · exact ih.dmiss hdmiss
      · exact ih.other hdmiss
    | clearState => exact ih.clearState
    | updateCurrentLimits limits => exact ih.updateCurrentLimits limits

/-! ### The policy -/

theorem due_run_iff (calls : List Call) (e : FaultEvent) (n : UInt32) :
    (run calls).due e.key n = true ↔
      (∃ limit, (limitsInForce calls)[e.key]? = some limit ∧ 0 < limit ∧ limit < n) ∧
        ¬ Reported calls e.workloadIdHash := by
  have htracks := tracks_run calls
  rw [due, exceeded, htracks.limits, ← htracks.reported, Bool.and_eq_true, Option.any_eq_true,
    Bool.not_eq_true', Bool.not_eq_true]
  simp only [Bool.and_eq_true, decide_eq_true_eq]
  rfl

/-- **The reporting policy.** A deadline miss is reported, with the number of misses of its task
since the last `clear_state`, iff the task has a positive limit, the number exceeds it, and no
deadline miss of the workload has been reported since; every other fault is reported with count
`0`. -/
theorem report_policy (calls : List Call) (e : FaultEvent)
    (hbound : dmissCount (calls ++ [.event e]) e.key < 2 ^ 32) :
    (e.faultType = .dmiss → ∀ r, report calls e = some r ↔
      (∃ limit, (limitsInForce calls)[e.key]? = some limit ∧ 0 < limit ∧
        limit.toNat < dmissCount (calls ++ [.event e]) e.key) ∧
      ¬ Reported calls e.workloadIdHash ∧
      r.1 = e ∧ r.2.toNat = dmissCount (calls ++ [.event e]) e.key) ∧
    (e.faultType ≠ .dmiss → report calls e = some (e, 0)) := by
  have htracks := tracks_run calls
  refine ⟨fun hdmiss r => ?_, fun hother => ?_⟩
  · have hnat := UInt32.toNat_ofNat_of_lt' hbound
    rw [report_dmiss htracks hdmiss]
    set n := UInt32.ofNat (dmissCount (calls ++ [.event e]) e.key)
    rw [← hnat]
    simp only [← UInt32.lt_iff_toNat_lt, UInt32.toNat_inj]
    rw [← and_assoc, ← due_run_iff]
    split_ifs with hdue
    · rw [Option.some_inj, Prod.ext_iff]
      exact ⟨fun h => ⟨hdue, h.1.symm, h.2.symm⟩, fun h => ⟨h.2.1.symm, h.2.2.symm⟩⟩
    · exact iff_of_false nofun fun h => hdue h.1
  · rw [report, ringBufCallback_other hother, invoke, htracks.callback]
    rfl

/-- A task with limit 1 is reported for its second miss: nothing of the workload was before. -/
theorem report_policy_second_miss :
    let miss : FaultEvent := ⟨1, 2, 0, 100, some 120, .dmiss⟩
    let calls : List Call :=
      [.clearState, .updateCurrentLimits (.ofList [(TaskKey.mk 1 2, (1 : UInt32))]), .event miss]
    dmissCount (calls ++ [.event miss]) miss.key = 2 ∧ report calls miss = some (miss, 2) ∧
      ¬ Reported calls miss.workloadIdHash := by
  intro miss calls
  have hcount : dmissCount (calls ++ [.event miss]) miss.key = 2 := by decide
  have hreport : report calls miss = some (miss, 2) := by decide +kernel
  have hpolicy := (report_policy calls miss (by rw [hcount]; decide)).1 rfl (miss, 2)
  exact ⟨hcount, hreport, (hpolicy.1 hreport).2.1⟩

end FaultMonitor

end Timpani
