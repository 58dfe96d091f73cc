import Timpani.Bpf.Map

/-!
# The programs of the scheduling trace

`schedstat.bpf.c` is attached to two tracepoints of the kernel.  When a process is woken, the time is
noted; when it gets a CPU, the note is moved to a second map, together with the time; when it leaves
the CPU, an event with both times is submitted.  A process that was preempted keeps the time at which
it was woken.  Only processes in `pid_filter_map` are looked at, and a map that is full takes no new
entry.

* `Schedstat.schedWaking`, `Schedstat.schedSwitch` : the two programs;
* `Schedstat.addPid`, `Schedstat.removePid` : what the daemon does to the filter;
* `Schedstat.buffer_schedSwitch`, `Schedstat.lookup_schedSwitchMap_schedSwitch`,
  `Schedstat.lookup_schedWakingMap_schedSwitch` : what a switch submits and notes.
-/

namespace Timpani

structure SchedTime where
  tsWakeup : UInt64
  tsStart : UInt64
  deriving DecidableEq, Repr

structure SchedstatEvent where
  pid : Int32
  cpu : Int32
  tsWakeup : UInt64
  tsStart : UInt64
  tsStop : UInt64
  deriving DecidableEq, Repr

/-- The maps of the tracer; of the ring buffer, all that was submitted. -/
structure Schedstat where
  buffer : List SchedstatEvent
  pidFilterMap : BpfHash 1024 Int32 UInt8
  schedWakingMap : BpfHash 1024 Int32 SchedTime
  schedSwitchMap : BpfHash 1024 Int32 SchedTime

namespace Schedstat

def taskRunning : Int64 := 0

/-- The process is in the filter. -/
def Filtered (s : Schedstat) (pid : Int32) : Prop := (s.pidFilterMap.lookup pid).isSome

instance (s : Schedstat) (pid : Int32) : Decidable (s.Filtered pid) :=
  inferInstanceAs (Decidable (_ = true))

/-- `sched_waking` -/
def schedWaking (s : Schedstat) (pid : Int32) (now : UInt64) : Schedstat :=
  if s.Filtered pid then { s with schedWakingMap := (s.schedWakingMap.update pid ⟨now, 0⟩).1 }
  else s

/-- The first half of `sched_switch`; `room` says whether `bpf_ringbuf_reserve` succeeds. -/
def switchOut (s : Schedstat) (cpu prev : Int32) (prevState : Int64) (room : Bool) (now : UInt64) :
    Schedstat :=
  match s.schedSwitchMap.lookup prev with
  | none => s
  | some pdata =>
    { s with
      buffer := if room then s.buffer ++ [⟨prev, cpu, pdata.tsWakeup, pdata.tsStart, now⟩]
        else s.buffer
      schedWakingMap := if prevState = taskRunning then
          (s.schedWakingMap.update prev ⟨pdata.tsWakeup, 0⟩).1
        else s.schedWakingMap
      schedSwitchMap := (s.schedSwitchMap.delete prev).1 }

/-- The second half of `sched_switch`. -/
def switchIn (s : Schedstat) (next : Int32) (now : UInt64) : Schedstat :=
  if s.Filtered next then
    match s.schedWakingMap.lookup next with
    | none => s
    | some pdata =>
      { s with
        schedSwitchMap := (s.schedSwitchMap.update next ⟨pdata.tsWakeup, now⟩).1
        schedWakingMap := (s.schedWakingMap.delete next).1 }
  else s

/-- `sched_switch` -/
def schedSwitch (s : Schedstat) (cpu prev next : Int32) (prevState : Int64) (room : Bool)
    (now : UInt64) : Schedstat :=
  (s.switchOut cpu prev prevState room now).switchIn next now

/-- `SchedstatMonitor::add_pid` while the monitor is active. -/
def addPid (s : Schedstat) (pid : Int32) : Schedstat :=
  if pid ≤ 0 then s else { s with pidFilterMap := (s.pidFilterMap.update pid 1).1 }

/-- `SchedstatMonitor::remove_pid` -/
def removePid (s : Schedstat) (pid : Int32) : Schedstat :=
  if pid ≤ 0 then s else { s with pidFilterMap := (s.pidFilterMap.delete pid).1 }

/-! ### What the two programs do to the maps -/

variable {s : Schedstat} {cpu prev next pid : Int32} {prevState : Int64} {room : Bool} {now : UInt64}
  {d : SchedTime}

@[simp] theorem pidFilterMap_schedWaking : (s.schedWaking pid now).pidFilterMap = s.pidFilterMap := by
  unfold schedWaking
  split_ifs <;> rfl

@[simp] theorem schedSwitchMap_schedWaking :
    (s.schedWaking pid now).schedSwitchMap = s.schedSwitchMap := by
  unfold schedWaking
  split_ifs <;> rfl

@[simp] theorem buffer_schedWaking : (s.schedWaking pid now).buffer = s.buffer := by
  unfold schedWaking
  split_ifs <;> rfl

@[simp] theorem pidFilterMap_switchOut :
    (s.switchOut cpu prev prevState room now).pidFilterMap = s.pidFilterMap := by
  unfold switchOut
  split <;> rfl

@[simp] theorem pidFilterMap_schedSwitch :
    (s.schedSwitch cpu prev next prevState room now).pidFilterMap = s.pidFilterMap := by
  unfold schedSwitch switchIn
  split_ifs
  · split <;> exact pidFilterMap_switchOut
  · exact pidFilterMap_switchOut

theorem buffer_schedSwitch : (s.schedSwitch cpu prev next prevState room now).buffer =
    s.buffer ++ if room then ((s.schedSwitchMap.lookup prev).map fun pdata =>
      (⟨prev, cpu, pdata.tsWakeup, pdata.tsStart, now⟩ : SchedstatEvent)).toList else [] := by
  have hin : ∀ s : Schedstat, (s.switchIn next now).buffer = s.buffer := by
    intro s
    unfold switchIn
    split_ifs
    · split <;> rfl
    · rfl
  rw [schedSwitch, hin, switchOut]
  cases s.schedSwitchMap.lookup prev with
  | none => cases room <;> simp
  | some pdata => cases room <;> simp

theorem lookup_schedWakingMap_schedWaking
    (h : (s.schedWaking pid now).schedWakingMap.lookup next = some d) :
    next = pid ∧ d = ⟨now, 0⟩ ∧ s.Filtered pid ∨ s.schedWakingMap.lookup next = some d := by
  unfold schedWaking at h
  split_ifs at h with hfilter
  · rw [BpfHash.lookup_update] at h
    split_ifs at h with heq
    · exact Or.inl ⟨heq.1.symm, (Option.some.inj h).symm, hfilter⟩
    · exact Or.inr h
  · exact Or.inr h

theorem lookup_schedSwitchMap_switchOut :
    (s.switchOut cpu prev prevState room now).schedSwitchMap.lookup pid =
      if prev = pid then none else s.schedSwitchMap.lookup pid := by
  unfold switchOut
  split
  · next hnone =>
    split_ifs with heq
    · rw [← heq, hnone]
    · rfl
  · rw [BpfHash.lookup_delete]

theorem lookup_schedWakingMap_switchOut
    (h : (s.switchOut cpu prev prevState room now).schedWakingMap.lookup pid = some d) :
    (∃ pdata, s.schedSwitchMap.lookup prev = some pdata ∧ pid = prev ∧ d.tsWakeup = pdata.tsWakeup) ∨
      s.schedWakingMap.lookup pid = some d := by
  unfold switchOut at h
  split at h
  · exact Or.inr h
  · next pdata hpdata =>
    dsimp only at h
    split_ifs at h
    · rw [BpfHash.lookup_update] at h
      split_ifs at h with heq
      · cases h
        exact Or.inl ⟨pdata, hpdata, heq.1.symm, rfl⟩
      · exact Or.inr h
    · exact Or.inr h

theorem lookup_schedWakingMap_switchOut_of_ne (hne : pid ≠ prev) :
    (s.switchOut cpu prev prevState room now).schedWakingMap.lookup pid =
      s.schedWakingMap.lookup pid := by
  unfold switchOut
  split
  · rfl
  · dsimp only
    split_ifs
    · rw [BpfHash.lookup_update, if_neg fun h => hne h.1.symm]
    · rfl

/-- A note about a ready process after a switch: it ran until now, or the note is an old one. -/
theorem lookup_schedWakingMap_schedSwitch
    (h : (s.schedSwitch cpu prev next prevState room now).schedWakingMap.lookup pid = some d) :
    (∃ pdata, s.schedSwitchMap.lookup prev = some pdata ∧ pid = prev ∧ d.tsWakeup = pdata.tsWakeup) ∨
      s.schedWakingMap.lookup pid = some d := by
  refine @lookup_schedWakingMap_switchOut _ cpu _ _ prevState room now _ ?_
  unfold schedSwitch switchIn at h
  split_ifs at h
  · split at h
    · exact h
    · rw [BpfHash.lookup_delete] at h
      split_ifs at h
      exact h
  · exact h

/-- A note about a running process after a switch: it got the CPU with this switch, or the note is an
old one about another process than `prev`. -/
theorem lookup_schedSwitchMap_schedSwitch
    (h : (s.schedSwitch cpu prev next prevState room now).schedSwitchMap.lookup pid = some d) :
    (pid = next ∧ s.Filtered next ∧ d.tsStart = now ∧ ∃ d₀,
      (s.switchOut cpu prev prevState room now).schedWakingMap.lookup next = some d₀ ∧
        d.tsWakeup = d₀.tsWakeup) ∨ pid ≠ prev ∧ s.schedSwitchMap.lookup pid = some d := by
  have hold : (s.switchOut cpu prev prevState room now).schedSwitchMap.lookup pid = some d →
      pid ≠ prev ∧ s.schedSwitchMap.lookup pid = some d := by
    intro h
    rw [lookup_schedSwitchMap_switchOut] at h
    split_ifs at h with heq
    exact ⟨fun h => heq h.symm, h⟩
  unfold schedSwitch switchIn at h
  split_ifs at h with hfilter
  · split at h
    · exact Or.inr (hold h)
    · next d₀ hd₀ =>
      rw [BpfHash.lookup_update] at h
      split_ifs at h with heq
      · cases h
        refine Or.inl ⟨heq.1.symm, ?_, rfl, d₀, hd₀, rfl⟩
        rwa [Filtered, pidFilterMap_switchOut] at hfilter
      · exact Or.inr (hold h)
  · exact Or.inr (hold h)

/-! Processes other than `prev` and `next` are not touched; and if the maps have room, the notes about
these two are moved. -/

theorem lookup_schedWakingMap_of_ne (hprev : pid ≠ prev) (hnext : pid ≠ next) :
    (s.schedSwitch cpu prev next prevState room now).schedWakingMap.lookup pid =
      s.schedWakingMap.lookup pid := by
  refine Eq.trans ?_ (@lookup_schedWakingMap_switchOut_of_ne s cpu _ _ prevState room now hprev)
  unfold schedSwitch switchIn
  split_ifs
  · split
    · rfl
    · rw [BpfHash.lookup_delete, if_neg (Ne.symm hnext)]
  · rfl

theorem lookup_schedSwitchMap_of_ne (hnext : pid ≠ next) :
    (s.schedSwitch cpu prev next prevState room now).schedSwitchMap.lookup pid =
      if prev = pid then none else s.schedSwitchMap.lookup pid := by
  refine Eq.trans ?_ (@lookup_schedSwitchMap_switchOut s cpu prev pid prevState room now)
  unfold schedSwitch switchIn
  split_ifs
  · split
    · rfl
    · rw [BpfHash.lookup_update, if_neg fun h => hnext h.1.symm]
  · rfl

theorem lookup_schedSwitchMap_of_not_filtered (hfilter : ¬ s.Filtered next) :
    (s.schedSwitch cpu prev next prevState room now).schedSwitchMap.lookup next =
      if prev = next then none else s.schedSwitchMap.lookup next := by
  rw [schedSwitch, switchIn, if_neg (by rwa [Filtered, pidFilterMap_switchOut])]
  exact lookup_schedSwitchMap_switchOut

theorem lookup_schedWakingMap_prev {pdata : SchedTime} (hne : prev ≠ next)
    (hpdata : s.schedSwitchMap.lookup prev = some pdata) (hstate : prevState = taskRunning)
    (hroom : ∀ v, (s.schedWakingMap.update prev v).2 = true) :
    (s.schedSwitch cpu prev next prevState room now).schedWakingMap.lookup prev =
      some ⟨pdata.tsWakeup, 0⟩ := by
  have hout : (s.switchOut cpu prev prevState room now).schedWakingMap.lookup prev =
      some ⟨pdata.tsWakeup, 0⟩ := by
    unfold switchOut
    rw [hpdata]
    dsimp only
    rw [if_pos hstate, BpfHash.lookup_update, if_pos ⟨rfl, hroom _⟩]
  refine Eq.trans ?_ hout
  unfold schedSwitch switchIn
  split_ifs
  · split
    · rfl
    · rw [BpfHash.lookup_delete, if_neg hne.symm]
  · rfl

theorem lookup_schedSwitchMap_next (hne : prev ≠ next) (hfilter : s.Filtered next)
    (hd : s.schedWakingMap.lookup next = some d)
    (hroom : ∀ v, ((s.switchOut cpu prev prevState room now).schedSwitchMap.update next v).2 = true) :
    (s.schedSwitch cpu prev next prevState room now).schedSwitchMap.lookup next =
      some ⟨d.tsWakeup, now⟩ := by
  rw [schedSwitch, switchIn, if_pos (by rwa [Filtered, pidFilterMap_switchOut]),
    lookup_schedWakingMap_switchOut_of_ne hne.symm, hd]
  dsimp only
  rw [BpfHash.lookup_update, if_pos ⟨rfl, hroom _⟩]

end Schedstat

end Timpani
