import Timpani.Bpf.Schedstat
import Timpani.Run.Basic

/-!
# The scheduling trace

The tracer runs along with a kernel: processes are blocked, ready or running, and a log has every
stretch of time for which a process really had a CPU, with the time at which it was woken.  The daemon
changes the filter at any time.

* `Traced.machine` : the kernel, the tracer, and the daemon, in any order;
* `Traced.events_sublist_log` : **the trace is sound**: its events are stretches of the log, each at
  most once, and events of one process or of one CPU do not overlap;
* `Traced.events_eq_log` : **the trace is exact**: if processes are blocked when they enter or leave
  the filter, no more than 1024 ever enter it, the ring buffer has room, and no process is preempted
  while it goes to sleep, the trace is the log of the processes in the filter.
-/

namespace Timpani

/-- A stretch of time for which a process has a CPU. -/
structure Stretch where
  pid : Int32
  cpu : Int32
  start : UInt64
  stop : UInt64
  deriving DecidableEq, Repr

/-- If the stretches are of one process or of one CPU, the first is over when the second begins. -/
def Stretch.Before (a b : Stretch) : Prop := a.pid = b.pid ∨ a.cpu = b.cpu → a.stop ≤ b.start

def SchedstatEvent.stretch (e : SchedstatEvent) : Stretch := ⟨e.pid, e.cpu, e.tsStart, e.tsStop⟩

/-! ### The kernel -/

/-- What a process does, with the time at which it was woken. -/
inductive TaskPhase where
  | blocked
  | ready (woken : UInt64)
  | running (woken : UInt64) (cpu : Int32) (start : UInt64)
  deriving DecidableEq, Repr

namespace TaskPhase

def wake (now : UInt64) : TaskPhase → TaskPhase
  | blocked => ready now
  | ready woken => ready woken
  | running woken cpu start => running woken cpu start

/-- The process leaves its CPU. -/
def leave (stays : Bool) : TaskPhase → TaskPhase
  | blocked => blocked
  | ready woken => ready woken
  | running woken _ _ => if stays then ready woken else blocked

/-- The process gets a CPU. -/
def enter (cpu : Int32) (now : UInt64) : TaskPhase → TaskPhase
  | blocked => blocked
  | ready woken => running woken cpu now
  | running woken cpu start => running woken cpu start

def isReady : TaskPhase → Bool
  | ready _ => true
  | _ => false

end TaskPhase

/-- The kernel with the tracer.  A CPU without a process runs process 0. -/
structure Traced where
  tracer : Schedstat
  clock : UInt64
  phase : Int32 → TaskPhase
  current : Int32 → Int32
  /-- The processes that were woken, and when. -/
  wakings : List (Int32 × UInt64)
  /-- The stretches for which processes had a CPU, and whether they were in the filter then. -/
  log : List (SchedstatEvent × Bool)
  /-- The processes that ever entered the filter. -/
  added : Finset Int32

namespace Traced

/-- The stretch that ends when a CPU switches. -/
def stretch? (x : Traced) (cpu : Int32) (now : UInt64) : Option SchedstatEvent :=
  match x.phase (x.current cpu) with
  | .running woken _ start => some ⟨x.current cpu, cpu, woken, start, now⟩
  | _ => none

/-- A process is woken. -/
def waken (x : Traced) (pid : Int32) (now : UInt64) : Traced :=
  { x with
    tracer := x.tracer.schedWaking pid now
    clock := now
    phase := fun p => if p = pid then (x.phase p).wake now else x.phase p
    wakings := x.wakings ++ [(pid, now)] }

/-- A CPU switches to another process.  The old one stays ready if it was preempted or if its state
is still `TASK_RUNNING`. -/
def switch (x : Traced) (cpu next : Int32) (preempt : Bool) (prevState : Int64) (room : Bool)
    (now : UInt64) : Traced :=
  let prev := x.current cpu
  { x with
    tracer := x.tracer.schedSwitch cpu prev next prevState room now
    clock := now
    phase := fun p =>
      if p = prev then (x.phase p).leave (preempt || prevState = Schedstat.taskRunning)
      else if p = next then (x.phase p).enter cpu now else x.phase p
    current := Function.update x.current cpu next
    log := x.log ++ ((x.stretch? cpu now).map fun e => (e, decide (x.tracer.Filtered prev))).toList }

inductive Action where
  | waking (pid : Int32) (now : UInt64)
  | switch (cpu next : Int32) (preempt : Bool) (prevState : Int64) (room : Bool) (now : UInt64)
  | addPid (pid : Int32)
  | removePid (pid : Int32)

/-- A process that is running has a CPU of its own, and the clock does not go back. -/
structure Consistent (x : Traced) : Prop where
  idle : x.phase 0 = .blocked
  current : ∀ cpu, x.current cpu ≠ 0 → ∃ woken start, x.phase (x.current cpu) = .running woken cpu start
  running : ∀ p woken cpu start, x.phase p = .running woken cpu start →
    x.current cpu = p ∧ woken ≤ start ∧ start ≤ x.clock
  ready : ∀ p woken, x.phase p = .ready woken → woken ≤ x.clock

/-- The tracer is attached to a running kernel. -/
def machine : Machine Traced Action where
  init x := x.Consistent ∧ x.tracer = ⟨[], .empty, .empty, .empty⟩ ∧ x.wakings = [] ∧ x.log = [] ∧
    x.added = ∅
  next x
    | .waking pid now =>
      if pid ≠ 0 ∧ x.clock ≤ now then some (x.waken pid now) else none
    | .switch cpu next preempt prevState room now =>
      if x.clock ≤ now ∧ (next = 0 ∨ (x.phase next).isReady) then
        some (x.switch cpu next preempt prevState room now)
      else none
    | .addPid pid => some { x with tracer := x.tracer.addPid pid, added := insert pid x.added }
    | .removePid pid => some { x with tracer := x.tracer.removePid pid }

variable {x x' : Traced} {cpu next pid : Int32} {preempt room : Bool} {prevState : Int64}
  {now : UInt64}

/-! ### Consistency -/

section Switch

variable (h : x.Consistent) (hnext : next = 0 ∨ (x.phase next).isReady = true)

include h

theorem Consistent.phase_current (cpu : Int32) :
    x.current cpu = 0 ∧ x.phase (x.current cpu) = .blocked ∨
      x.current cpu ≠ 0 ∧ ∃ woken start, x.phase (x.current cpu) = .running woken cpu start := by
  by_cases hcur : x.current cpu = 0
  · exact Or.inl ⟨hcur, hcur ▸ h.idle⟩
  · exact Or.inr ⟨hcur, h.current cpu hcur⟩

include hnext

theorem Consistent.phase_next : next = 0 ∧ x.phase next = .blocked ∨
    next ≠ 0 ∧ ∃ woken, x.phase next = .ready woken := by
  by_cases hzero : next = 0
  · exact Or.inl ⟨hzero, hzero ▸ h.idle⟩
  · have hready := hnext.resolve_left hzero
    cases hphase : x.phase next with
    | ready woken => exact Or.inr ⟨hzero, woken, rfl⟩
    | blocked | running =>
      rw [hphase] at hready
      cases hready

theorem Consistent.current_ne_next (cpu : Int32) (hzero : next ≠ 0) : x.current cpu ≠ next := by
  obtain ⟨-, woken, hready⟩ := (h.phase_next hnext).resolve_left fun h => hzero h.1
  intro heq
  rcases h.phase_current cpu with ⟨-, hphase⟩ | ⟨-, woken', start, hphase⟩ <;>
    · rw [heq, hready] at hphase
      cases hphase

theorem Consistent.running_switch {woken start : UInt64} {cpu' p : Int32}
    (hp : (x.switch cpu next preempt prevState room now).phase p = .running woken cpu' start) :
    (p = next ∧ x.phase p = .ready woken ∧ cpu' = cpu ∧ start = now) ∨
      p ≠ x.current cpu ∧ p ≠ next ∧ x.phase p = .running woken cpu' start := by
  dsimp only [switch] at hp
  split_ifs at hp with hprev heq
  · -- the process that left its CPU is not running
    subst hprev
    rcases h.phase_current cpu with ⟨-, hphase⟩ | ⟨-, woken', start', hphase⟩ <;>
      rw [hphase, TaskPhase.leave] at hp
    · cases hp
    · split_ifs at hp
  · subst heq
    rcases h.phase_next hnext with ⟨-, hphase⟩ | ⟨-, woken', hphase⟩ <;>
      rw [hphase, TaskPhase.enter] at hp
    · cases hp
    · cases hp
      exact Or.inl ⟨rfl, hphase, rfl, rfl⟩
  · exact Or.inr ⟨hprev, heq, hp⟩

theorem Consistent.ready_switch {woken : UInt64} {p : Int32}
    (hp : (x.switch cpu next preempt prevState room now).phase p = .ready woken) :
    (p = x.current cpu ∧ (preempt || prevState = Schedstat.taskRunning) = true ∧
        ∃ start, x.phase p = .running woken cpu start) ∨
      p ≠ x.current cpu ∧ p ≠ next ∧ x.phase p = .ready woken := by
  dsimp only [switch] at hp
  split_ifs at hp with hprev heq
  · subst hprev
    rcases h.phase_current cpu with ⟨-, hphase⟩ | ⟨-, woken', start', hphase⟩ <;>
      rw [hphase, TaskPhase.leave] at hp
    · cases hp
    · split_ifs at hp with hstays
      cases hp
      exact Or.inl ⟨rfl, hstays, start', hphase⟩
  · subst heq
    rcases h.phase_next hnext with ⟨-, hphase⟩ | ⟨-, woken', hphase⟩ <;>
      rw [hphase, TaskPhase.enter] at hp <;> cases hp
  · exact Or.inr ⟨hprev, heq, hp⟩

theorem Consistent.switch (hclock : x.clock ≤ now) :
    (x.switch cpu next preempt prevState room now).Consistent where
  idle := by
    dsimp only [Traced.switch]
    split_ifs
    · rw [h.idle]
      rfl
    · rw [h.idle]
      rfl
    · exact h.idle
  current cpu' hcur := by
    by_cases hcpu : cpu' = cpu
    · subst hcpu
      have hcurrent : (x.switch cpu' next preempt prevState room now).current cpu' = next :=
        Function.update_self ..
      rw [hcurrent] at hcur ⊢
      obtain ⟨-, woken, hready⟩ := (h.phase_next hnext).resolve_left fun h => hcur h.1
      refine ⟨woken, now, ?_⟩
      dsimp only [Traced.switch]
      rw [if_neg (h.current_ne_next hnext cpu' hcur).symm, if_pos rfl, hready]
      rfl
    · have hcurrent : (x.switch cpu next preempt prevState room now).current cpu' = x.current cpu' :=
        Function.update_of_ne hcpu ..
      rw [hcurrent] at hcur ⊢
      obtain ⟨woken, start, hphase⟩ := h.current cpu' hcur
      refine ⟨woken, start, ?_⟩
      have hprev : x.current cpu' ≠ x.current cpu := by
        intro heq
        rcases h.phase_current cpu with ⟨hzero, -⟩ | ⟨-, woken', start', hphase'⟩
        · exact hcur (heq.trans hzero)
        · rw [← heq, hphase] at hphase'
          exact hcpu (TaskPhase.running.inj hphase').2.1
      have hne : x.current cpu' ≠ next := by
        rintro rfl
        rcases h.phase_next hnext with ⟨hzero, -⟩ | ⟨-, woken', hready⟩
        · exact hcur hzero
        · cases hphase.symm.trans hready
      dsimp only [Traced.switch]
      rw [if_neg hprev, if_neg hne, hphase]
  running p woken cpu' start hp := by
    rcases h.running_switch hnext hp with ⟨rfl, hready, rfl, rfl⟩ | ⟨hprev, hne, hphase⟩
    · exact ⟨Function.update_self .., UInt64.le_trans (h.ready p woken hready) hclock, UInt64.le_refl _⟩
    · obtain ⟨hcur, hwoken, hstart⟩ := h.running p woken cpu' start hphase
      refine ⟨?_, hwoken, UInt64.le_trans hstart hclock⟩
      refine (Function.update_of_ne ?_ ..).trans hcur
      rintro rfl
      exact hprev hcur.symm
  ready p woken hp := by
    rcases h.ready_switch hnext hp with ⟨-, -, start, hphase⟩ | ⟨-, -, hphase⟩
    · obtain ⟨-, hwoken, hstart⟩ := h.running p woken cpu start hphase
      exact UInt64.le_trans (UInt64.le_trans hwoken hstart) hclock
    · exact UInt64.le_trans (h.ready p woken hphase) hclock

end Switch

theorem running_waken {woken start : UInt64} {p : Int32} :
    (x.waken pid now).phase p = .running woken cpu start ↔ x.phase p = .running woken cpu start := by
  dsimp only [waken]
  split_ifs
  · cases x.phase p <;> simp [TaskPhase.wake]
  · rfl

theorem ready_waken {woken : UInt64} {p : Int32} (h : (x.waken pid now).phase p = .ready woken) :
    (p = pid ∧ x.phase p = .blocked ∧ woken = now) ∨ x.phase p = .ready woken := by
  dsimp only [waken] at h
  split_ifs at h with hp
  · cases hphase : x.phase p with
    | blocked =>
      rw [hphase] at h
      cases h
      exact Or.inl ⟨hp, rfl, rfl⟩
    | ready | running =>
      rw [hphase] at h
      exact Or.inr h
  · exact Or.inr h

theorem Consistent.waken (h : x.Consistent) (hpid : pid ≠ 0) (hclock : x.clock ≤ now) :
    (x.waken pid now).Consistent where
  idle := by
    dsimp only [Traced.waken]
    rw [if_neg hpid.symm, h.idle]
  current cpu hcur := by
    obtain ⟨woken, start, hphase⟩ := h.current cpu hcur
    exact ⟨woken, start, running_waken.2 hphase⟩
  running p woken cpu start hp := by
    obtain ⟨hcur, hwoken, hstart⟩ := h.running p woken cpu start (running_waken.1 hp)
    exact ⟨hcur, hwoken, UInt64.le_trans hstart hclock⟩
  ready p woken hp := by
    rcases ready_waken hp with ⟨-, -, rfl⟩ | hphase
    · exact UInt64.le_refl _
    · exact UInt64.le_trans (h.ready p woken hphase) hclock

/-! ### Soundness -/

/-- Every note and every event is about something that happened. -/
structure Sound (x : Traced) : Prop where
  consistent : x.Consistent
  filtered : ∀ p, x.tracer.Filtered p → p ≠ 0
  waking : ∀ p d, x.tracer.schedWakingMap.lookup p = some d →
    (p, d.tsWakeup) ∈ x.wakings ∧ d.tsWakeup ≤ x.clock
  switched : ∀ p d, x.tracer.schedSwitchMap.lookup p = some d →
    (∃ woken cpu, x.phase p = .running woken cpu d.tsStart) ∧ (p, d.tsWakeup) ∈ x.wakings ∧
      d.tsWakeup ≤ d.tsStart
  events : (x.tracer.buffer.map SchedstatEvent.stretch).Sublist (x.log.map (·.1.stretch))
  times : ∀ e ∈ x.tracer.buffer, (e.pid, e.tsWakeup) ∈ x.wakings ∧ e.tsWakeup ≤ e.tsStart
  stops : ∀ r ∈ x.log.map (·.1.stretch), r.start ≤ r.stop ∧ r.stop ≤ x.clock
  apart : (x.log.map (·.1.stretch)).Pairwise Stretch.Before
  /-- What runs now begins after what is in the log. -/
  before : ∀ r ∈ x.log.map (·.1.stretch), ∀ p woken cpu start,
    x.phase p = .running woken cpu start → r.pid = p ∨ r.cpu = cpu → r.stop ≤ start

theorem sound_of_init (h : machine.init x) : Sound x := by
  obtain ⟨hcons, htracer, hwakings, hlog, -⟩ := h
  refine ⟨hcons, ?_, ?_, ?_, ?_, ?_, ?_, ?_, ?_⟩
  · intro p hp
    rw [htracer, Schedstat.Filtered, BpfHash.lookup_empty] at hp
    cases hp
  · intro p d hd
    rw [htracer, BpfHash.lookup_empty] at hd
    cases hd
  · intro p d hd
    rw [htracer, BpfHash.lookup_empty] at hd
    cases hd
  · rw [htracer]
    exact List.nil_sublist _
  · intro e he
    rw [htracer] at he
    cases he
  all_goals
    rw [hlog]
    simp

theorem Consistent.stretch?_eq_some {e : SchedstatEvent} (h : x.Consistent)
    (he : x.stretch? cpu now = some e) :
    x.current cpu ≠ 0 ∧ ∃ woken start, x.phase (x.current cpu) = .running woken cpu start ∧
      e = ⟨x.current cpu, cpu, woken, start, now⟩ := by
  unfold stretch? at he
  rcases h.phase_current cpu with ⟨-, hphase⟩ | ⟨hcur, woken, start, hphase⟩ <;> rw [hphase] at he
  · cases he
  · cases he
    exact ⟨hcur, woken, start, hphase, rfl⟩

theorem Sound.stretch?_of_lookup {d : SchedTime} (h : Sound x) (now : UInt64)
    (hd : x.tracer.schedSwitchMap.lookup (x.current cpu) = some d) :
    ∃ woken, x.stretch? cpu now = some ⟨x.current cpu, cpu, woken, d.tsStart, now⟩ := by
  obtain ⟨⟨woken, cpu', hphase⟩, -⟩ := h.switched _ d hd
  refine ⟨woken, ?_⟩
  rw [stretch?, hphase]

theorem mem_log_switch {r : Stretch}
    (hr : r ∈ (x.switch cpu next preempt prevState room now).log.map (·.1.stretch)) :
    r ∈ x.log.map (·.1.stretch) ∨ ∃ e, x.stretch? cpu now = some e ∧ r = e.stretch := by
  rw [switch, List.map_append, List.mem_append] at hr
  refine hr.imp_right fun hr => ?_
  cases he : x.stretch? cpu now with
  | none =>
    rw [he] at hr
    cases hr
  | some e =>
    rw [he] at hr
    exact ⟨e, rfl, by simpa using hr⟩

theorem Sound.switch (h : Sound x) (hclock : x.clock ≤ now)
    (hnext : next = 0 ∨ (x.phase next).isReady = true) :
    Sound (x.switch cpu next preempt prevState room now) where
  consistent := h.consistent.switch hnext hclock
  filtered p hp := by
    refine h.filtered p ?_
    rwa [Traced.switch, Schedstat.Filtered, Schedstat.pidFilterMap_schedSwitch] at hp
  waking p d hd := by
    rcases Schedstat.lookup_schedWakingMap_schedSwitch hd with ⟨pdata, hpdata, rfl, hw⟩ | hold
    · obtain ⟨⟨woken, cpu', hphase⟩, hmem, hle⟩ := h.switched _ pdata hpdata
      obtain ⟨-, -, hstart⟩ := h.consistent.running _ _ _ _ hphase
      rw [hw]
      exact ⟨hmem, UInt64.le_trans hle (UInt64.le_trans hstart hclock)⟩
    · obtain ⟨hmem, hle⟩ := h.waking p d hold
      exact ⟨hmem, UInt64.le_trans hle hclock⟩
  switched p d hd := by
    rcases Schedstat.lookup_schedSwitchMap_schedSwitch hd with
      ⟨rfl, hfilter, hstart, d₀, hd₀, hw⟩ | ⟨hprev, hold⟩
    · have hzero := h.filtered p hfilter
      obtain ⟨-, woken, hready⟩ := (h.consistent.phase_next hnext).resolve_left fun h => hzero h.1
      have hne := h.consistent.current_ne_next hnext cpu hzero
      rw [Schedstat.lookup_schedWakingMap_switchOut_of_ne hne.symm] at hd₀
      obtain ⟨hmem, hle⟩ := h.waking p d₀ hd₀
      refine ⟨⟨woken, cpu, ?_⟩, hw ▸ hmem, ?_⟩
      · dsimp only [Traced.switch]
        rw [if_neg hne.symm, if_pos rfl, hready, hstart]
        rfl
      · rw [hw, hstart]
        exact UInt64.le_trans hle hclock
    · obtain ⟨⟨woken, cpu', hphase⟩, hmem, hle⟩ := h.switched p d hold
      refine ⟨⟨woken, cpu', ?_⟩, hmem, hle⟩
      have hne : p ≠ next := by
        rintro rfl
        rcases h.consistent.phase_next hnext with ⟨-, hphase'⟩ | ⟨-, woken', hphase'⟩ <;>
          cases hphase.symm.trans hphase'
      dsimp only [Traced.switch]
      rw [if_neg hprev, if_neg hne, hphase]
  events := by
    rw [Traced.switch, Schedstat.buffer_schedSwitch, List.map_append, List.map_append]
    refine h.events.append ?_
    cases hd : x.tracer.schedSwitchMap.lookup (x.current cpu) with
    | none => cases room <;> exact List.nil_sublist _
    | some d =>
      obtain ⟨woken, hstretch⟩ := h.stretch?_of_lookup now hd
      rw [hstretch]
      cases room
      · exact List.nil_sublist _
      · exact List.Sublist.refl _
  times e he := by
    rw [Traced.switch, Schedstat.buffer_schedSwitch, List.mem_append] at he
    rcases he with hold | hnew
    · exact h.times e hold
    · cases hd : x.tracer.schedSwitchMap.lookup (x.current cpu) with
      | none => cases room <;> simp [hd] at hnew
      | some d =>
        obtain ⟨-, hmem, hle⟩ := h.switched _ d hd
        cases room
        · cases hnew
        · rw [hd] at hnew
          obtain rfl := List.mem_singleton.1 hnew
          exact ⟨hmem, hle⟩
  stops r hr := by
    rcases mem_log_switch hr with hold | ⟨e, he, rfl⟩
    · obtain ⟨hle, hstop⟩ := h.stops r hold
      exact ⟨hle, UInt64.le_trans hstop hclock⟩
    · obtain ⟨-, woken, start, hphase, rfl⟩ := h.consistent.stretch?_eq_some he
      obtain ⟨-, -, hstart⟩ := h.consistent.running _ _ _ _ hphase
      exact ⟨UInt64.le_trans hstart hclock, UInt64.le_refl _⟩
  apart := by
    rw [Traced.switch, List.map_append, List.pairwise_append]
    refine ⟨h.apart, ?_, fun r hr r' hr' => ?_⟩
    · cases x.stretch? cpu now <;> simp
    · cases he : x.stretch? cpu now with
      | none => simp [he] at hr'
      | some e =>
        obtain ⟨-, woken, start, hphase, rfl⟩ := h.consistent.stretch?_eq_some he
        rw [he] at hr'
        obtain rfl := List.mem_singleton.1 hr'
        exact h.before r hr _ woken cpu start hphase
  before r hr p woken cpu' start hp hsame := by
    rcases h.consistent.running_switch hnext hp with ⟨-, -, -, rfl⟩ | ⟨hprev, -, hphase⟩
    · rcases mem_log_switch hr with hold | ⟨e, he, rfl⟩
      · exact UInt64.le_trans (h.stops r hold).2 hclock
      · obtain ⟨-, woken', start', -, rfl⟩ := h.consistent.stretch?_eq_some he
        exact UInt64.le_refl _
    · rcases mem_log_switch hr with hold | ⟨e, he, rfl⟩
      · exact h.before r hold p woken cpu' start hphase hsame
      · -- the stretch is of another process on another CPU
        obtain ⟨-, woken', start', -, rfl⟩ := h.consistent.stretch?_eq_some he
        obtain ⟨hcur, -⟩ := h.consistent.running p woken cpu' start hphase
        rcases hsame with hpid | hcpu
        · exact absurd hpid.symm hprev
        · exact absurd (hcur ▸ hcpu ▸ rfl) hprev

theorem Sound.waken (h : Sound x) (hpid : pid ≠ 0) (hclock : x.clock ≤ now) :
    Sound (x.waken pid now) where
  consistent := h.consistent.waken hpid hclock
  filtered p hp := by
    rw [Traced.waken, Schedstat.Filtered, Schedstat.pidFilterMap_schedWaking] at hp
    exact h.filtered p hp
  waking p d hd := by
    rcases Schedstat.lookup_schedWakingMap_schedWaking hd with ⟨rfl, rfl, -⟩ | hold
    · exact ⟨List.mem_append_right _ List.mem_cons_self, UInt64.le_refl _⟩
    · obtain ⟨hmem, hle⟩ := h.waking p d hold
      exact ⟨List.mem_append_left _ hmem, UInt64.le_trans hle hclock⟩
  switched p d hd := by
    rw [Traced.waken, Schedstat.schedSwitchMap_schedWaking] at hd
    obtain ⟨⟨woken, cpu, hphase⟩, hmem, hle⟩ := h.switched p d hd
    exact ⟨⟨woken, cpu, running_waken.2 hphase⟩, List.mem_append_left _ hmem, hle⟩
  events := by
    rw [Traced.waken, Schedstat.buffer_schedWaking]
    exact h.events
  times e he := by
    rw [Traced.waken, Schedstat.buffer_schedWaking] at he
    obtain ⟨hmem, hle⟩ := h.times e he
    exact ⟨List.mem_append_left _ hmem, hle⟩
  stops r hr := by
    obtain ⟨hle, hstop⟩ := h.stops r hr
    exact ⟨hle, UInt64.le_trans hstop hclock⟩
  apart := h.apart
  before r hr p woken cpu start hp := h.before r hr p woken cpu start (running_waken.1 hp)

theorem Sound.refilter (h : Sound x) {filter : BpfHash 1024 Int32 UInt8}
    (hfilter : ∀ p, (filter.lookup p).isSome → p ≠ 0) (added : Finset Int32) :
    Sound { x with tracer.pidFilterMap := filter, added } :=
  ⟨⟨h.consistent.idle, h.consistent.current, h.consistent.running, h.consistent.ready⟩, hfilter,
    h.waking, h.switched, h.events, h.times, h.stops, h.apart, h.before⟩

theorem Sound.of_next {a : Action} (h : Sound x) (hn : machine.next x a = some x') : Sound x' := by
  cases a with
  | waking pid now =>
    obtain ⟨⟨hpid, hclock⟩, heq⟩ := Option.ite_none_right_eq_some.1 hn
    cases heq
    exact h.waken hpid hclock
  | switch cpu next preempt prevState room now =>
    obtain ⟨⟨hclock, hnext⟩, heq⟩ := Option.ite_none_right_eq_some.1 hn
    cases heq
    exact h.switch hclock hnext
  | addPid pid =>
    cases hn
    unfold Schedstat.addPid
    split_ifs with hpos
    · exact h.refilter h.filtered _
    · refine h.refilter (fun p hp => ?_) _
      rw [BpfHash.lookup_update] at hp
      split_ifs at hp with heq
      · rintro rfl
        exact hpos (heq.1 ▸ Int32.le_refl _)
      · exact h.filtered p hp
  | removePid pid =>
    cases hn
    unfold Schedstat.removePid
    split_ifs
    · exact h
    · refine h.refilter (fun p hp => ?_) _
      rw [BpfHash.lookup_delete] at hp
      split_ifs at hp
      · cases hp
      · exact h.filtered p hp

/-- **The trace is sound.**  Whatever happens to the filter, the maps and the ring buffer: the events
are stretches of the log, each at most once and in their order; they carry a time at which the process
was woken before; and events of one process or of one CPU do not overlap. -/
theorem events_sublist_log (h : machine.Reachable x) :
    (x.tracer.buffer.map SchedstatEvent.stretch).Sublist (x.log.map (·.1.stretch)) ∧
      (∀ e ∈ x.tracer.buffer, (e.pid, e.tsWakeup) ∈ x.wakings ∧ e.tsWakeup ≤ e.tsStart ∧
        e.tsStart ≤ e.tsStop) ∧
      x.tracer.buffer.Pairwise fun a b => a.stretch.Before b.stretch := by
  have hsound : Sound x :=
    h.invariant (fun _ hx => sound_of_init hx) fun _ _ _ hs _ hn => hs.of_next hn
  refine ⟨hsound.events, fun e he => ?_, ?_⟩
  · obtain ⟨hmem, hle⟩ := hsound.times e he
    have hstretch := hsound.events.subset (List.mem_map_of_mem he)
    exact ⟨hmem, hle, (hsound.stops _ hstretch).1⟩
  · exact List.pairwise_map.1 (hsound.apart.sublist hsound.events)

/-- All CPUs are idle when the tracer is attached. -/
def attached : Traced := ⟨⟨[], .empty, .empty, .empty⟩, 0, fun _ => .blocked, fun _ => 0, [], [], ∅⟩

theorem init_attached : machine.init attached :=
  ⟨⟨rfl, fun _ h => absurd rfl h, nofun, nofun⟩, rfl, rfl, rfl, rfl⟩

/-- Process 7 is woken at 10, and runs on CPU 0 from 12 to 20, where it is preempted, and on CPU 1
from 25 to 30. -/
def migrating : List Action :=
  [.addPid 7, .waking 7 10, .switch 0 7 false 0 true 12, .switch 0 0 true 0 true 20,
    .switch 1 7 false 0 true 25, .switch 1 0 false 1 true 30]

/-- The ring buffer is full when process 7 leaves CPU 0: its first stretch is lost. -/
theorem events_sublist_log_overflow :
    ∃ x, machine.Reachable x ∧ x.log.length = 2 ∧ x.tracer.buffer = [⟨7, 1, 10, 25, 30⟩] ∧
      (x.tracer.buffer.map SchedstatEvent.stretch).Sublist (x.log.map (·.1.stretch)) := by
  have heval : (machine.exec attached [.addPid 7, .waking 7 10, .switch 0 7 false 0 true 12,
      .switch 0 0 true 0 false 20, .switch 1 7 false 0 true 25, .switch 1 0 false 1 true 30]).any
      (fun x => decide (x.log.length = 2 ∧ x.tracer.buffer = [⟨7, 1, 10, 25, 30⟩])) = true := by
    decide +kernel
  obtain ⟨x, hx, hall⟩ := (Option.any_eq_true _ _).1 heval
  obtain ⟨hlog, hbuffer⟩ := of_decide_eq_true hall
  have hreach : machine.Reachable x := Machine.reachable_of_exec init_attached hx
  exact ⟨x, hreach, hlog, hbuffer, (events_sublist_log hreach).1⟩

/-! ### Exactness -/

/-- The tracer is used as it is meant to be. -/
def Orderly (x : Traced) : Action → Prop
  -- only a process that sleeps is woken
  | .waking pid _ => (x.phase pid).isReady = false
  -- no process is preempted after it has set its state, and the ring buffer has room
  | .switch _ _ preempt prevState room _ =>
    (preempt = true → prevState = Schedstat.taskRunning) ∧ room = true
  | .addPid pid => x.phase pid = .blocked ∧ (insert pid x.added).card ≤ 1024
  | .removePid pid => x.phase pid = .blocked

/-- Every process in the filter has the note that belongs to its phase. -/
structure Exact (x : Traced) : Prop where
  sound : Sound x
  unfiltered : ∀ p, ¬ x.tracer.Filtered p → x.tracer.schedSwitchMap.lookup p = none
  running : ∀ p woken cpu start, x.tracer.Filtered p → x.phase p = .running woken cpu start →
    x.tracer.schedSwitchMap.lookup p = some ⟨woken, start⟩
  ready : ∀ p woken, x.tracer.Filtered p → x.phase p = .ready woken →
    x.tracer.schedWakingMap.lookup p = some ⟨woken, 0⟩
  trace : x.tracer.buffer = (x.log.filter (·.2)).map (·.1)
  card_added : x.added.card ≤ 1024
  filtered_added : ∀ p, x.tracer.Filtered p → p ∈ x.added
  waking_added : ∀ p, (x.tracer.schedWakingMap.lookup p).isSome → p ∈ x.added
  switch_added : ∀ p, (x.tracer.schedSwitchMap.lookup p).isSome → p ∈ x.added

theorem exact_of_init (h : machine.init x) : Exact x := by
  have hsound := sound_of_init h
  obtain ⟨-, htracer, -, hlog, hadded⟩ := h
  have hfilter : ∀ p, ¬ x.tracer.Filtered p := by
    intro p hp
    rw [htracer, Schedstat.Filtered, BpfHash.lookup_empty] at hp
    cases hp
  refine ⟨hsound, fun p _ => ?_, fun p _ _ _ hp => absurd hp (hfilter p),
    fun p _ hp => absurd hp (hfilter p), ?_, ?_, fun p hp => absurd hp (hfilter p), fun p hp => ?_,
    fun p hp => ?_⟩
  · rw [htracer, BpfHash.lookup_empty]
  · rw [htracer, hlog]
    rfl
  · rw [hadded]
    exact Nat.zero_le _
  · rw [htracer, BpfHash.lookup_empty] at hp
    cases hp
  · rw [htracer, BpfHash.lookup_empty] at hp
    cases hp

theorem tracer_waken : (x.waken pid now).tracer = x.tracer.schedWaking pid now := rfl

theorem filtered_waken {p : Int32} : (x.waken pid now).tracer.Filtered p ↔ x.tracer.Filtered p := by
  rw [waken, Schedstat.Filtered, Schedstat.pidFilterMap_schedWaking, Schedstat.Filtered]

theorem Exact.waken (h : Exact x) (hpid : pid ≠ 0) (hclock : x.clock ≤ now)
    (hsleeps : (x.phase pid).isReady = false) : Exact (x.waken pid now) where
  sound := h.sound.waken hpid hclock
  unfiltered p hp := by
    rw [Traced.waken, Schedstat.schedSwitchMap_schedWaking]
    exact h.unfiltered p fun hp' => hp (filtered_waken.2 hp')
  running p woken cpu start hp hphase := by
    rw [Traced.waken, Schedstat.schedSwitchMap_schedWaking]
    exact h.running p woken cpu start (filtered_waken.1 hp) (running_waken.1 hphase)
  ready p woken hp hphase := by
    have hfilter := filtered_waken.1 hp
    rw [tracer_waken, Schedstat.schedWaking]
    rcases ready_waken hphase with ⟨rfl, -, rfl⟩ | hold
    · have hroom := BpfHash.update_eq_true_of_mem (v := ⟨woken, 0⟩) h.waking_added h.card_added
        (h.filtered_added p hfilter)
      rw [if_pos hfilter, BpfHash.lookup_update, if_pos ⟨rfl, hroom⟩]
    · have hne : pid ≠ p := by
        rintro rfl
        rw [hold] at hsleeps
        cases hsleeps
      split_ifs
      · rw [BpfHash.lookup_update, if_neg fun h => hne h.1]
        exact h.ready p woken hfilter hold
      · exact h.ready p woken hfilter hold
  trace := by
    rw [Traced.waken, Schedstat.buffer_schedWaking]
    exact h.trace
  card_added := h.card_added
  filtered_added p hp := h.filtered_added p (filtered_waken.1 hp)
  waking_added p hp := by
    obtain ⟨d, hd⟩ := Option.isSome_iff_exists.1 hp
    rcases Schedstat.lookup_schedWakingMap_schedWaking hd with ⟨rfl, -, hfilter⟩ | hold
    · exact h.filtered_added p hfilter
    · exact h.waking_added p (Option.isSome_iff_exists.2 ⟨d, hold⟩)
  switch_added p hp := by
    rw [Traced.waken, Schedstat.schedSwitchMap_schedWaking] at hp
    exact h.switch_added p hp

theorem tracer_switch : (x.switch cpu next preempt prevState room now).tracer =
    x.tracer.schedSwitch cpu (x.current cpu) next prevState room now := rfl

theorem filtered_switch {p : Int32} :
    (x.switch cpu next preempt prevState room now).tracer.Filtered p ↔ x.tracer.Filtered p := by
  rw [switch, Schedstat.Filtered, Schedstat.pidFilterMap_schedSwitch, Schedstat.Filtered]

theorem Exact.switchOut_added (h : Exact x) {p : Int32}
    (hp : ((x.tracer.switchOut cpu (x.current cpu) prevState room now).schedSwitchMap.lookup p).isSome) :
    p ∈ x.added := by
  rw [Schedstat.lookup_schedSwitchMap_switchOut] at hp
  split_ifs at hp
  · cases hp
  · exact h.switch_added p hp

theorem Exact.switch (h : Exact x) (hclock : x.clock ≤ now)
    (hnext : next = 0 ∨ (x.phase next).isReady = true)
    (hstate : preempt = true → prevState = Schedstat.taskRunning) :
    Exact (x.switch cpu next preempt prevState true now) where
  sound := h.sound.switch hclock hnext
  unfiltered p hp := by
    have hnot : ¬ x.tracer.Filtered p := fun hp' => hp (filtered_switch.2 hp')
    have hold := h.unfiltered p hnot
    by_cases hne : p = next
    · subst hne
      rw [tracer_switch, Schedstat.lookup_schedSwitchMap_of_not_filtered hnot]
      split_ifs
      · rfl
      · exact hold
    · rw [tracer_switch, Schedstat.lookup_schedSwitchMap_of_ne hne]
      split_ifs
      · rfl
      · exact hold
  running p woken cpu' start hp hphase := by
    have hfilter := filtered_switch.1 hp
    have hzero := h.sound.filtered p hfilter
    rcases h.sound.consistent.running_switch hnext hphase with
      ⟨rfl, hready, rfl, rfl⟩ | ⟨hprev, hne, hold⟩
    · rw [tracer_switch]
      exact Schedstat.lookup_schedSwitchMap_next
        (h.sound.consistent.current_ne_next hnext cpu' hzero) hfilter
        (h.ready p woken hfilter hready) fun v => BpfHash.update_eq_true_of_mem
          (fun q hq => h.switchOut_added hq) h.card_added (h.filtered_added p hfilter)
    · rw [tracer_switch, Schedstat.lookup_schedSwitchMap_of_ne hne, if_neg hprev.symm]
      exact h.running p woken cpu' start hfilter hold
  ready p woken hp hphase := by
    have hfilter := filtered_switch.1 hp
    rcases h.sound.consistent.ready_switch hnext hphase with
      ⟨rfl, hstays, start, hold⟩ | ⟨hprev, hne, hold⟩
    · have hrunning : prevState = Schedstat.taskRunning := by
        rcases Bool.or_eq_true_iff.1 hstays with hpreempt | hrunning
        · exact hstate hpreempt
        · exact of_decide_eq_true hrunning
      have hne : x.current cpu ≠ next := by
        by_cases hzero : next = 0
        · rw [hzero]
          exact h.sound.filtered _ hfilter
        · exact h.sound.consistent.current_ne_next hnext cpu hzero
      rw [tracer_switch]
      exact Schedstat.lookup_schedWakingMap_prev hne (h.running _ woken cpu start hfilter hold)
        hrunning fun v =>
          BpfHash.update_eq_true_of_mem h.waking_added h.card_added (h.filtered_added _ hfilter)
    · rw [tracer_switch, Schedstat.lookup_schedWakingMap_of_ne hprev hne]
      exact h.ready p woken hfilter hold
  trace := by
    rw [Traced.switch, Schedstat.buffer_schedSwitch, h.trace, List.filter_append, List.map_append,
      if_pos rfl]
    congr 1
    by_cases hp : x.tracer.Filtered (x.current cpu)
    · obtain ⟨-, woken, start, hphase⟩ :=
        (h.sound.consistent.phase_current cpu).resolve_left fun hz => h.sound.filtered _ hp hz.1
      rw [h.running _ woken cpu start hp hphase, stretch?, hphase, decide_eq_true hp]
      rfl
    · rw [h.unfiltered _ hp, decide_eq_false hp]
      cases x.stretch? cpu now <;> rfl
  card_added := h.card_added
  filtered_added p hp := h.filtered_added p (filtered_switch.1 hp)
  waking_added p hp := by
    obtain ⟨d, hd⟩ := Option.isSome_iff_exists.1 hp
    rcases Schedstat.lookup_schedWakingMap_schedSwitch hd with ⟨pdata, hpdata, rfl, -⟩ | hold
    · exact h.switch_added _ (Option.isSome_iff_exists.2 ⟨pdata, hpdata⟩)
    · exact h.waking_added p (Option.isSome_iff_exists.2 ⟨d, hold⟩)
  switch_added p hp := by
    obtain ⟨d, hd⟩ := Option.isSome_iff_exists.1 hp
    rcases Schedstat.lookup_schedSwitchMap_schedSwitch hd with ⟨rfl, hfilter, -⟩ | ⟨-, hold⟩
    · exact h.filtered_added p hfilter
    · exact h.switch_added p (Option.isSome_iff_exists.2 ⟨d, hold⟩)

theorem Exact.refilter (h : Exact x) {filter : BpfHash 1024 Int32 UInt8} {added : Finset Int32}
    (hsound : Sound { x with tracer.pidFilterMap := filter, added })
    (hblocked : x.phase pid = .blocked)
    (hsame : ∀ p, p ≠ pid → filter.lookup p = x.tracer.pidFilterMap.lookup p)
    (hadded : x.added ⊆ added) (hcard : added.card ≤ 1024)
    (hpid : (filter.lookup pid).isSome → pid ∈ added) :
    Exact { x with tracer.pidFilterMap := filter, added } where
  sound := hsound
  unfiltered p hp := by
    by_cases heq : p = pid
    · -- a process that is blocked has no note about running
      subst heq
      refine Option.eq_none_iff_forall_not_mem.2 fun d hd => ?_
      obtain ⟨⟨woken, cpu, hphase⟩, -⟩ := h.sound.switched p d hd
      cases hblocked.symm.trans hphase
    · exact h.unfiltered p fun hp' => hp (by rwa [Schedstat.Filtered, hsame p heq])
  running p woken cpu start hp hphase := by
    have hne : p ≠ pid := by
      rintro rfl
      cases hblocked.symm.trans hphase
    exact h.running p woken cpu start (by rwa [Schedstat.Filtered, hsame p hne] at hp) hphase
  ready p woken hp hphase := by
    have hne : p ≠ pid := by
      rintro rfl
      cases hblocked.symm.trans hphase
    exact h.ready p woken (by rwa [Schedstat.Filtered, hsame p hne] at hp) hphase
  trace := h.trace
  card_added := hcard
  filtered_added p hp := by
    by_cases heq : p = pid
    · subst heq
      exact hpid hp
    · exact hadded (h.filtered_added p (by rwa [Schedstat.Filtered, hsame p heq] at hp))
  waking_added p hp := hadded (h.waking_added p hp)
  switch_added p hp := hadded (h.switch_added p hp)

theorem Exact.of_next {a : Action} (h : Exact x) (hok : Orderly x a)
    (hn : machine.next x a = some x') : Exact x' := by
  have hsound := h.sound.of_next hn
  cases a with
  | waking pid now =>
    obtain ⟨⟨hpid, hclock⟩, heq⟩ := Option.ite_none_right_eq_some.1 hn
    cases heq
    exact h.waken hpid hclock hok
  | switch cpu next preempt prevState room now =>
    obtain ⟨⟨hclock, hnext⟩, heq⟩ := Option.ite_none_right_eq_some.1 hn
    cases heq
    obtain ⟨hstate, rfl⟩ := hok
    exact h.switch hclock hnext hstate
  | addPid pid =>
    obtain ⟨hblocked, hcard⟩ := hok
    cases hn
    unfold Schedstat.addPid at hsound ⊢
    split_ifs at hsound ⊢
    · exact h.refilter hsound hblocked (fun _ _ => rfl) (Finset.subset_insert _ _) hcard
        fun _ => Finset.mem_insert_self _ _
    · refine h.refilter hsound hblocked (fun p hp => ?_) (Finset.subset_insert _ _) hcard
        fun _ => Finset.mem_insert_self _ _
      rw [BpfHash.lookup_update, if_neg fun h => hp h.1.symm]
  | removePid pid =>
    cases hn
    unfold Schedstat.removePid at hsound ⊢
    split_ifs at hsound ⊢
    · exact h
    · refine h.refilter hsound hok (fun p hp => ?_) (Finset.Subset.refl _) h.card_added fun hp => ?_
      · rw [BpfHash.lookup_delete, if_neg (Ne.symm hp)]
      · rw [BpfHash.lookup_delete, if_pos rfl] at hp
        cases hp

/-- **The trace is exact.**  If the tracer is used as it is meant to be, the events are the stretches of
the processes in the filter, all of them and in their order, each with the time at which its process
was woken. -/
theorem events_eq_log (h : machine.ReachableIf Orderly x) :
    x.tracer.buffer = (x.log.filter (·.2)).map (·.1) :=
  (h.invariant (I := Exact) (fun _ hx => exact_of_init hx)
    fun _ _ _ hx hok hn => hx.of_next hok hn).trace

instance {a : Action} : Decidable (Orderly x a) :=
  match a with
  | .waking _ _ => inferInstanceAs (Decidable (_ = _))
  | .switch .. => inferInstanceAs (Decidable (_ ∧ _))
  | .addPid _ => inferInstanceAs (Decidable (_ ∧ _))
  | .removePid _ => inferInstanceAs (Decidable (_ = _))

/-- Both stretches of process 7 are reported. -/
theorem events_eq_log_migrating :
    ∃ x, machine.ReachableIf Orderly x ∧
      x.tracer.buffer = [⟨7, 0, 10, 12, 20⟩, ⟨7, 1, 10, 25, 30⟩] ∧
      x.tracer.buffer = (x.log.filter (·.2)).map (·.1) := by
  have heval : (machine.execIf (fun x a => decide (Orderly x a)) attached migrating).any
      (fun x => decide (x.tracer.buffer = [⟨7, 0, 10, 12, 20⟩, ⟨7, 1, 10, 25, 30⟩])) = true := by
    decide +kernel
  obtain ⟨x, hx, hbuffer⟩ := (Option.any_eq_true _ _).1 heval
  have hreach : machine.ReachableIf Orderly x := (Machine.ReachableIf.of_init init_attached).leads
    (Machine.leads_of_execIf (fun _ _ => of_decide_eq_true) hx)
  exact ⟨x, hreach, of_decide_eq_true hbuffer, events_eq_log hreach⟩

end Traced

end Timpani
